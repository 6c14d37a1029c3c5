import Mathlib.Data.List.Infix
import Wiretap.Text.Utf8

/-!
# Valid parts

The valid part of a text is valid itself (`valid_validPart`), and it grows with the
text (`validPart_isPrefix`). In a valid text a character begins behind every byte of
ASCII (`not_isContinuation_of_ascii`) and behind every valid text at its front
(`not_isContinuation_of_valid`).
-/

namespace Wiretap.Utf8

def Valid (s : Bytes) : Prop := validLength s = s.length

theorem le_validLengthFrom {q : Option Partial} {seen good : Nat} (hg : good ≤ seen) (s : Bytes) :
    good ≤ validLengthFrom q seen good s := by
  induction s generalizing q seen good with
  | nil => exact Nat.le_refl good
  | cons b rest ih =>
    rw [validLengthFrom]
    cases step q b with
    | char _ => exact Nat.le_trans (by omega) (ih (Nat.le_refl (seen + 1)))
    | more p => exact ih (by omega)
    | refused => exact Nat.le_refl good

theorem validLengthFrom_le {q : Option Partial} {seen good : Nat} (hg : good ≤ seen) (s : Bytes) :
    validLengthFrom q seen good s ≤ seen + s.length := by
  induction s generalizing q seen good with
  | nil => exact hg
  | cons b rest ih =>
    rw [validLengthFrom, List.length_cons]
    cases step q b with
    | char _ => exact Nat.le_trans (ih (Nat.le_refl (seen + 1))) (by omega)
    | more p => exact Nat.le_trans (ih (by omega)) (by omega)
    | refused => exact Nat.le_trans hg (by omega)

theorem validLengthFrom_append {q : Option Partial} {seen good : Nat} (hg : good ≤ seen)
    (s t : Bytes) : validLengthFrom q seen good s ≤ validLengthFrom q seen good (s ++ t) := by
  induction s generalizing q seen good with
  | nil => exact le_validLengthFrom hg t
  | cons b rest ih =>
    rw [List.cons_append, validLengthFrom, validLengthFrom]
    cases step q b with
    | char _ => exact ih (Nat.le_refl (seen + 1))
    | more p => exact ih (by omega)
    | refused => exact Nat.le_refl good

theorem validLengthFrom_cases {q : Option Partial} {seen good : Nat} (hg : good ≤ seen)
    (s : Bytes) :
    validLengthFrom q seen good s = good ∨ seen < validLengthFrom q seen good s := by
  induction s generalizing q seen good with
  | nil => exact .inl rfl
  | cons b rest ih =>
    rw [validLengthFrom]
    cases step q b with
    | char _ => exact .inr (le_validLengthFrom (Nat.le_refl (seen + 1)) rest)
    | more p =>
      rcases @ih (some p) (seen + 1) good (by omega) with h | h
      · exact .inl h
      · exact .inr (Nat.lt_of_succ_lt h)
    | refused => exact .inl rfl

/-- The bytes behind the last point between characters do not matter. -/
theorem validLengthFrom_take {q : Option Partial} {seen good : Nat} (hg : good ≤ seen)
    (s : Bytes) :
    validLengthFrom q seen good (s.take (validLengthFrom q seen good s - seen)) =
      validLengthFrom q seen good s := by
  induction s generalizing q seen good with
  | nil => rw [List.take_nil]
  | cons b rest ih =>
    rcases validLengthFrom_cases (q := q) hg (b :: rest) with h | h
    · rw [h, Nat.sub_eq_zero_of_le hg]
      rfl
    · rw [show validLengthFrom q seen good (b :: rest) - seen =
        validLengthFrom q seen good (b :: rest) - (seen + 1) + 1 by omega, List.take_succ_cons]
      simp only [validLengthFrom]
      cases step q b with
      | char _ => exact ih (Nat.le_refl (seen + 1))
      | more p => exact ih (by omega)
      | refused => rfl

theorem validLength_le (s : Bytes) : validLength s ≤ s.length := by
  have := validLengthFrom_le (q := none) (Nat.le_refl 0) s
  rwa [Nat.zero_add] at this

theorem validPart_isPrefix (s t : Bytes) : validPart s <+: validPart (s ++ t) := by
  unfold validPart
  have happ : (s ++ t).take (validLength s) = s.take (validLength s) :=
    List.take_append_of_le_length (validLength_le s)
  rw [← happ]
  exact List.take_prefix_take_left (validLengthFrom_append (Nat.le_refl 0) s t)

theorem valid_validPart (s : Bytes) : Valid (validPart s) := by
  have := validLengthFrom_take (q := none) (Nat.le_refl 0) s
  rw [Valid, validPart, List.length_take_of_le (validLength_le s)]
  exact this

theorem Valid.validPart_eq {s : Bytes} (h : Valid s) : validPart s = s := by
  rw [validPart, h, List.take_length]

/-! ## Where characters begin -/

def Partial.Proper (p : Partial) : Prop := 0x80 ≤ p.low

theorem proper_of_lead {b : UInt8} {p : Partial} (h : lead b = .more p) : p.Proper := by
  unfold lead at h
  simp only at h
  split_ifs at h <;> cases h <;> simp [Partial.Proper]

theorem proper_of_feed {p p' : Partial} {b : UInt8} (h : p.feed b = .more p') : p'.Proper := by
  unfold Partial.feed at h
  simp only at h
  split_ifs at h
  cases h
  exact Nat.le_refl 0x80

theorem proper_of_step {q : Option Partial} {b : UInt8} {p : Partial} (h : step q b = .more p) :
    p.Proper := by
  cases q with
  | none => exact proper_of_lead h
  | some p => exact proper_of_feed h

theorem lead_of_isContinuation {b : UInt8} (h : isContinuation b) : lead b = .refused := by
  simp only [isContinuation, Bool.and_eq_true, decide_eq_true_eq, UInt8.le_iff_toNat_le,
    UInt8.lt_iff_toNat_lt] at h
  unfold lead
  have h₁ : ¬ b.toNat < 0x80 := Nat.not_lt_of_le h.1
  have h₂ : b.toNat < 0xC2 := Nat.lt_trans h.2 (by decide)
  simp only [if_neg h₁, if_pos h₂]

theorem feed_of_ascii {p : Partial} (hp : p.Proper) {a : UInt8} (ha : a < 0x80) :
    p.feed a = .refused := by
  have h : a.toNat < 0x80 := UInt8.lt_iff_toNat_lt.mp ha
  unfold Partial.Proper at hp
  exact if_neg (by omega)

theorem validLengthFrom_ascii_continuation {q : Option Partial} (hq : ∀ p ∈ q, p.Proper)
    {seen good : Nat} (hg : good ≤ seen) {a b : UInt8} (ha : a < 0x80) (hb : isContinuation b)
    (u v : Bytes) :
    validLengthFrom q seen good (u ++ a :: b :: v) ≤ seen + u.length + 1 := by
  induction u generalizing q seen good with
  | nil =>
    rw [List.nil_append, validLengthFrom, List.length_nil]
    cases q with
    | none =>
      have hlead : lead a = .char (Char.ofNat a.toNat) := if_pos (UInt8.lt_iff_toNat_lt.mp ha)
      simp only [step, hlead, validLengthFrom, lead_of_isContinuation hb]
      omega
    | some p =>
      simp only [step, feed_of_ascii (hq p rfl) ha]
      omega
  | cons c u ih =>
    rw [List.cons_append, validLengthFrom, List.length_cons]
    cases hs : step q c with
    | char _ => exact Nat.le_trans (ih (by simp) (Nat.le_refl (seen + 1))) (by omega)
    | more p =>
      refine Nat.le_trans (ih (fun p' hp' => ?_) (by omega)) (by omega)
      cases hp'
      exact proper_of_step hs
    | refused =>
      simp only
      omega

/-- No character goes on behind a byte of ASCII. -/
theorem not_isContinuation_of_ascii {a b : UInt8} {u v : Bytes} (h : Valid (u ++ a :: b :: v))
    (ha : a < 0x80) : ¬ isContinuation b := by
  intro hb
  have hle := validLengthFrom_ascii_continuation (q := none) (by simp) (Nat.le_refl 0) ha hb u v
  rw [Valid, validLength] at h
  rw [h, List.length_append, List.length_cons, List.length_cons] at hle
  omega

/-- Behind the last character of a valid text reading goes on as at a start. -/
theorem validLengthFrom_append_of_eq {q : Option Partial} {seen good : Nat} (hg : good ≤ seen)
    {s : Bytes} (hne : s ≠ []) (h : validLengthFrom q seen good s = seen + s.length) (t : Bytes) :
    validLengthFrom q seen good (s ++ t) =
      validLengthFrom none (seen + s.length) (seen + s.length) t := by
  induction s generalizing q seen good with
  | nil => exact absurd rfl hne
  | cons b rest ih =>
    rw [validLengthFrom] at h
    rw [List.cons_append, validLengthFrom]
    rw [List.length_cons, Nat.add_comm rest.length, ← Nat.add_assoc] at h ⊢
    cases hs : step q b with
    | char _ =>
      simp only [hs] at h ⊢
      rcases rest with _ | ⟨c, rest⟩
      · rfl
      · exact ih (Nat.le_refl _) (List.cons_ne_nil c rest) (by omega)
    | more p =>
      simp only [hs] at h ⊢
      rcases rest with _ | ⟨c, rest⟩
      · rw [validLengthFrom] at h
        omega
      · exact ih (by omega) (List.cons_ne_nil c rest) h
    | refused =>
      simp only [hs] at h
      omega

/-- No character goes on behind a valid text. -/
theorem not_isContinuation_of_valid {b : UInt8} {u v : Bytes} (hu : Valid u)
    (h : Valid (u ++ b :: v)) : ¬ isContinuation b := by
  intro hb
  have hread : validLength (u ++ b :: v) = validLengthFrom none u.length u.length (b :: v) := by
    cases u with
    | nil => rfl
    | cons c u =>
      have happend := validLengthFrom_append_of_eq (q := none) (Nat.le_refl 0)
        (List.cons_ne_nil c u) (by rw [Nat.zero_add]; exact hu) (b :: v)
      rwa [Nat.zero_add] at happend
  rw [Valid, hread, validLengthFrom, step, lead_of_isContinuation hb, List.length_append,
    List.length_cons] at h
  simp only at h
  omega

end Wiretap.Utf8
