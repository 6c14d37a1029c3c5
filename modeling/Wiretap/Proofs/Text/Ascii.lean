import Wiretap.Proofs.Text.Valid

/-!
# Characters of ASCII

Bytes of ASCII are characters, each of them one (`decode?_ascii`), and a longer character
is none of ASCII, whatever bytes finish it (`Partial.Wide`). So a character of ASCII stands
in a text as often as its byte does (`count_decode?`), and lenient reading gives none whose byte
is not there (`notMem_decodeLossy`).
-/

namespace Wiretap.Utf8

theorem lead_of_ascii {b : UInt8} (h : b < 0x80) : lead b = .char (Char.ofNat b.toNat) :=
  if_pos (UInt8.lt_iff_toNat_lt.mp h)

theorem decodeFrom_ascii {s : Bytes} (h : ∀ b ∈ s, b < 0x80) (acc : List Char) :
    decodeFrom none acc s = some (acc.reverse ++ s.map fun b => Char.ofNat b.toNat) := by
  induction s generalizing acc with
  | nil => simp [decodeFrom]
  | cons b rest ih =>
    simp only [decodeFrom, step, lead_of_ascii (h b List.mem_cons_self)]
    rw [ih fun b' hb' => h b' (List.mem_cons_of_mem b hb')]
    simp

theorem decode?_ascii {s : Bytes} (h : ∀ b ∈ s, b < 0x80) :
    decode? s = some (s.map fun b => Char.ofNat b.toNat) := decodeFrom_ascii h []

theorem valid_ascii {s : Bytes} (h : ∀ b ∈ s, b < 0x80) : Valid s := by
  have hfrom (n : Nat) : validLengthFrom none n n s = n + s.length := by
    induction s generalizing n with
    | nil => rfl
    | cons b rest ih =>
      rw [List.forall_mem_cons] at h
      rw [validLengthFrom, step, lead_of_ascii h.1, List.length_cons, Nat.add_comm rest.length,
        ← Nat.add_assoc]
      exact ih h.2 (n + 1)
  exact (hfrom 0).trans (Nat.zero_add _)

theorem toNat_ofNat_byte (b : UInt8) : (Char.ofNat b.toNat).toNat = b.toNat := by
  have hb := b.toNat_lt
  unfold Char.ofNat
  rw [dif_pos (.inl (by omega))]
  rfl

theorem ofNat_byte_inj {a b : UInt8} : Char.ofNat a.toNat = Char.ofNat b.toNat ↔ a = b := by
  refine ⟨fun h => UInt8.toNat_inj.mp ?_, fun h => h ▸ rfl⟩
  rw [← toNat_ofNat_byte a, h, toNat_ofNat_byte]

/-! ## Longer characters -/

/-- What has been read of a character is of none of ASCII. -/
structure Partial.Wide (p : Partial) : Prop where
  proper : p.Proper
  value : 0x80 ≤ p.value * 64 + (p.low - 0x80) ∨ 2 ≤ p.owed ∧ 2 ≤ p.value * 64 + (p.low - 0x80)

theorem wide_of_lead {b : UInt8} {p : Partial} (h : lead b = .more p) : p.Wide := by
  refine ⟨proper_of_lead h, ?_⟩
  unfold lead at h
  simp only at h
  repeat' split at h
  all_goals cases h <;> simp only <;> omega

theorem wide_of_feed {p p' : Partial} {b : UInt8} (hp : p.Wide) (h : p.feed b = .more p') :
    p'.Wide := by
  refine ⟨proper_of_feed h, ?_⟩
  have hproper : 0x80 ≤ p.low := hp.proper
  have hvalue := hp.value
  unfold Partial.feed at h
  simp only at h
  split_ifs at h
  cases h
  simp only
  omega

theorem wide_of_step {q : Option Partial} (hq : ∀ p ∈ q, p.Wide) {b : UInt8} {p : Partial}
    (h : step q b = .more p) : p.Wide := by
  cases q with
  | none => exact wide_of_lead h
  | some p' => exact wide_of_feed (hq p' rfl) h

theorem char_of_lead {b : UInt8} {c : Char} (h : lead b = .char c) : c = Char.ofNat b.toNat := by
  unfold lead at h
  simp only at h
  repeat' split at h
  all_goals cases h
  rfl

theorem char_of_feed {p : Partial} {b : UInt8} (hp : p.Wide) {c : Char} (h : p.feed b = .char c) :
    ∃ n, 0x80 ≤ n ∧ c = Char.ofNat n := by
  have hproper : 0x80 ≤ p.low := hp.proper
  have hvalue := hp.value
  unfold Partial.feed at h
  simp only at h
  split_ifs at h
  have hn : 0x80 ≤ p.value * 64 + (b.toNat - 0x80) := by omega
  exact ⟨_, hn, (Step.char.inj h).symm⟩

/-- No number from 128 on is that of a character of ASCII; those of no character give NUL. -/
theorem ofNat_ne_byte {a : UInt8} (hpos : 0 < a) (ha : a < 0x80) {n : Nat} (hn : 0x80 ≤ n) :
    Char.ofNat n ≠ Char.ofNat a.toNat := by
  intro h
  have hnat := congrArg Char.toNat h
  rw [toNat_ofNat_byte] at hnat
  rw [UInt8.lt_iff_toNat_lt] at hpos ha
  have hchar : (Char.ofNat n).toNat = n ∨ (Char.ofNat n).toNat = 0 := by
    unfold Char.ofNat
    by_cases hvalid : n.isValidChar
    · rw [dif_pos hvalid]
      exact .inl rfl
    · rw [dif_neg hvalid]
      exact .inr rfl
  rcases hchar with hchar | hchar <;> rw [hchar] at hnat
  · exact absurd ha (Nat.not_lt_of_le (hnat ▸ hn))
  · exact absurd hpos (Nat.not_lt_of_le (Nat.le_of_eq hnat.symm))

/-! ## Counts -/

section

variable {q : Option Partial} (hq : ∀ p ∈ q, p.Wide) {a b : UInt8} (ha : a < 0x80)

include hq ha

theorem step_eq_char (hpos : 0 < a) {c : Char} (h : step q b = .char c) :
    c = Char.ofNat a.toNat ↔ b = a := by
  cases q with
  | none => rw [char_of_lead h, ofNat_byte_inj]
  | some p =>
    obtain ⟨n, hn, rfl⟩ := char_of_feed (hq p rfl) h
    refine ⟨fun heq => absurd heq (ofNat_ne_byte hpos ha hn), ?_⟩
    rintro rfl
    rw [step, feed_of_ascii (hq p rfl).proper ha] at h
    cases h

theorem ne_of_step_more {p : Partial} (h : step q b = .more p) : b ≠ a := by
  rintro rfl
  cases q with
  | none =>
    rw [step, lead_of_ascii ha] at h
    cases h
  | some p' =>
    rw [step, feed_of_ascii (hq p' rfl).proper ha] at h
    cases h

theorem count_decodeFrom (hpos : 0 < a) {s : Bytes} {acc cs : List Char}
    (h : decodeFrom q acc s = some cs) :
    cs.count (Char.ofNat a.toNat) = acc.count (Char.ofNat a.toNat) + s.count a := by
  induction s generalizing q acc with
  | nil =>
    rw [decodeFrom] at h
    split at h
    · cases h
      rw [List.count_reverse, List.count_nil, Nat.add_zero]
    · cases h
  | cons b rest ih =>
    rw [decodeFrom] at h
    cases hs : step q b with
    | char c =>
      simp only [hs] at h
      rw [ih (by simp) h, List.count_cons, List.count_cons, Nat.add_right_comm, Nat.add_assoc]
      simp only [beq_iff_eq, step_eq_char hq ha hpos hs]
    | more p =>
      simp only [hs] at h
      rw [ih (fun p' hp' => Option.mem_some.mp hp' ▸ wide_of_step hq hs) h,
        List.count_cons_of_ne (ne_of_step_more hq ha hs)]
    | refused =>
      simp only [hs] at h
      cases h

end

/-- A character of ASCII other than NUL stands in a text as often as its byte does. -/
theorem count_decode? {a : UInt8} (hpos : 0 < a) (ha : a < 0x80) {s : Bytes} {cs : List Char}
    (h : decode? s = some cs) : s.count a = cs.count (Char.ofNat a.toNat) := by
  rw [count_decodeFrom (by simp) ha hpos h, List.count_nil, Nat.zero_add]

/-! ## Lenient reading -/

theorem replacement_ne_byte {a : UInt8} (hpos : 0 < a) (ha : a < 0x80) :
    replacement ≠ Char.ofNat a.toNat :=
  ofNat_ne_byte hpos ha (n := 0xFFFD) (by decide)

theorem notMem_decodeLossyFrom {a : UInt8} (hpos : 0 < a) (ha : a < 0x80) {s : Bytes} (h : a ∉ s)
    {q : Option Partial} (hq : ∀ p ∈ q, p.Wide) {acc : List Char}
    (hacc : Char.ofNat a.toNat ∉ acc) : Char.ofNat a.toNat ∉ decodeLossyFrom q acc s := by
  have hcons {c : Char} {acc : List Char} (hc : c ≠ Char.ofNat a.toNat)
      (hacc : Char.ofNat a.toNat ∉ acc) : Char.ofNat a.toNat ∉ c :: acc := by
    rw [List.mem_cons, not_or]
    exact ⟨hc.symm, hacc⟩
  have hreplaced := replacement_ne_byte hpos ha
  induction s generalizing q acc with
  | nil =>
    rw [decodeLossyFrom, List.mem_reverse]
    split
    · exact hcons hreplaced hacc
    · exact hacc
  | cons b rest ih =>
    rw [List.mem_cons, not_or] at h
    have hchar {q : Option Partial} (hq : ∀ p ∈ q, p.Wide) {c : Char} (hs : step q b = .char c) :
        c ≠ Char.ofNat a.toNat := fun hc => h.1 ((step_eq_char hq ha hpos hs).mp hc).symm
    have hwide {q : Option Partial} (hq : ∀ p ∈ q, p.Wide) {p : Partial} (hs : step q b = .more p) :
        ∀ p' ∈ some p, p'.Wide := fun p' hp' => Option.mem_some.mp hp' ▸ wide_of_step hq hs
    rw [decodeLossyFrom]
    cases hs : step q b with
    | char c => exact ih h.2 (by simp) (hcons (hchar hq hs) hacc)
    | more p => exact ih h.2 (hwide hq hs) hacc
    | refused =>
      simp only
      split
      · exact ih h.2 (by simp) (hcons hreplaced hacc)
      -- the byte that did not finish a character may begin another
      cases hlead : lead b with
      | char c => exact ih h.2 (by simp) (hcons (hchar (q := none) (by simp) hlead)
          (hcons hreplaced hacc))
      | more p => exact ih h.2 (hwide (q := none) (by simp) hlead) (hcons hreplaced hacc)
      | refused => exact ih h.2 (by simp) (hcons hreplaced (hcons hreplaced hacc))

/-- Lenient reading makes no character of ASCII up. -/
theorem notMem_decodeLossy {a : UInt8} (hpos : 0 < a) (ha : a < 0x80) {s : Bytes} (h : a ∉ s) :
    Char.ofNat a.toNat ∉ decodeLossy s :=
  notMem_decodeLossyFrom hpos ha h (by simp) List.not_mem_nil

end Wiretap.Utf8
