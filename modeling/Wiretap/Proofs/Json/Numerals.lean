import Mathlib.Data.List.TakeWhile
import Wiretap.Json.Parser
import Wiretap.Json.Printer
import Wiretap.Proofs.Number.Digits

/-!
# Numerals are read back

A numeral is read up to what follows it: nothing, a comma or a closing bracket
(`numeral_append`). Whole numbers that fit 64 bits, signed or not, are read back from their
digits (`numeral_int`); of a double it is asked that its text is read back when it stands
alone (`Number.Legible`).
-/

namespace Wiretap.Json

open Wiretap.Number (isDigit_decimal digitValue_of_isDigit)

/-- What may stand behind a value: nothing, a comma, or the end of what holds the value. -/
def Follows (rest : List Char) : Prop := ∀ c ∈ rest.head?, c = ',' ∨ c = ']' ∨ c = '\x7d'

theorem follows_nil : Follows [] := nofun

theorem Follows.takeWhile_isDigit {rest : List Char} (h : Follows rest) :
    rest.takeWhile isDigit = [] := by
  cases rest with
  | nil => rfl
  | cons c rest =>
    refine List.takeWhile_cons_of_neg ?_
    rcases h c rfl with rfl | rfl | rfl <;> decide

theorem Follows.dropWhile_isDigit {rest : List Char} (h : Follows rest) :
    rest.dropWhile isDigit = rest := by
  have := List.takeWhile_append_dropWhile (p := isDigit) (l := rest)
  rwa [h.takeWhile_isDigit, List.nil_append] at this

theorem digitsOf_append (s : List Char) {rest : List Char} (h : Follows rest) :
    digitsOf (s ++ rest) = digitsOf s := by
  unfold digitsOf
  rw [List.takeWhile_append]
  split
  · rename_i hall
    rw [h.takeWhile_isDigit, List.append_nil, (List.takeWhile_prefix isDigit).eq_of_length hall]
  · rfl

theorem afterDigits_append (s : List Char) {rest : List Char} (h : Follows rest) :
    afterDigits (s ++ rest) = afterDigits s ++ rest := by
  unfold afterDigits
  rw [List.dropWhile_append]
  split
  · rename_i hnil
    rw [h.dropWhile_isDigit, List.isEmpty_iff.mp hnil, List.nil_append]
  · rfl

/-! ## What follows a numeral -/

/-- What is read of a text with more behind it. -/
def andRest {α : Type} (rest : List Char) (read : α × List Char) : α × List Char :=
  (read.1, read.2 ++ rest)

theorem exponent_of_unsigned {s : List Char} (hplus : s.head? ≠ some '+')
    (hminus : s.head? ≠ some '-') :
    exponent s = (Number.digits? 10 (digitsOf s)).map fun n => ((n : Int), afterDigits s) := by
  unfold exponent
  split
  rename_i negative t heq
  split at heq
  · exact absurd rfl hplus
  · exact absurd rfl hminus
  · cases heq
    rfl

theorem exponent_append (s : List Char) {rest : List Char} (h : Follows rest) :
    exponent (s ++ rest) = (exponent s).map (andRest rest) := by
  cases s with
  | nil =>
    have hhead (c : Char) (hc : c = '+' ∨ c = '-') : rest.head? ≠ some c := by
      intro heq
      rcases h c heq with rfl | rfl | rfl <;> revert hc <;> decide
    have hnone : digitsOf rest = [] := h.takeWhile_isDigit
    rw [List.nil_append, exponent_of_unsigned (hhead '+' (.inl rfl)) (hhead '-' (.inr rfl)), hnone]
    rfl
  | cons c s =>
    by_cases hplus : c = '+'
    · subst hplus
      simp only [List.cons_append, exponent, digitsOf_append s h, afterDigits_append s h,
        Option.map_map]
      rfl
    by_cases hminus : c = '-'
    · subst hminus
      simp only [List.cons_append, exponent, digitsOf_append s h, afterDigits_append s h,
        Option.map_map]
      rfl
    have hunsigned (t : List Char) := exponent_of_unsigned (s := c :: t)
      (fun heq => hplus (Option.some.inj heq)) fun heq => hminus (Option.some.inj heq)
    rw [List.cons_append, hunsigned, hunsigned, ← List.cons_append, digitsOf_append _ h,
      afterDigits_append _ h, Option.map_map]
    rfl

theorem withExponent_of_unmarked {negative : Bool} {significand : Nat} {power : Int}
    {s : List Char} (hlower : s.head? ≠ some 'e') (hupper : s.head? ≠ some 'E') :
    withExponent negative significand power s =
      (scaledDouble negative significand power).map fun n => (n, s) := by
  unfold withExponent
  simp only
  split
  · rename_i heq
    split at heq
    · exact absurd rfl hlower
    · exact absurd rfl hupper
    · cases heq
  · rfl

theorem withExponent_of_marked {negative : Bool} {significand : Nat} {power : Int} {c : Char}
    (hc : c = 'e' ∨ c = 'E') (s : List Char) :
    withExponent negative significand power (c :: s) =
      (exponent s).bind fun (e, rest) =>
        (scaledDouble negative significand (power + e)).map fun n => (n, rest) := by
  rcases hc with rfl | rfl <;> rfl

theorem Follows.head?_ne {rest : List Char} (h : Follows rest) {c : Char}
    (hc : c ≠ ',' ∧ c ≠ ']' ∧ c ≠ '\x7d') : rest.head? ≠ some c := by
  rintro heq
  rcases h c heq with rfl | rfl | rfl
  · exact hc.1 rfl
  · exact hc.2.1 rfl
  · exact hc.2.2 rfl

theorem withExponent_append (negative : Bool) (significand : Nat) (power : Int) (s : List Char)
    {rest : List Char} (h : Follows rest) :
    withExponent negative significand power (s ++ rest) =
      (withExponent negative significand power s).map (andRest rest) := by
  cases s with
  | nil =>
    rw [withExponent_of_unmarked (s := []) nofun nofun, List.nil_append,
      withExponent_of_unmarked (h.head?_ne (by decide)) (h.head?_ne (by decide)), Option.map_map]
    rfl
  | cons c s =>
    by_cases hc : c = 'e' ∨ c = 'E'
    · rw [List.cons_append, withExponent_of_marked hc, withExponent_of_marked hc,
        exponent_append s h]
      cases exponent s with
      | none => rfl
      | some read =>
        simp only [Option.map_some, Option.bind_some, andRest, Option.map_map]
        rfl
    · obtain ⟨hlower, hupper⟩ := not_or.mp hc
      have hunmarked (t : List Char) : withExponent negative significand power (c :: t) =
          (scaledDouble negative significand power).map fun n => (n, c :: t) :=
        withExponent_of_unmarked (fun heq => hlower (Option.some.inj heq))
          fun heq => hupper (Option.some.inj heq)
      rw [List.cons_append, hunmarked, hunmarked, Option.map_map]
      rfl

theorem unsignedNumeral_append (negative : Bool) (s : List Char) {rest : List Char}
    (h : Follows rest) :
    unsignedNumeral negative (s ++ rest) = (unsignedNumeral negative s).map (andRest rest) := by
  unfold unsignedNumeral
  simp only [digitsOf_append s h, afterDigits_append s h]
  split
  · rfl
  generalize absorb 0 0 (digitsOf s) = absorbed
  generalize (digitsOf s).length - absorbed.2 = dropped
  cases hafter : afterDigits s with
  | nil =>
    -- what follows is no part of the numeral, whatever it begins with
    have hend := withExponent_append negative absorbed.1 dropped [] h
    rw [List.nil_append] at hend ⊢
    simp only
    split
    · exact absurd rfl (h.head?_ne (c := '.') (by decide))
    · rename_i c _ hc
      have hlower := h.head?_ne (c := 'e') (by decide)
      have hupper := h.head?_ne (c := 'E') (by decide)
      simp only [List.head?_cons, ne_eq, Option.some.injEq] at hlower hupper
      simp only [hlower, hupper, false_or]
      split
      · exact hend
      · rfl
    · split
      · exact hend
      · rfl
  | cons c t =>
    have hend := withExponent_append negative absorbed.1 dropped (c :: t) h
    rw [List.cons_append] at hend ⊢
    by_cases hpoint : c = '.'
    · subst hpoint
      simp only [digitsOf_append t h, afterDigits_append t h, withExponent_append _ _ _ _ h]
      split <;> rfl
    · simp only
      split
      · exact hend
      · rfl

theorem numeral_of_unsigned {s : List Char} (hs : s.head? ≠ some '-') :
    numeral s = unsignedNumeral false s := by
  unfold numeral
  split
  · exact absurd rfl hs
  · rfl

/-- A numeral is read up to what follows it. -/
theorem numeral_append (s : List Char) {rest : List Char} (h : Follows rest) :
    numeral (s ++ rest) = (numeral s).map (andRest rest) := by
  cases s with
  | nil =>
    rw [List.nil_append, numeral_of_unsigned (h.head?_ne (by decide)), ← List.nil_append rest,
      unsignedNumeral_append false [] h]
    rfl
  | cons c s =>
    by_cases hminus : c = '-'
    · subst hminus
      exact unsignedNumeral_append true s h
    · have hhead (t : List Char) : (c :: t).head? ≠ some '-' := fun heq =>
        hminus (Option.some.inj heq)
      rw [List.cons_append, numeral_of_unsigned (hhead _), numeral_of_unsigned (hhead _),
        ← List.cons_append, unsignedNumeral_append false _ h]

/-! ## What a numeral leaves -/

theorem exponent_suffix {s rest : List Char} {e : Int} (h : exponent s = some (e, rest)) :
    rest <:+ s := by
  unfold exponent at h
  split at h
  rename_i negative t heq
  obtain ⟨n, -, hn⟩ := Option.map_eq_some_iff.mp h
  cases hn
  refine (List.dropWhile_suffix isDigit).trans ?_
  split at heq <;> cases heq
  · exact List.suffix_cons _ _
  · exact List.suffix_cons _ _
  · exact List.suffix_rfl

theorem withExponent_suffix {negative : Bool} {significand : Nat} {power : Int}
    {s rest : List Char} {n : Json.Number}
    (h : withExponent negative significand power s = some (n, rest)) : rest <:+ s := by
  unfold withExponent at h
  simp only at h
  split at h
  · rename_i t heq
    obtain ⟨⟨e, t'⟩, he, h⟩ := Option.bind_eq_some_iff.mp h
    obtain ⟨m, -, hm⟩ := Option.map_eq_some_iff.mp h
    cases hm
    refine (exponent_suffix he).trans ?_
    split at heq <;> cases heq <;> exact List.suffix_cons _ _
  · obtain ⟨m, -, hm⟩ := Option.map_eq_some_iff.mp h
    cases hm
    exact List.suffix_rfl

theorem unsignedNumeral_suffix {negative : Bool} {s rest : List Char} {n : Json.Number}
    (h : unsignedNumeral negative s = some (n, rest)) : rest <:+ s := by
  have hafter : afterDigits s <:+ s := List.dropWhile_suffix isDigit
  unfold unsignedNumeral at h
  simp only at h
  split at h
  · cases h
  split at h
  · rename_i t heq
    split at h
    · cases h
    · have hdigits : afterDigits t <:+ t := List.dropWhile_suffix isDigit
      exact ((withExponent_suffix h).trans hdigits).trans
        ((List.suffix_cons _ _).trans (heq ▸ hafter))
  · split at h
    · exact (withExponent_suffix h).trans hafter
    · cases h
      exact hafter
  · split at h
    · exact (withExponent_suffix h).trans hafter
    · cases h
      exact hafter

theorem numeral_suffix {s rest : List Char} {n : Json.Number} (h : numeral s = some (n, rest)) :
    rest <:+ s := by
  unfold numeral at h
  split at h
  · exact (unsignedNumeral_suffix h).trans (List.suffix_cons _ _)
  · exact unsignedNumeral_suffix h

/-! ## Whole numbers -/

theorem isDigit_iff {c : Char} : isDigit c = true ↔ c.isDigit = true := by
  unfold isDigit
  rw [Char.isDigit_iff_toNat]
  simp [Char.le_def, UInt32.le_iff_toNat_le]

theorem le_ofDigitChars (cs : List Char) (init : Nat) : init ≤ Nat.ofDigitChars 10 cs init := by
  induction cs generalizing init with
  | nil => exact Nat.le_refl _
  | cons c cs ih =>
    rw [Nat.ofDigitChars_cons]
    have := ih (10 * init + (c.toNat - '0'.toNat))
    omega

theorem absorb_of_fits {cs : List Char} (hdigits : ∀ c ∈ cs, c.isDigit = true) {value : Nat}
    (hfits : Nat.ofDigitChars 10 cs value ≤ Number.word64) (taken : Nat) :
    absorb value taken cs = (Nat.ofDigitChars 10 cs value, taken + cs.length) := by
  induction cs generalizing value taken with
  | nil => rfl
  | cons c cs ih =>
    have hnext : value * 10 + Number.digitValue c = 10 * value + (c.toNat - '0'.toNat) := by
      rw [digitValue_of_isDigit (hdigits c List.mem_cons_self), Nat.mul_comm]
    rw [Nat.ofDigitChars_cons] at hfits ⊢
    rw [absorb]
    simp only [hnext]
    rw [if_pos ((le_ofDigitChars cs _).trans hfits),
      ih (fun c' hc' => hdigits c' (List.mem_cons_of_mem c hc')) hfits, List.length_cons,
      Nat.add_assoc, Nat.add_comm 1]

theorem absorb_le (cs : List Char) {value : Nat} (h : value ≤ Number.word64) (taken : Nat) :
    (absorb value taken cs).1 ≤ Number.word64 := by
  induction cs generalizing value taken with
  | nil => exact h
  | cons c cs ih =>
    unfold absorb
    simp only
    split
    · exact ih ‹_› _
    · exact h

theorem head?_decimal_ne {n : Nat} (h : 0 < n) : (Number.decimal n).head? ≠ some '0' := by
  unfold Number.decimal
  induction n using Nat.strongRecOn with
  | ind n ih =>
    rw [Nat.toDigits_eq_if (by decide)]
    split
    · rw [List.head?_cons, ne_eq, Option.some.injEq, Nat.digitChar_eq_zero]
      omega
    · rw [List.head?_append, Option.or_of_isSome (List.isSome_head?.mpr Nat.toDigits_ne_nil)]
      exact ih (n / 10) (by omega) (by omega)

theorem unsignedNumeral_decimal (negative : Bool) {n : Nat} (h : n ≤ Number.word64) :
    unsignedNumeral negative (Number.decimal n) = some (whole negative n, []) := by
  have hdigits : ∀ c ∈ Number.decimal n, isDigit c = true := fun c hc =>
    isDigit_iff.mpr (isDigit_decimal hc)
  have hall : digitsOf (Number.decimal n) = Number.decimal n :=
    List.takeWhile_eq_self_iff.mpr hdigits
  have hnone : afterDigits (Number.decimal n) = [] := List.dropWhile_eq_nil_iff.mpr hdigits
  have hvalue : Nat.ofDigitChars 10 (Number.decimal n) 0 = n := Nat.ofDigitChars_ten_toDigits
  have hne : (Number.decimal n).isEmpty = false := by
    rw [List.isEmpty_eq_false_iff]
    exact Nat.toDigits_ne_nil
  have hzero : ((Number.decimal n).head? == some '0' && 1 < (Number.decimal n).length) = false := by
    rcases Nat.eq_zero_or_pos n with rfl | hpos
    · rfl
    · rw [beq_false_of_ne (head?_decimal_ne hpos), Bool.false_and]
  unfold unsignedNumeral
  simp only [hall, hnone, hne, hzero, Bool.false_or, Bool.false_eq_true, if_false,
    absorb_of_fits (fun c hc => isDigit_decimal hc) (hvalue.symm ▸ h), hvalue]
  simp

/-- A whole number that fits 64 bits, with or without a sign. -/
def Fits (n : Int) : Prop := -0x8000000000000000 ≤ n ∧ n ≤ Number.word64

instance (n : Int) : Decidable (Fits n) := inferInstanceAs (Decidable (_ ∧ _))

/-- Whole numbers are read back from their digits. -/
theorem numeral_int {n : Int} (h : Fits n) :
    numeral (Number.int n).chars = some (.int n, []) := by
  unfold Json.Number.chars
  obtain ⟨hlow, hhigh⟩ := h
  unfold Number.word64 at hhigh
  by_cases hneg : n < 0
  · simp only [hneg, if_true]
    rw [numeral, unsignedNumeral_decimal true (by unfold Number.word64; omega)]
    unfold whole
    rw [if_neg (by decide), if_neg (by omega)]
    simp only [Option.some.injEq, Prod.mk.injEq, Json.Number.int.injEq, and_true]
    omega
  · simp only [hneg, if_false]
    have hhead : (Number.decimal n.natAbs).head? ≠ some '-' := fun heq =>
      absurd (isDigit_decimal (List.mem_of_mem_head? heq)) (by decide)
    rw [numeral_of_unsigned hhead, unsignedNumeral_decimal false (by unfold Number.word64; omega)]
    unfold whole
    rw [if_pos (by decide)]
    simp only [Option.some.injEq, Prod.mk.injEq, Json.Number.int.injEq, and_true]
    omega

/-! ## What numbers are written with -/

/-- A character of a numeral. -/
def isNumeralChar (c : Char) : Bool :=
  c.isDigit || c == '-' || c == '+' || c == '.' || c == 'e'

theorem isNumeralChar_decimal {n : Nat} {c : Char} (hc : c ∈ Number.decimal n) :
    isNumeralChar c = true := by
  unfold isNumeralChar
  rw [isDigit_decimal hc]
  rfl

theorem isNumeralChar_zeros {n : Nat} {c : Char} (hc : c ∈ Number.Double.zeros n) :
    isNumeralChar c = true := by
  rw [(List.mem_replicate.mp hc).2]
  decide

theorem isNumeralChar_written {digits : List Char}
    (hdigits : ∀ c ∈ digits, isNumeralChar c = true) (point : Int) :
    ∀ c ∈ Number.Double.written digits point, isNumeralChar c = true := by
  have hrest : ∀ n, ∀ c ∈ digits.drop n, isNumeralChar c = true := fun n c hc =>
    hdigits c (List.mem_of_mem_drop hc)
  have hfront : ∀ n, ∀ c ∈ digits.take n, isNumeralChar c = true := fun n c hc =>
    hdigits c (List.mem_of_mem_take hc)
  unfold Number.Double.written
  simp only
  split
  · simp only [List.forall_mem_append, List.forall_mem_cons]
    refine ⟨⟨hfront _, fun c => isNumeralChar_zeros⟩, by decide, ?_⟩
    split
    · exact List.all_eq_true.mp rfl
    · exact hrest _
  split
  · simp only [List.cons_append, List.forall_mem_append, List.forall_mem_cons]
    exact ⟨by decide, by decide, fun c => isNumeralChar_zeros, hdigits⟩
  · simp only [List.forall_mem_append, List.forall_mem_cons]
    refine ⟨⟨hfront _, ?_⟩, by decide, ?_, fun c => isNumeralChar_decimal⟩
    · split
      · exact nofun
      · exact List.forall_mem_cons.mpr ⟨by decide, hrest _⟩
    · split <;> decide

theorem isNumeralChar_chars (n : Json.Number) : ∀ c ∈ n.chars, isNumeralChar c = true := by
  cases n with
  | int n =>
    unfold Json.Number.chars
    simp only
    split
    · exact List.forall_mem_cons.mpr ⟨by decide, fun c => isNumeralChar_decimal⟩
    · exact fun c => isNumeralChar_decimal
  | double x =>
    have htrim : ∀ n, ∀ c ∈ Number.Double.trimZeros (Number.decimal n), isNumeralChar c = true := by
      intro n c hc
      have := (List.dropWhile_suffix _).subset (List.mem_reverse.mp hc)
      exact isNumeralChar_decimal (List.mem_reverse.mp this)
    have hsign : ∀ c ∈ (if x.negative then ['-'] else []), isNumeralChar c = true := by
      split <;> exact List.all_eq_true.mp rfl
    unfold Json.Number.chars Number.Double.chars
    simp only
    split
    · exact List.forall_mem_append.mpr ⟨hsign, List.all_eq_true.mp rfl⟩
    · exact List.forall_mem_append.mpr ⟨hsign, isNumeralChar_written (htrim _) _⟩

end Wiretap.Json
