import Wiretap.Proofs.Json.Printed
import Wiretap.Proofs.Number.Decimals

/-!
# The text of a double is a numeral

In the text of every finite double a number is read (`accepted_of_finite`), though not always the
same one: the digits are read as a whole number, and its product or quotient with a power of ten is
rounded once more.
-/

namespace Wiretap.Json

open Wiretap.Number (word64 decimal isDigit_decimal ofDigitChars_lt)
open Wiretap.Number.Double (zeros trimZeros written up down one bound)

/-! ## Numerals with a point -/

theorem digits_stop {digits rest : List Char} (hdigits : ∀ c ∈ digits, c.isDigit = true)
    (hrest : ∀ c ∈ rest.head?, isDigit c = false) :
    digitsOf (digits ++ rest) = digits ∧ afterDigits (digits ++ rest) = rest := by
  have hall : ∀ c ∈ digits, isDigit c = true := fun c hc => isDigit_iff.mpr (hdigits c hc)
  unfold digitsOf afterDigits
  rw [List.takeWhile_append_of_pos hall, List.dropWhile_append_of_pos hall]
  cases rest with
  | nil => simp
  | cons c rest =>
    have hc : ¬ isDigit c = true := by simp [hrest c rfl]
    rw [List.takeWhile_cons_of_neg hc, List.dropWhile_cons_of_neg hc, List.append_nil]
    exact ⟨rfl, rfl⟩

/-- Digits that a numeral may begin with. -/
structure Leading (digits : List Char) : Prop where
  digit : ∀ c ∈ digits, c.isDigit = true
  ne_nil : digits ≠ []
  zero : digits = ['0'] ∨ digits.head? ≠ some '0'
  fits : Nat.ofDigitChars 10 digits 0 ≤ word64

section

variable {digits : List Char} (h : Leading digits) (negative : Bool)

include h

theorem Leading.starts : (digits.isEmpty || (digits.head? == some '0' && 1 < digits.length)) =
    false := by
  have hne := List.isEmpty_eq_false_iff.mpr h.ne_nil
  rcases h.zero with rfl | hzero
  · rfl
  · rw [hne, beq_false_of_ne hzero]
    rfl

/-- Digits with an exponent behind them. -/
theorem Leading.unsignedNumeral_exponent (rest : List Char) :
    unsignedNumeral negative (digits ++ 'e' :: rest) =
      withExponent negative (Nat.ofDigitChars 10 digits 0) 0 ('e' :: rest) := by
  obtain ⟨hdigits, hafter⟩ := @digits_stop digits ('e' :: rest) h.digit (by rintro _ ⟨⟩; rfl)
  unfold unsignedNumeral
  simp only [hdigits, hafter, h.starts, absorb_of_fits h.digit h.fits]
  simp

/-- Digits with a point and further digits behind them. -/
theorem Leading.unsignedNumeral_fraction {fraction rest : List Char}
    (hfraction : ∀ c ∈ fraction, c.isDigit = true) (hne : fraction ≠ [])
    (hrest : ∀ c ∈ rest.head?, isDigit c = false) :
    unsignedNumeral negative (digits ++ '.' :: (fraction ++ rest)) =
      withExponent negative (absorb (Nat.ofDigitChars 10 digits 0) 0 fraction).1
        (-(absorb (Nat.ofDigitChars 10 digits 0) 0 fraction).2) rest := by
  obtain ⟨hdigits, hafter⟩ :=
    @digits_stop digits ('.' :: (fraction ++ rest)) h.digit (by rintro _ ⟨⟩; rfl)
  obtain ⟨hdigits', hafter'⟩ := digits_stop hfraction hrest
  unfold unsignedNumeral
  simp only [hdigits, hafter, h.starts, absorb_of_fits h.digit h.fits, hdigits', hafter',
    List.isEmpty_eq_false_iff.mpr hne]
  simp

end

/-! ## Exponents -/

theorem exponent_decimal (n : Nat) {c : Char} (hc : c = '+' ∨ c = '-') :
    exponent (c :: decimal n) = some (if c = '-' then -(n : Int) else n, []) := by
  have hall : ∀ c ∈ decimal n, c.isDigit = true := fun c => isDigit_decimal
  have hread := @digits_stop _ [] hall nofun
  rw [List.append_nil] at hread
  unfold exponent
  rcases hc with rfl | rfl <;> simp only [hread, Number.digits?_decimal] <;> rfl

theorem exponent_signed (e : Int) :
    exponent ((if e < 0 then '-' else '+') :: decimal e.natAbs) = some (e, []) := by
  split
  · rw [exponent_decimal _ (.inr rfl), if_pos rfl]
    congr 2
    omega
  · rw [exponent_decimal _ (.inl rfl), if_neg (by decide)]
    congr 2
    omega

/-! ## Texts of decimals -/

theorem isSome_scaled_of_nonpos {significand : Nat} (h : significand ≤ word64) {e : Int}
    (he : e ≤ 0) : (Number.Double.scaled significand e).isSome := by
  refine Number.Double.isSome_scaled h fun hnonneg => ?_
  have hone : word64 * one ≤ bound := by decide +kernel
  rw [show e.natAbs = 0 by omega, Nat.pow_eq, Nat.pow_zero, Nat.mul_one]
  exact (Nat.mul_le_mul_right one h).trans hone

theorem withExponent_plain {negative : Bool} {significand : Nat} {power : Int}
    (h : (Number.Double.scaled significand power).isSome) :
    ∃ n, withExponent negative significand power [] = some (n, []) := by
  obtain ⟨units, hunits⟩ := Option.isSome_iff_exists.mp h
  rw [withExponent_of_unmarked (s := []) nofun nofun, scaledDouble, hunits]
  exact ⟨_, rfl⟩

theorem withExponent_signed {negative : Bool} {significand : Nat} {power : Int} (e : Int)
    (h : (Number.Double.scaled significand (power + e)).isSome) :
    ∃ n, withExponent negative significand power
      ('e' :: (if e < 0 then '-' else '+') :: decimal e.natAbs) = some (n, []) := by
  obtain ⟨units, hunits⟩ := Option.isSome_iff_exists.mp h
  rw [withExponent_of_marked (.inl rfl), exponent_signed]
  simp only [Option.bind_some, scaledDouble, hunits, Option.map_some]
  exact ⟨_, rfl⟩

theorem isDigit_zeros {n : Nat} : ∀ c ∈ zeros n, c.isDigit = true := fun c hc => by
  rw [(List.mem_replicate.mp hc).2]
  rfl

/-- A fraction is read as a whole number that is divided, and that is never too large. -/
theorem Leading.accepted_fraction {digits fraction : List Char} (h : Leading digits)
    (hfraction : ∀ c ∈ fraction, c.isDigit = true) (hne : fraction ≠ []) (negative : Bool) :
    ∃ n, unsignedNumeral negative (digits ++ '.' :: fraction) = some (n, []) := by
  have hread := @Leading.unsignedNumeral_fraction digits h negative fraction [] hfraction hne nofun
  rw [List.append_nil] at hread
  rw [hread]
  exact withExponent_plain (isSome_scaled_of_nonpos (absorb_le fraction h.fits 0) (by omega))

section

variable {digits : List Char} (hdigits : ∀ c ∈ digits, c.isDigit = true) (hne : digits ≠ [])
  (hzero : digits.head? ≠ some '0') (hfits : Nat.ofDigitChars 10 digits 0 ≤ word64)

include hdigits hne hzero

/-- The digits in front of the point. -/
theorem leading_whole {point : Nat} (hpos : 0 < point) (hpoint : point ≤ 16) :
    Leading (digits.take point ++ zeros (point - (digits.take point).length)) := by
  have hall : ∀ c ∈ digits.take point ++ zeros (point - (digits.take point).length),
      c.isDigit = true := List.forall_mem_append.mpr
    ⟨fun c hc => hdigits c (List.mem_of_mem_take hc), isDigit_zeros⟩
  have hlength : (digits.take point ++ zeros (point - (digits.take point).length)).length =
      point := by
    rw [List.length_append, zeros, List.length_replicate]
    exact Nat.add_sub_cancel' (List.length_take_le _ _)
  have hfits := ofDigitChars_lt hall
  have hpow : 10 ^ point ≤ 10 ^ 16 := Nat.pow_le_pow_right (by decide) hpoint
  rw [hlength] at hfits
  obtain ⟨d, rest, rfl⟩ := List.exists_cons_of_ne_nil hne
  obtain ⟨p, rfl⟩ := Nat.exists_eq_succ_of_ne_zero hpos.ne'
  exact ⟨hall, by simp, .inr (by simpa using hzero), by unfold word64; omega⟩

include hfits

/-- What is written is read, if it is not too large. -/
theorem unsignedNumeral_written {point : Int}
    (hscaled : (Number.Double.scaled (Nat.ofDigitChars 10 digits 0)
      (point - digits.length)).isSome) (negative : Bool) :
    ∃ n, unsignedNumeral negative (written digits point) = some (n, []) := by
  unfold written
  simp only
  split
  · rename_i hpoint
    refine (leading_whole hdigits hne hzero (by omega) (by omega)).accepted_fraction ?_ ?_ negative
    · split
      · exact List.forall_mem_singleton.mpr rfl
      · exact fun c hc => hdigits c (List.mem_of_mem_drop hc)
    · split
      · decide
      · rename_i hrest
        exact fun hnil => hrest (by rw [hnil]; rfl)
  split
  · have hstart : Leading ['0'] :=
      ⟨List.forall_mem_singleton.mpr rfl, by decide, .inl rfl, by decide⟩
    refine hstart.accepted_fraction (List.forall_mem_append.mpr ⟨isDigit_zeros, hdigits⟩) ?_ negative
    simp [hne]
  obtain ⟨d, rest, rfl⟩ := List.exists_cons_of_ne_nil hne
  rw [List.forall_mem_cons] at hdigits
  have hfirst : ∀ c ∈ [d], c.isDigit = true := by simpa using hdigits.1
  have hstart : Leading [d] :=
    ⟨hfirst, by simp, .inr (by simpa using hzero),
      (ofDigitChars_lt hfirst).le.trans (show 10 ^ 1 ≤ word64 by decide)⟩
  rw [List.length_cons, Nat.cast_succ] at hscaled
  split
  · rename_i hsingle
    obtain rfl : rest = [] := by simpa using hsingle
    have hread := hstart.unsignedNumeral_exponent negative
      ((if point - 1 < 0 then '-' else '+') :: decimal (point - 1).natAbs)
    rw [List.take_succ_cons, List.take_zero, List.append_nil, hread]
    exact withExponent_signed _ (by simpa using hscaled)
  · rename_i hmore
    have hread := @Leading.unsignedNumeral_fraction [d] hstart negative rest
      ('e' :: (if point - 1 < 0 then '-' else '+') :: decimal (point - 1).natAbs)
      hdigits.2 (by rintro rfl; simp at hmore) (by rintro _ ⟨⟩; rfl)
    have hfits' : Nat.ofDigitChars 10 rest (Nat.ofDigitChars 10 [d] 0) ≤ word64 := hfits
    rw [absorb_of_fits hdigits.2 hfits', Nat.zero_add] at hread
    have hpower : -(rest.length : Int) + (point - 1) = point - (rest.length + 1) := by omega
    obtain ⟨n, hn⟩ := withExponent_signed (point - 1) (hpower ▸ hscaled)
    rw [List.take_succ_cons, List.take_zero, List.drop_succ_cons, List.drop_zero, List.append_assoc]
    exact ⟨n, hread.trans hn⟩

end

/-! ## Texts of doubles -/

theorem exists_trimZeros (digits : List Char) : ∃ n, digits = trimZeros digits ++ zeros n := by
  refine ⟨(digits.reverse.takeWhile (· == '0')).length, ?_⟩
  have hzeros : digits.reverse.takeWhile (· == '0') =
      zeros (digits.reverse.takeWhile (· == '0')).length := by
    refine List.eq_replicate_of_mem fun c hc => ?_
    simpa using List.mem_takeWhile_imp hc
  have hsplit := congrArg List.reverse (List.takeWhile_append_dropWhile (p := (· == '0'))
    (l := digits.reverse))
  rw [hzeros, List.reverse_append, List.reverse_reverse, zeros, List.reverse_replicate] at hsplit
  exact hsplit.symm

theorem numeral_signed {negative : Bool} {s : List Char} {read : Json.Number × List Char}
    (h : unsignedNumeral negative s = some read) :
    numeral ((if negative then ['-'] else []) ++ s) = some read := by
  cases negative with
  | true => exact h
  | false =>
    refine (numeral_of_unsigned fun hminus => ?_).trans h
    obtain ⟨rest, rfl⟩ := List.head?_eq_some_iff.mp hminus
    cases h

theorem Number.accepted_iff {n : Json.Number} :
    n.Accepted ↔ ∃ m, numeral n.chars = some (m, []) := by
  constructor
  · exact fun h => ⟨_, h⟩
  · rintro ⟨m, hm⟩
    rw [Accepted, reread, hm]
    rfl

theorem accepted_largest (negative : Bool) :
    (Number.double ⟨negative, Number.Double.largest⟩).Accepted := by
  rw [Number.accepted_iff]
  have hread : (numeral (Number.double ⟨negative, Number.Double.largest⟩).chars).map Prod.snd =
      some [] := by
    cases negative <;> decide +kernel
  obtain ⟨⟨n, rest⟩, hn, hrest⟩ := Option.map_eq_some_iff.mp hread
  cases hrest
  exact ⟨n, hn⟩

/-- The digits of the shortest decimal and its exponent make up a product that is not too large. -/
theorem isSome_scaled_shortest {x : Number.Double} (h : x.Finite)
    (hlargest : x.units ≠ Number.Double.largest) {significand z : Nat} {e : Int}
    (hfits : significand * 10 ^ z ≤ 10 ^ 18 + 1)
    (hcovers : Number.Double.covers x.units (significand * 10 ^ z * (one * up e)) (down e) = true) :
    (Number.Double.scaled significand (z + e)).isSome := by
  have hle : significand ≤ significand * 10 ^ z :=
    Nat.le_mul_of_pos_right _ (Nat.pow_pos (by decide))
  refine Number.Double.isSome_scaled (hle.trans (hfits.trans (by decide))) fun hexponent => ?_
  rcases Int.lt_or_le e 0 with he | he
  · have hpow : 10 ^ (z + e).natAbs ≤ 10 ^ z := Nat.pow_le_pow_right (by decide) (by omega)
    have hsmall : (10 ^ 18 + 1) * one ≤ bound := by decide +kernel
    calc significand * (one * 10 ^ (z + e).natAbs)
        ≤ significand * (one * 10 ^ z) :=
          Nat.mul_le_mul_left _ (Nat.mul_le_mul_left _ hpow)
      _ = significand * 10 ^ z * one := by ring
      _ ≤ (10 ^ 18 + 1) * one := Nat.mul_le_mul_right _ hfits
      _ ≤ bound := hsmall
  · have hpow : 10 ^ (z + e).natAbs = 10 ^ z * 10 ^ e.natAbs := by
      rw [← Nat.pow_add]
      congr 1
      omega
    have hbound := Number.Double.shortest_le_bound h hlargest hcovers he
    calc significand * (one * 10 ^ (z + e).natAbs)
        = significand * 10 ^ z * (one * 10 ^ e.natAbs) := by rw [hpow]; ring
      _ ≤ bound := hbound

/-- The text of a finite double is a numeral. -/
theorem accepted_of_finite {x : Number.Double} (h : x.Finite) : (Number.double x).Accepted := by
  by_cases hlargest : x.units = Number.Double.largest
  · have hx : x = ⟨x.negative, Number.Double.largest⟩ := by rw [← hlargest]
    rw [hx]
    exact accepted_largest x.negative
  rw [Number.accepted_iff, Number.chars, Number.Double.chars]
  simp only
  split
  · cases x.negative <;> exact ⟨_, rfl⟩
  rename_i hzero
  obtain ⟨n, e, hshortest, hn, hfits, hcovers⟩ :=
    Number.Double.shortest_spec (Nat.pos_of_ne_zero hzero)
  rw [hshortest]
  obtain ⟨z, hz⟩ := exists_trimZeros (decimal n)
  generalize trimZeros (decimal n) = digits at hz ⊢
  -- the digits without the zeros at their end stand for the decimal without a power of ten
  have hall : ∀ c ∈ digits, c.isDigit = true := fun c hc =>
    isDigit_decimal (n := n) (hz ▸ List.mem_append_left _ hc)
  have hvalue : Nat.ofDigitChars 10 digits 0 * 10 ^ z = n := by
    have hdecimal : Nat.ofDigitChars 10 (decimal n) 0 = n := Nat.ofDigitChars_ten_toDigits
    rw [hz, Nat.ofDigitChars_append, zeros, Nat.ofDigitChars_replicate_zero, Nat.mul_comm] at hdecimal
    exact hdecimal
  rw [← hvalue] at hfits hcovers
  have hne : digits ≠ [] := by
    rintro rfl
    rw [← hvalue, Nat.ofDigitChars_nil, Nat.zero_mul] at hn
    exact absurd hn (Nat.lt_irrefl 0)
  have hhead : digits.head? ≠ some '0' := by
    have := head?_decimal_ne hn
    rwa [hz, List.head?_append, Option.or_of_isSome (List.isSome_head?.mpr hne)] at this
  have hle : Nat.ofDigitChars 10 digits 0 ≤ word64 :=
    (Nat.le_mul_of_pos_right _ (Nat.pow_pos (by decide))).trans (hfits.trans (by decide))
  have hpoint : ((decimal n).length + e : Int) - digits.length = z + e := by
    rw [hz, List.length_append, zeros, List.length_replicate]
    omega
  obtain ⟨m, hm⟩ := unsignedNumeral_written hall hne hhead hle
    (by rw [hpoint]; exact isSome_scaled_shortest h hlargest hfits hcovers) x.negative
  exact ⟨m, numeral_signed hm⟩

/-- A whole number within 64 bits, or a finite double. -/
def Number.Valid : Json.Number → Prop
  | .int n => Fits n
  | .double x => x.Finite

instance : DecidablePred Number.Valid
  | .int n => inferInstanceAs (Decidable (Fits n))
  | .double x => inferInstanceAs (Decidable x.Finite)

theorem Number.Valid.accepted {n : Json.Number} (h : n.Valid) : n.Accepted := by
  cases n with
  | int n => exact Number.Legible.accepted (n := .int n) h
  | double x => exact accepted_of_finite h

end Wiretap.Json
