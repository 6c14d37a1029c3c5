import Mathlib.Algebra.Group.Nat.Defs
import Wiretap.Number.Digits

/-!
# Numbers are read back

The digits of a number give that number again, up to the limit of what reads them
(`unsigned?_decimal`).
-/

namespace Wiretap.Number

theorem isDigit_decimal {n : Nat} {c : Char} (hc : c ∈ decimal n) : c.isDigit = true :=
  Nat.isDigit_of_mem_toDigits (by decide) (by decide) hc

theorem digitValue_of_isDigit {c : Char} (h : c.isDigit = true) :
    digitValue c = c.toNat - '0'.toNat := by
  rw [Char.isDigit_iff_toNat] at h
  exact if_pos h

theorem digit_le {c : Char} (h : c.isDigit = true) : c.toNat - '0'.toNat ≤ 9 := by
  rw [Char.isDigit_iff_toNat] at h
  have hnine : '9'.toNat - '0'.toNat = 9 := rfl
  omega

theorem ofDigitChars_lt {cs : List Char} (h : ∀ c ∈ cs, c.isDigit = true) :
    Nat.ofDigitChars 10 cs 0 < 10 ^ cs.length := by
  induction cs with
  | nil => decide
  | cons c cs ih =>
    rw [List.forall_mem_cons] at h
    rw [Nat.ofDigitChars_cons, Nat.ofDigitChars_eq_ofDigitChars_zero, List.length_cons,
      Nat.pow_succ, Nat.mul_zero, Nat.zero_add]
    have hfirst := Nat.mul_le_mul_left (10 ^ cs.length) (digit_le h.1)
    have hrest := ih h.2
    omega

theorem digitsFrom_of_isDigit {cs : List Char} (h : ∀ c ∈ cs, c.isDigit = true) (value : Nat) :
    digitsFrom 10 value cs = some (Nat.ofDigitChars 10 cs value) := by
  induction cs generalizing value with
  | nil => rfl
  | cons c cs ih =>
    rw [List.forall_mem_cons] at h
    have hdigit : digit? 10 c = some (c.toNat - '0'.toNat) := by
      rw [digit?, digitValue_of_isDigit h.1, if_pos (Nat.lt_succ_of_le (digit_le h.1))]
    rw [digitsFrom, hdigit, Nat.ofDigitChars_cons, Nat.mul_comm 10]
    exact ih h.2 _

theorem digits?_of_isDigit {cs : List Char} (hne : cs ≠ [])
    (h : ∀ c ∈ cs, c.isDigit = true) : digits? 10 cs = some (Nat.ofDigitChars 10 cs 0) := by
  cases cs with
  | nil => exact absurd rfl hne
  | cons c cs => exact digitsFrom_of_isDigit h 0

theorem digits?_decimal (n : Nat) : digits? 10 (decimal n) = some n :=
  (digits?_of_isDigit Nat.toDigits_ne_nil fun _ => isDigit_decimal).trans
    (congrArg some Nat.ofDigitChars_ten_toDigits)

theorem unsigned?_decimal {n limit : Nat} (h : n ≤ limit) :
    unsigned? 10 limit (decimal n) = some n := by
  unfold unsigned?
  split
  · -- no digit is a plus sign
    rename_i rest heq
    have hplus : '+' ∈ decimal n := heq ▸ List.mem_cons_self
    exact absurd (isDigit_decimal hplus) (by decide)
  · simp only [digits?_decimal, if_pos h]

theorem unsigned?_le {base limit n : Nat} {cs : List Char} (h : unsigned? base limit cs = some n) :
    n ≤ limit := by
  unfold unsigned? at h
  simp only at h
  split at h
  · split at h
    · rename_i hle
      cases h
      exact hle
    · cases h
  · cases h

theorem notMem_of_digitsFrom {base value n : Nat} {cs : List Char} {c : Char}
    (hc : digit? base c = none) (h : digitsFrom base value cs = some n) : c ∉ cs := by
  induction cs generalizing value with
  | nil => exact List.not_mem_nil
  | cons d cs ih =>
    rw [digitsFrom] at h
    split at h
    · rename_i hd
      rw [List.mem_cons, not_or]
      refine ⟨?_, ih h⟩
      rintro rfl
      rw [hc] at hd
      cases hd
    · cases h

/-- A numeral holds digits and the plus sign only. -/
theorem notMem_of_unsigned? {base limit n : Nat} {cs : List Char} {c : Char}
    (hc : digit? base c = none) (hplus : c ≠ '+') (h : unsigned? base limit cs = some n) :
    c ∉ cs := by
  have hdigits {cs : List Char} (h : ∃ m, digits? base cs = some m) : c ∉ cs := by
    obtain ⟨m, hm⟩ := h
    cases cs with
    | nil => exact List.not_mem_nil
    | cons d cs => exact notMem_of_digitsFrom hc hm
  unfold unsigned? at h
  simp only at h
  split at h
  · rename_i hm
    split at hm
    · rw [List.mem_cons, not_or]
      exact ⟨hplus, hdigits ⟨_, hm⟩⟩
    · exact hdigits ⟨_, hm⟩
  · cases h

end Wiretap.Number
