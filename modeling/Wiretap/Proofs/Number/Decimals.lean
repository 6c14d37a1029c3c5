import Mathlib.Tactic.Ring
import Wiretap.Number.Shortest
import Wiretap.Proofs.Number.Rounding

/-!
# The shortest decimal is near

Every positive magnitude has a decimal of no more than eighteen digits that rounds to it, so the
shortest one is found before the search ends (`shortest_spec`). That of a finite double which is
not the largest stays below the reals that round to the largest one (`shortest_le_bound`).
-/

namespace Wiretap.Number.Double

/-- A double that is a number: its magnitude is a point of its grid and not too large. -/
def Finite (x : Double) : Prop := x.units < overflow ∧ x.units % grid x.units = 0

instance (x : Double) : Decidable x.Finite := inferInstanceAs (Decidable (_ ∧ _))

/-! ## Intervals -/

theorem le_of_covers {units num den : Nat} (h : covers units num den = true) :
    4 * num ≤ highEnd units * den := by
  unfold covers at h
  split at h <;> simp at h <;> omega

theorem covers_of_lt {units num den : Nat} (hlow : lowEnd units * den < 4 * num)
    (hhigh : 4 * num < highEnd units * den) : covers units num den = true := by
  unfold covers
  split <;> simp <;> omega

/-- The interval around a magnitude reaches down by at least a 2^54th part of it. -/
theorem lowEnd_gap {units : Nat} (h : 0 < units) :
    ∃ gap, lowEnd units + gap = 4 * units ∧ units ≤ gap * 2 ^ 52 := by
  have hlow := Nat.log2_self_le h.ne'
  have hhigh := Nat.lt_log2_self (n := units)
  unfold lowEnd grid
  simp only [Nat.pow_eq]
  split
  · rename_i hpow
    have hlog : 52 ≤ units.log2 := by
      by_contra hlt
      rw [Nat.sub_eq_zero_of_le (by omega)] at hpow
      exact absurd hpow.1 (by decide)
    have hstep : 2 ^ (units.log2 - 52) * 2 ^ 52 = units := by
      rw [← Nat.pow_add, Nat.sub_add_cancel hlog]
      exact hpow.2.symm
    exact ⟨2 ^ (units.log2 - 52), by omega, by omega⟩
  · have hstep : units < 2 ^ (units.log2 - 52) * 2 ^ 53 := by
      rw [← Nat.pow_add]
      exact hhigh.trans_le (Nat.pow_le_pow_right (by decide) (by omega))
    have hle : 2 ^ (units.log2 - 52) ≤ units :=
      (Nat.pow_le_pow_right (by decide) (Nat.sub_le _ _)).trans hlow
    exact ⟨2 * 2 ^ (units.log2 - 52), by omega, by omega⟩

/-! ## Decimals of an exponent -/

/-- The power of ten in an exponent that is not negative. -/
def up (exponent : Int) : Nat := Nat.pow 10 exponent.toNat

/-- The power of ten in an exponent that is not positive. -/
def down (exponent : Int) : Nat := Nat.pow 10 (-exponent).toNat

theorem up_pos (e : Int) : 0 < up e := Nat.pow_pos (by decide)

theorem down_pos (e : Int) : 0 < down e := Nat.pow_pos (by decide)

theorem powers_of_nonneg {e : Int} (h : 0 ≤ e) : up e = Nat.pow 10 e.natAbs ∧ down e = 1 := by
  unfold up down
  rw [show e.toNat = e.natAbs by omega, show (-e).toNat = 0 by omega]
  exact ⟨rfl, rfl⟩

theorem powers_of_neg {e : Int} (h : ¬ 0 ≤ e) : up e = 1 ∧ down e = Nat.pow 10 e.natAbs := by
  unfold up down
  rw [show e.toNat = 0 by omega, show (-e).toNat = e.natAbs by omega]
  exact ⟨rfl, rfl⟩

theorem up_mul_down {e e' : Int} (h : e ≤ e') :
    up e' * down e = 10 ^ (e' - e).toNat * (up e * down e') := by
  simp only [up, down, Nat.pow_eq, ← Nat.pow_add]
  congr 1
  omega

/-- How often a decimal's last digit goes into a magnitude. -/
def steps (units : Nat) (e : Int) : Nat := units * down e / (one * up e)

/-- A decimal is found at an exponent if and only if one of the two next to the magnitude rounds to
it, and only such a one is. -/
theorem decimalAt_cases (units : Nat) (e : Int) :
    (∃ digits, decimalAt units e = some digits ∧ steps units e ≤ digits ∧
      digits ≤ steps units e + 1 ∧ covers units (digits * (one * up e)) (down e) = true) ∨
    decimalAt units e = none ∧
      covers units (steps units e * (one * up e)) (down e) = false := by
  have hcovered (digits : Nat) :
      (if 0 ≤ e then covers units (digits * Nat.pow 10 e.natAbs * one) 1
        else covers units (digits * one) (Nat.pow 10 e.natAbs)) =
      covers units (digits * (one * up e)) (down e) := by
    split
    · rename_i he
      rw [(powers_of_nonneg he).1, (powers_of_nonneg he).2, Nat.mul_assoc, Nat.mul_comm one]
    · rename_i he
      rw [(powers_of_neg he).1, (powers_of_neg he).2, Nat.mul_one]
  have hsteps : (if 0 ≤ e then units else units * Nat.pow 10 e.natAbs) /
      (if 0 ≤ e then one * Nat.pow 10 e.natAbs else one) = steps units e := by
    unfold steps
    split
    · rename_i he
      rw [(powers_of_nonneg he).1, (powers_of_nonneg he).2, Nat.mul_one]
    · rename_i he
      rw [(powers_of_neg he).1, (powers_of_neg he).2, Nat.mul_one]
  unfold decimalAt
  simp only [hcovered, hsteps]
  generalize steps units e = below
  generalize one * up e = width
  generalize (if 0 ≤ e then one * Nat.pow 10 e.natAbs else one) = den
  generalize (if 0 ≤ e then units else units * Nat.pow 10 e.natAbs) % den = rest
  split
  · split
    · exact .inl ⟨_, rfl, by omega, by omega, ‹_›⟩
    split
    · exact .inl ⟨_, rfl, by omega, by omega, ‹_›⟩
    · refine .inl ⟨_, rfl, by omega, by omega, ?_⟩
      rcases Nat.mod_two_eq_zero_or_one below with h | h <;> rw [h] <;> assumption
  · exact .inl ⟨_, rfl, by omega, by omega, ‹_›⟩
  · exact .inl ⟨_, rfl, by omega, by omega, ‹_›⟩
  · exact .inr ⟨rfl, ‹_›⟩

/-! ## Magnitudes -/

theorem one_le_length_decimal (n : Nat) : 1 ≤ (decimal n).length := Nat.length_toDigits_pos

theorem pow_length_le {n : Nat} (h : 0 < n) : 10 ^ ((decimal n).length - 1) ≤ n := by
  rcases Nat.eq_zero_or_pos ((decimal n).length - 1) with hzero | hpos
  · rw [hzero]
    exact h
  · refine Nat.not_lt.mp fun hlt => ?_
    have := (Nat.length_toDigits_le_iff (by decide) hpos).mpr hlt
    unfold decimal at *
    omega

theorem lt_pow_length (n : Nat) : n < 10 ^ (decimal n).length :=
  (Nat.length_toDigits_le_iff (by decide) (one_le_length_decimal n)).mp (Nat.le_refl _)

theorem pow_length_eq (n : Nat) :
    10 ^ (decimal n).length = 10 * 10 ^ ((decimal n).length - 1) := by
  rw [← Nat.pow_succ', Nat.succ_eq_add_one, Nat.sub_add_cancel (one_le_length_decimal n)]

/-- The leading digit of a magnitude stands at its power of ten. -/
theorem magnitude_spec {units : Nat} (h : 0 < units) :
    one * up (magnitude units) ≤ units * down (magnitude units) ∧
      units * down (magnitude units) ≤ 10 * (one * up (magnitude units)) := by
  unfold magnitude
  split
  · rename_i hone
    have hlen := one_le_length_decimal (units / one)
    have hnonneg : (0 : Int) ≤ (decimal (units / one)).length - 1 := by omega
    have habs : ((decimal (units / one)).length - 1 : Int).natAbs =
        (decimal (units / one)).length - 1 := by omega
    rw [(powers_of_nonneg hnonneg).1, (powers_of_nonneg hnonneg).2, habs, Nat.mul_one, Nat.pow_eq]
    constructor
    · have hle := pow_length_le (n := units / one) (Nat.div_pos hone one_pos)
      rw [Nat.mul_comm]
      exact (Nat.le_div_iff_mul_le one_pos).mp hle
    · have hlt := (Nat.div_lt_iff_lt_mul one_pos).mp (lt_pow_length (units / one))
      rw [pow_length_eq, Nat.mul_comm _ one, Nat.mul_left_comm] at hlt
      exact hlt.le
  · rename_i hone
    have hlen := one_le_length_decimal (one / units)
    have hneg : ¬ (0 : Int) ≤ -(decimal (one / units)).length := by omega
    rw [(powers_of_neg hneg).1, (powers_of_neg hneg).2, Int.natAbs_neg, Int.natAbs_natCast,
      Nat.mul_one, Nat.pow_eq]
    constructor
    · have hlt := (Nat.div_lt_iff_lt_mul h).mp (lt_pow_length (one / units))
      rw [Nat.mul_comm]
      exact hlt.le
    · have hle := pow_length_le (n := one / units) (Nat.div_pos (Nat.not_le.mp hone).le h)
      have hmul := (Nat.le_div_iff_mul_le h).mp hle
      rw [pow_length_eq, Nat.mul_left_comm, Nat.mul_comm units]
      exact Nat.mul_le_mul_left 10 hmul

/-- At a smaller exponent a magnitude has as many more digits. -/
theorem steps_bounds {units : Nat} (h : 0 < units) {e : Int} (he : e ≤ magnitude units) :
    10 ^ (magnitude units - e).toNat * (one * up e) ≤ units * down e ∧
      units * down e ≤ 10 ^ ((magnitude units - e).toNat + 1) * (one * up e) := by
  obtain ⟨hlow, hhigh⟩ := magnitude_spec h
  have hscale := up_mul_down he
  generalize magnitude units = m at *
  have hpos := down_pos m
  constructor
  · refine Nat.le_of_mul_le_mul_right ?_ hpos
    calc 10 ^ (m - e).toNat * (one * up e) * down m
        = one * (up m * down e) := by rw [hscale]; ring
      _ = one * up m * down e := by ring
      _ ≤ units * down m * down e := Nat.mul_le_mul_right _ hlow
      _ = units * down e * down m := by ring
  · refine Nat.le_of_mul_le_mul_right ?_ hpos
    calc units * down e * down m
        = units * down m * down e := by ring
      _ ≤ 10 * (one * up m) * down e := Nat.mul_le_mul_right _ hhigh
      _ = 10 * one * (up m * down e) := by ring
      _ = 10 ^ ((m - e).toNat + 1) * (one * up e) * down m := by rw [hscale]; ring

/-! ## The shortest decimal -/

/-- With eighteen digits the decimal just below a magnitude rounds to it. -/
theorem covers_steps {units : Nat} (h : 0 < units) {e : Int}
    (hfine : 10 ^ 17 * (one * up e) ≤ units * down e) :
    covers units (steps units e * (one * up e)) (down e) = true := by
  obtain ⟨gap, hgap, hunits⟩ := lowEnd_gap h
  have hwidth : 0 < one * up e := Nat.mul_pos one_pos (up_pos e)
  have hbelow : steps units e * (one * up e) ≤ units * down e := Nat.div_mul_le_self _ _
  have habove : units * down e < steps units e * (one * up e) + one * up e :=
    Nat.lt_div_mul_add hwidth
  have hwide : 4 * (one * up e) ≤ gap * down e := by
    have hscaled : units * down e ≤ gap * 2 ^ 52 * down e := Nat.mul_le_mul_right _ hunits
    rw [Nat.mul_right_comm] at hscaled
    omega
  have hlow : lowEnd units * down e + gap * down e = 4 * (units * down e) := by
    rw [← Nat.add_mul, hgap, Nat.mul_assoc]
  have hhigh : 4 * (units * down e) < highEnd units * down e := by
    rw [highEnd, ← Nat.mul_assoc]
    exact Nat.mul_lt_mul_of_pos_right (Nat.lt_add_of_pos_right
      (Nat.mul_pos (by decide) (grid_pos units))) (down_pos e)
  exact covers_of_lt (by omega) (by omega)

theorem shortestFrom_spec {units : Nat} {e : Int} {n : Nat}
    (h : (decimalAt units (e - n)).isSome) :
    ∃ k ≤ n, ∃ digits, shortestFrom units e n = ⟨digits, e - k⟩ ∧
      decimalAt units (e - k) = some digits := by
  induction n generalizing e with
  | zero =>
    obtain ⟨digits, hd⟩ := Option.isSome_iff_exists.mp h
    rw [Nat.cast_zero, Int.sub_zero] at hd
    exact ⟨0, Nat.le_refl 0, digits, by simp [shortestFrom, hd], by simpa using hd⟩
  | succ n ih =>
    rw [shortestFrom]
    split
    · rename_i digits hd
      exact ⟨0, Nat.zero_le _, digits, by simp, by simpa using hd⟩
    · rw [Nat.cast_succ, Int.add_comm, ← Int.sub_sub] at h
      obtain ⟨k, hk, digits, hshortest, hd⟩ := ih h
      refine ⟨k + 1, Nat.succ_le_succ hk, digits, ?_, ?_⟩
      · rw [hshortest, Nat.cast_succ, Int.add_comm, Int.sub_sub]
      · rw [Nat.cast_succ, Int.add_comm, ← Int.sub_sub]
        exact hd

/-- The shortest decimal is positive, has no more than eighteen digits, or is the least number of
nineteen, and rounds to the magnitude. -/
theorem shortest_spec {units : Nat} (h : 0 < units) :
    ∃ digits e, shortest units = ⟨digits, e⟩ ∧ 0 < digits ∧ digits ≤ 10 ^ 18 + 1 ∧
      covers units (digits * (one * up e)) (down e) = true := by
  have hlast : (decimalAt units (magnitude units - (17 : Nat))).isSome := by
    have hfine := (steps_bounds h (e := magnitude units - (17 : Nat)) (by omega)).1
    rw [show (magnitude units - (magnitude units - (17 : Nat))).toNat = 17 by omega] at hfine
    rcases decimalAt_cases units (magnitude units - (17 : Nat)) with ⟨_, hd, -⟩ | ⟨-, hnone⟩
    · rw [hd]
      rfl
    · rw [covers_steps h hfine] at hnone
      cases hnone
  obtain ⟨k, hk, digits, hshortest, hd⟩ := shortestFrom_spec hlast
  have hbounds := steps_bounds h (e := magnitude units - k) (by omega)
  rw [show (magnitude units - (magnitude units - k)).toNat = k by omega] at hbounds
  have hwidth : 0 < one * up (magnitude units - k) := Nat.mul_pos one_pos (up_pos _)
  rcases decimalAt_cases units (magnitude units - k) with ⟨_, hd', hle, hle', hc⟩ | ⟨hnone, -⟩
  · rw [hd] at hd'
    cases hd'
    have hlow : 10 ^ k ≤ steps units (magnitude units - k) :=
      (Nat.le_div_iff_mul_le hwidth).mpr hbounds.1
    have hhigh : steps units (magnitude units - k) ≤ 10 ^ (k + 1) := by
      rw [Nat.mul_comm (10 ^ (k + 1))] at hbounds
      exact Nat.div_le_of_le_mul hbounds.2
    have hpow : 10 ^ (k + 1) ≤ 10 ^ 18 := Nat.pow_le_pow_right (by decide) (by omega)
    refine ⟨digits, _, hshortest, ?_, by omega, hc⟩
    exact (Nat.pow_pos (by decide)).trans_le (hlow.trans hle)
  · rw [hd] at hnone
    cases hnone

theorem limits_eq : ∀ q, q = 2044 → overflow = 2 ^ 54 * 2 ^ q ∧
    largest = (2 ^ 54 - 2) * 2 ^ q ∧ bound = (2 ^ 54 - 3) * 2 ^ q := by
  rintro _ rfl
  decide +kernel

/-- The interval around a finite magnitude other than the largest ends where that of the largest
begins, or before. -/
theorem highEnd_le {x : Double} (h : x.Finite) (hne : x.units ≠ largest) :
    highEnd x.units ≤ 4 * bound := by
  obtain ⟨hlt, hgrid⟩ := h
  obtain ⟨q, hq⟩ : ∃ q, q = 2044 := ⟨_, rfl⟩
  obtain ⟨hoverflow, hlargest, hbound⟩ := limits_eq q hq
  rw [hoverflow] at hlt
  rw [hlargest] at hne
  rw [hbound, highEnd]
  rcases Nat.lt_or_ge x.units.log2 (q + 53) with hsmall | hlarge
  · have hunits : x.units < 2 ^ 53 * 2 ^ q := by
      rw [← Nat.pow_add, Nat.add_comm]
      exact Nat.lt_log2_self.trans_le (Nat.pow_le_pow_right (by decide) hsmall)
    have hstep : grid x.units ≤ 2 ^ q := Nat.pow_le_pow_right (by decide) (by omega)
    omega
  · -- in the last binade the grid is twice as coarse as that of the bound
    have hpos : x.units ≠ 0 := fun h0 => by
      rw [h0, Nat.log2_zero] at hlarge
      omega
    have hlog : x.units.log2 < 54 + q := by
      rw [Nat.log2_lt hpos, Nat.pow_add]
      exact hlt
    have hstep : grid x.units = 2 * 2 ^ q := by
      rw [grid, show x.units.log2 - 52 = q + 1 by omega, Nat.pow_eq, Nat.pow_succ']
    rw [hstep] at hgrid ⊢
    obtain ⟨c, hc⟩ := Nat.dvd_of_mod_eq_zero hgrid
    generalize 2 ^ q = p at *
    have hc' : c ≤ 2 ^ 53 - 2 := by
      by_contra hgt
      have hlast : c = 2 ^ 53 - 1 ∨ 2 ^ 53 ≤ c := by omega
      rcases hlast with rfl | hge
      · omega
      · have := Nat.mul_le_mul_left p hge
        rw [Nat.mul_assoc] at hc
        omega
    have := Nat.mul_le_mul_left p hc'
    rw [Nat.mul_assoc] at hc
    omega

/-- The shortest decimal of a finite double is no larger than the reals that round to a magnitude
below the largest one. -/
theorem shortest_le_bound {x : Double} (h : x.Finite) (hne : x.units ≠ largest) {digits : Nat}
    {e : Int} (hc : covers x.units (digits * (one * up e)) (down e) = true) (he : 0 ≤ e) :
    digits * (one * Nat.pow 10 e.natAbs) ≤ bound := by
  have hle := le_of_covers hc
  rw [(powers_of_nonneg he).1, (powers_of_nonneg he).2, Nat.mul_one] at hle
  have := hle.trans (highEnd_le h hne)
  omega

end Wiretap.Number.Double
