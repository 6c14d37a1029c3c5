import Mathlib.Algebra.Group.Nat.Defs
import Mathlib.Data.Nat.Log
import Wiretap.Number.Digits
import Wiretap.Number.Double

/-!
# Rounding keeps the order

A magnitude is rounded to the nearest point of its grid, and a larger one to the same point or to
a larger one (`round_le_round`): a power of two lies on the grid of all magnitudes below it and of
those that begin with it. So a significand times a power of ten is no larger than what comes of the
largest significand that the power admits, and that is not too large (`isSome_scaled`).
-/

namespace Wiretap.Number.Double

/-! ## The nearest multiple -/

/-- The multiple of `width` that is nearest to `num`, counted in widths; the even one of two. -/
def nearest (num width : Nat) : Nat :=
  if 2 * (num % width) < width then num / width
  else if width < 2 * (num % width) then num / width + 1
  else num / width + num / width % 2

theorem round_eq (num den : Nat) :
    round num den = nearest num (den * grid (num / den)) * grid (num / den) := rfl

theorem le_nearest (num width : Nat) : num / width ≤ nearest num width := by
  unfold nearest
  split
  · exact Nat.le_refl _
  split
  · exact Nat.le_succ _
  · exact Nat.le_add_right _ _

theorem nearest_le (num width : Nat) : nearest num width ≤ num / width + 1 := by
  unfold nearest
  split
  · exact Nat.le_succ _
  split
  · exact Nat.le_refl _
  · omega

theorem nearest_le_nearest {a b : Nat} (h : a ≤ b) (width : Nat) :
    nearest a width ≤ nearest b width := by
  rcases Nat.lt_or_eq_of_le (Nat.div_le_div_right h (c := width)) with hlt | heq
  · exact (nearest_le a width).trans (Nat.le_trans hlt (le_nearest b width))
  · have ha := Nat.div_add_mod a width
    have hb := Nat.div_add_mod b width
    rw [heq] at ha
    unfold nearest
    rw [heq]
    split <;> split <;> try split
    all_goals try split
    all_goals omega

theorem nearest_mul {width : Nat} (hw : 0 < width) (k : Nat) : nearest (k * width) width = k := by
  rw [nearest, Nat.mul_mod_left, if_pos hw, Nat.mul_div_cancel k hw]

/-! ## Rounding -/

theorem grid_pos (q : Nat) : 0 < grid q := Nat.pow_pos (by decide)

/-- A power of two is a point of the grid of each magnitude that does not begin behind it. -/
theorem nearest_pow_mul_grid {den q k : Nat} (hden : 0 < den) (hk : q.log2 - 52 ≤ k) :
    nearest (den * 2 ^ k) (den * grid q) * grid q = 2 ^ k := by
  have hpow : 2 ^ k = 2 ^ (k - (q.log2 - 52)) * grid q := by
    rw [grid, Nat.pow_eq, ← Nat.pow_add, Nat.sub_add_cancel hk]
  rw [hpow, Nat.mul_left_comm, nearest_mul (Nat.mul_pos hden (grid_pos q))]

theorem round_le_pow {num den k : Nat} (hden : 0 < den) (hk : (num / den).log2 - 52 ≤ k)
    (h : num ≤ den * 2 ^ k) : round num den ≤ 2 ^ k := by
  rw [round_eq, ← nearest_pow_mul_grid hden hk]
  exact Nat.mul_le_mul_right _ (nearest_le_nearest h _)

theorem pow_le_round {num den k : Nat} (hden : 0 < den) (hk : (num / den).log2 - 52 ≤ k)
    (h : den * 2 ^ k ≤ num) : 2 ^ k ≤ round num den := by
  rw [round_eq, ← nearest_pow_mul_grid hden hk]
  exact Nat.mul_le_mul_right _ (nearest_le_nearest h _)

theorem round_le_round {a b den : Nat} (hden : 0 < den) (h : a ≤ b) :
    round a den ≤ round b den := by
  have hlog : (a / den).log2 ≤ (b / den).log2 := by
    rw [Nat.log2_eq_log_two, Nat.log2_eq_log_two]
    exact Nat.log_mono_right (Nat.div_le_div_right h)
  rcases Nat.lt_or_eq_of_le hlog with hlt | heq
  · -- the power of two with which the larger one begins lies between the two
    have hb : b / den ≠ 0 := fun h0 => by
      rw [h0] at hlt
      exact absurd hlt (Nat.not_lt_zero _)
    have hbelow : a / den < 2 ^ (b / den).log2 :=
      Nat.lt_log2_self.trans_le (Nat.pow_le_pow_right (by decide) hlt)
    have ha : a ≤ den * 2 ^ (b / den).log2 := by
      rw [Nat.mul_comm]
      exact ((Nat.div_lt_iff_lt_mul hden).mp hbelow).le
    have hb : den * 2 ^ (b / den).log2 ≤ b := by
      rw [Nat.mul_comm]
      exact (Nat.le_div_iff_mul_le hden).mp (Nat.log2_self_le hb)
    exact (round_le_pow hden (by omega) ha).trans (pow_le_round hden (by omega) hb)
  · have hgrid : grid (a / den) = grid (b / den) := by rw [grid, grid, heq]
    rw [round_eq, round_eq, hgrid]
    exact Nat.mul_le_mul_right _ (nearest_le_nearest h _)

theorem one_pos : 0 < one := by decide +kernel

theorem ofNat_le_ofNat {a b : Nat} (h : a ≤ b) : ofNat a ≤ ofNat b :=
  round_le_round Nat.one_pos (Nat.mul_le_mul_right one h)

theorem mul_le_mul {a b c d : Nat} (h : a ≤ b) (h' : c ≤ d) : mul a c ≤ mul b d :=
  round_le_round one_pos (Nat.mul_le_mul h h')

/-! ## Scaling -/

/-- The largest magnitude. -/
def largest : Nat := overflow - Nat.pow 2 2045

/-- The reals that round to a magnitude below the largest are no larger than this. -/
def bound : Nat := largest - Nat.pow 2 2044

theorem powers_le {m n : Nat} (h : m ≤ n) : Nat.pow 10 m ≤ Nat.pow 10 n :=
  Nat.pow_le_pow_right (by decide) h

-- the exponents are variables here because only the kernel computes such powers

theorem mul_lt_overflow_of_small {k : Nat} (hk : k ≤ 288) :
    mul (ofNat word64) (ofNat (Nat.pow 10 k)) < overflow := by
  have hlast : ∀ n, n = 288 → mul (ofNat word64) (ofNat (Nat.pow 10 n)) < overflow := by
    rintro _ rfl
    decide +kernel
  obtain ⟨n, hn⟩ : ∃ n, n = 288 := ⟨_, rfl⟩
  exact (mul_le_mul (Nat.le_refl _) (ofNat_le_ofNat (powers_le (hn ▸ hk)))).trans_lt (hlast n hn)

/-- Only from here on a significand of 64 bits can make the product too large. -/
theorem mul_lt_overflow_of_large : ∀ k < 20,
    mul (ofNat (bound / (one * Nat.pow 10 (k + 289)))) (ofNat (Nat.pow 10 (k + 289))) <
      overflow := by
  decide +kernel

theorem bound_lt {k : Nat} (hk : 309 ≤ k) : bound < one * Nat.pow 10 k := by
  have hfirst : ∀ n, n = 309 → bound < one * Nat.pow 10 n := by
    rintro _ rfl
    decide +kernel
  obtain ⟨n, hn⟩ : ∃ n, n = 309 := ⟨_, rfl⟩
  exact (hfirst n hn).trans_le (Nat.mul_le_mul_left one (powers_le (hn ▸ hk)))

section

variable {significand k : Nat} (hpos : 0 < significand)
  (h : significand * (one * Nat.pow 10 k) ≤ bound)

include hpos h

theorem power_lt : k < 309 := by
  by_contra hk
  have hwhole : one * Nat.pow 10 k ≤ significand * (one * Nat.pow 10 k) :=
    Nat.le_mul_of_pos_left _ hpos
  exact Nat.lt_irrefl _ ((bound_lt (Nat.not_lt.mp hk)).trans_le (hwhole.trans h))

theorem mul_lt_overflow (hs : significand ≤ word64) :
    mul (ofNat significand) (ofNat (Nat.pow 10 k)) < overflow := by
  rcases Nat.lt_or_ge k 289 with hsmall | hlarge
  · exact (mul_le_mul (ofNat_le_ofNat hs) (Nat.le_refl _)).trans_lt
      (mul_lt_overflow_of_small (Nat.le_of_lt_succ hsmall))
  · have hwidth : 0 < one * Nat.pow 10 k := Nat.mul_pos one_pos (Nat.pow_pos (by decide))
    have hle : significand ≤ bound / (one * Nat.pow 10 k) :=
      (Nat.le_div_iff_mul_le hwidth).mpr h
    have hchecked := mul_lt_overflow_of_large (k - 289) (by have := power_lt hpos h; omega)
    rw [Nat.sub_add_cancel hlarge] at hchecked
    exact (mul_le_mul (ofNat_le_ofNat hle) (Nat.le_refl _)).trans_lt hchecked

end

/-- A significand is scaled by a power of ten as long as the product is not too large. -/
theorem isSome_scaled {significand : Nat} (hs : significand ≤ word64) {exponent : Int}
    (h : 0 ≤ exponent → significand * (one * Nat.pow 10 exponent.natAbs) ≤ bound) :
    (scaled significand exponent).isSome := by
  unfold scaled
  simp only
  split
  · rename_i hexponent
    split
    · rfl
    · rename_i hzero
      have hpos := Nat.pos_of_ne_zero hzero
      rw [if_neg (Nat.not_lt.mpr (Nat.le_of_lt_succ (power_lt hpos (h hexponent)))),
        if_pos (mul_lt_overflow hpos (h hexponent) hs)]
      rfl
  split
  · rfl
  split
  · rfl
  · rfl

end Wiretap.Number.Double
