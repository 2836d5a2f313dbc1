import Mathlib

/-! # Rounding to double precision

The value nearest to a rational number with 53 binary digits, ties to the even one. The range of the
exponent is left out: nothing here overflows, and nothing is subnormal.
-/

namespace Binary64

def roundHalfEven (x : ℚ) : ℤ :=
  if x - ⌊x⌋ < 1 / 2 then ⌊x⌋
  else if 1 / 2 < x - ⌊x⌋ then ⌊x⌋ + 1
  else if ⌊x⌋ % 2 = 0 then ⌊x⌋
  else ⌊x⌋ + 1

/-- The distance between neighbours with 53 digits around `x`. -/
def unit (x : ℚ) : ℚ := 2 ^ (Int.log 2 |x| - 52)

def nearest (x : ℚ) : ℚ := roundHalfEven (x / unit x) * unit x

theorem abs_roundHalfEven_sub_le (x : ℚ) : |(roundHalfEven x : ℚ) - x| ≤ 1 / 2 := by
  have hfloor := Int.floor_le x
  have hceil := Int.lt_floor_add_one x
  unfold roundHalfEven
  split
  · rw [abs_le]
    constructor <;> linarith
  · split
    · push_cast
      rw [abs_le]
      constructor <;> linarith
    · split
      · rw [abs_le]
        constructor <;> linarith
      · push_cast
        rw [abs_le]
        constructor <;> linarith

theorem unit_pos (x : ℚ) : 0 < unit x := zpow_pos two_pos _

/-- Neighbours are at most this far apart. -/
theorem unit_le {x : ℚ} (hx : x ≠ 0) : unit x ≤ |x| / 2 ^ 52 := by
  have hlog : (2 : ℚ) ^ Int.log 2 |x| ≤ |x| := Int.zpow_log_le_self one_lt_two (abs_pos.mpr hx)
  unfold unit
  rw [zpow_sub₀ two_ne_zero]
  exact div_le_div_of_nonneg_right hlog (by positivity)

/-- Rounding changes a value by half a unit in its last digit at most. -/
theorem abs_nearest_sub_le (x : ℚ) : |nearest x - x| ≤ |x| / 2 ^ 53 := by
  by_cases hx : x = 0
  · subst hx
    simp [nearest, roundHalfEven]
  · have hunit := unit_pos x
    have hle := unit_le hx
    have hround := abs_roundHalfEven_sub_le (x / unit x)
    have heq : nearest x - x = ((roundHalfEven (x / unit x) : ℚ) - x / unit x) * unit x := by
      unfold nearest
      rw [sub_mul, div_mul_cancel₀ _ hunit.ne']
    calc |nearest x - x| = |(roundHalfEven (x / unit x) : ℚ) - x / unit x| * unit x := by
          rw [heq, abs_mul, abs_of_pos hunit]
      _ ≤ 1 / 2 * (|x| / 2 ^ 52) := mul_le_mul hround hle hunit.le (by norm_num)
      _ = |x| / 2 ^ 53 := by ring

/-- A rounded value is hardly above the value. -/
theorem nearest_le {x y : ℚ} (hx : 0 ≤ x) (hxy : x ≤ y) : nearest x ≤ y * (1 + 1 / 2 ^ 53) := by
  have hdistance := abs_le.mp (abs_nearest_sub_le x)
  rw [abs_of_nonneg hx] at hdistance
  have hscale : x * (1 + 1 / 2 ^ 53) ≤ y * (1 + 1 / 2 ^ 53) := by gcongr
  linarith

theorem nearest_nonneg {x : ℚ} (hx : 0 ≤ x) : 0 ≤ nearest x := by
  have hdistance := abs_le.mp (abs_nearest_sub_le x)
  rw [abs_of_nonneg hx] at hdistance
  have hsmall : x / 2 ^ 53 ≤ x := div_le_self hx (by norm_num)
  linarith

theorem roundHalfEven_intCast (n : ℤ) : roundHalfEven n = n := by
  unfold roundHalfEven
  rw [Int.floor_intCast, sub_self, if_pos (by norm_num)]

/-- An integer with at most 53 binary digits is a value of its own. -/
theorem nearest_natCast {n : ℕ} (h : n < 2 ^ 53) : nearest n = n := by
  by_cases hn : n = 0
  · subst hn
    simp [nearest, roundHalfEven]
  · have hlog : Int.log 2 |(n : ℚ)| = Nat.log 2 n := by
      rw [abs_of_nonneg (Nat.cast_nonneg n)]
      exact Int.log_natCast 2 n
    have hsmall : Nat.log 2 n < 53 := Nat.log_lt_of_lt_pow hn h
    -- in units of its last digit the number is whole
    obtain ⟨k, hk⟩ : ∃ k : ℕ, Nat.log 2 n + k = 52 := ⟨52 - Nat.log 2 n, by omega⟩
    have hunit : unit (n : ℚ) = ((2 : ℚ) ^ k)⁻¹ := by
      unfold unit
      rw [hlog, ← zpow_natCast, ← zpow_neg]
      congr 1
      omega
    have hwhole : (n : ℚ) / unit n = ((n * 2 ^ k : ℕ) : ℤ) := by
      rw [hunit, div_inv_eq_mul]
      push_cast
      rfl
    unfold nearest
    rw [hwhole, roundHalfEven_intCast, ← hwhole, div_mul_cancel₀ _ (unit_pos _).ne']

example : nearest (1 / 3) = 6004799503160661 / 2 ^ 54 := by decide +kernel

end Binary64
