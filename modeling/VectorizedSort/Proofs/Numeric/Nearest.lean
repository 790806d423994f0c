import Mathlib.Algebra.Order.Field.Basic
import Mathlib.Algebra.Order.Field.Rat
import Mathlib.Data.Nat.Log
import Mathlib.Data.Rat.Lemmas
import VectorizedSort.Numeric.Nearest

/-! # Rounding keeps ratios

Rounding to an integer does not pass another integer. A format with places behind the point has zero
and one among its numbers, so rounding a ratio to it gives a ratio. -/

namespace VectorizedSort

variable {x : Rat} {n : Int}

/-! ### Rounding to an integer -/

theorem nearestEven_bounds (x : Rat) : x.floor ≤ nearestEven x ∧ nearestEven x ≤ x.floor + 1 := by
  rw [nearestEven]
  split
  · omega
  · split
    · omega
    · split <;> omega

theorem nearestEven_intCast (n : Int) : nearestEven n = n := by
  rw [nearestEven, Rat.floor_intCast, sub_self, if_pos one_half_pos]

theorem le_nearestEven (h : n ≤ x) : n ≤ nearestEven x :=
  Int.le_trans (Rat.le_floor_iff.mpr h) (nearestEven_bounds x).1

theorem nearestEven_le (h : x ≤ n) : nearestEven x ≤ n := by
  by_cases hfloor : x.floor < n
  · exact Int.le_trans (nearestEven_bounds x).2 hfloor
  · have hx : x = n := le_antisymm h (Rat.le_floor_iff.mp (Int.not_lt.mp hfloor))
    rw [hx, nearestEven_intCast]

/-! ### Places -/

theorem twoPow_pos (k : Int) : 0 < twoPow k := by
  have hpow (e : Nat) : (0 : Rat) < (Nat.pow 2 e : Nat) := Nat.cast_pos.mpr (Nat.two_pow_pos e)
  rw [twoPow]
  split
  · exact hpow _
  · exact one_div_pos.mpr (hpow _)

/-- One is a multiple of the powers of two with no positive exponent. -/
theorem exists_one_div_twoPow {k : Int} (h : k ≤ 0) : ∃ n : Int, 1 / twoPow k = n := by
  by_cases hzero : k = 0
  · exact ⟨1, by simp [hzero, twoPow]⟩
  · refine ⟨(Nat.pow 2 (-k).toNat : Nat), ?_⟩
    rw [twoPow, if_neg (by omega), one_div_one_div, Int.cast_natCast]

/-- A ratio has no digit above the place of one. -/
theorem highestPlace_nonpos (hx : 0 ≤ x) (h : x ≤ 1) : highestPlace x ≤ 0 := by
  have hnum : x.num.natAbs ≤ x.den := by
    have hnonneg : 0 ≤ x.num := Rat.num_nonneg.mpr hx
    have hle : x.num ≤ x.den := Rat.num_le_denom_iff.mpr h
    omega
  have hlog : x.num.natAbs.log2 ≤ x.den.log2 := by
    rw [Nat.log2_eq_log_two, Nat.log2_eq_log_two]
    exact Nat.log_mono_right hnum
  rw [highestPlace]
  split <;> omega

/-! ### Rounding to a format -/

namespace BinaryFormat

variable (format : BinaryFormat)

theorem nearest_nonneg (h : 0 ≤ x) : 0 ≤ format.nearest x := by
  have hunit := twoPow_pos (format.lastPlace x)
  have hquotient : ((0 : Int) : Rat) ≤ x / twoPow (format.lastPlace x) := by
    rw [Int.cast_zero]
    exact div_nonneg h hunit.le
  exact mul_nonneg (Rat.intCast_nonneg.mpr (le_nearestEven hquotient)) hunit.le

variable {format}

/-- A format with digits behind the point, or just before it, rounds nothing up past one. -/
theorem nearest_le_one (hplace : format.leastPlace ≤ 0) (hprecision : 1 ≤ format.precision)
    (hx : 0 ≤ x) (h : x ≤ 1) : format.nearest x ≤ 1 := by
  have hlast : format.lastPlace x ≤ 0 := by
    have hhighest := highestPlace_nonpos hx h
    rw [lastPlace]
    omega
  obtain ⟨n, hn⟩ := exists_one_div_twoPow hlast
  have hunit := twoPow_pos (format.lastPlace x)
  have hquotient : x / twoPow (format.lastPlace x) ≤ n := by
    rw [← hn]
    exact div_le_div_of_nonneg_right h hunit.le
  calc format.nearest x
      = nearestEven (x / twoPow (format.lastPlace x)) * twoPow (format.lastPlace x) := rfl
    _ ≤ n * twoPow (format.lastPlace x) :=
        mul_le_mul_of_nonneg_right (Rat.intCast_le_intCast.mpr (nearestEven_le hquotient)) hunit.le
    _ = 1 := by rw [← hn, one_div_mul_cancel hunit.ne']

end BinaryFormat

end VectorizedSort
