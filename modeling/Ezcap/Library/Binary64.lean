import Mathlib.Data.Int.Log
import Mathlib.Data.Rat.Floor
import Mathlib.Tactic.Linarith

/-! Rounding to double precision: to the nearest of the numbers with 53 significant bits, and to the
even one of two. Overflow is left out. -/

namespace Binary64

/-- To the nearest integer, and to the even one of two. -/
def roundEven (x : ℚ) : ℤ :=
  if 2 * (x - ⌊x⌋) < 1 ∨ 2 * (x - ⌊x⌋) = 1 ∧ Even ⌊x⌋ then ⌊x⌋ else ⌊x⌋ + 1

/-- The exponent of the last place at `x`. -/
def ulpExponent (x : ℚ) : ℤ := max (Int.log 2 |x| - 52) (-1074)

/-- To the nearest multiple of `2 ^ e`. -/
def roundTo (e : ℤ) (x : ℚ) : ℚ := roundEven (x / 2 ^ e) * 2 ^ e

def round (x : ℚ) : ℚ := roundTo (ulpExponent x) x

/-- The double next to 0.009 makes 9 with a thousand. -/
example : round (round (9 / 1000) * 1000) = 9 := by decide +kernel

variable {x y : ℚ}

theorem roundEven_intCast (n : ℤ) : roundEven n = n := by simp [roundEven]

theorem roundEven_mono (h : x ≤ y) : roundEven x ≤ roundEven y := by
  have hfloor : ⌊x⌋ ≤ ⌊y⌋ := Int.floor_mono h
  rcases hfloor.eq_or_lt with heq | hlt
  · -- between the same two integers, `y` is no nearer to the lower one
    unfold roundEven
    rw [heq]
    split_ifs with hx hy hy
    · exact le_rfl
    · omega
    · rw [not_or, not_and] at hx
      rcases hy with hy | ⟨hy, heven⟩
      · exact absurd (by linarith) hx.1
      · exact absurd heven (hx.2 (le_antisymm (by linarith) (not_lt.mp hx.1)))
    · exact le_rfl
  · unfold roundEven
    split_ifs <;> omega

theorem roundTo_mono (e : ℤ) (h : x ≤ y) : roundTo e x ≤ roundTo e y := by
  have hpos : (0 : ℚ) < 2 ^ e := zpow_pos two_pos e
  have hscaled : roundEven (x / 2 ^ e) ≤ roundEven (y / 2 ^ e) :=
    roundEven_mono (div_le_div_of_nonneg_right h hpos.le)
  exact mul_le_mul_of_nonneg_right (Int.cast_le.mpr hscaled) hpos.le

theorem roundTo_zero (e : ℤ) : roundTo e 0 = 0 := by
  rw [roundTo, zero_div, show roundEven 0 = 0 from roundEven_intCast 0, Int.cast_zero, zero_mul]

theorem roundTo_zpow {e k : ℤ} (h : e ≤ k) : roundTo e (2 ^ k) = 2 ^ k := by
  have hne : (2 : ℚ) ^ e ≠ 0 := zpow_ne_zero e two_ne_zero
  obtain ⟨n, rfl⟩ := Int.le.dest h
  have hpower : (2 : ℚ) ^ (e + n) / 2 ^ e = ((2 ^ n : ℤ) : ℚ) := by
    rw [zpow_add₀ two_ne_zero, mul_div_cancel_left₀ _ hne]
    simp
  rw [roundTo, hpower, roundEven_intCast, ← hpower, div_mul_cancel₀ _ hne]

theorem round_nonneg (hx : 0 ≤ x) : 0 ≤ round x :=
  (roundTo_zero _).symm.trans_le (roundTo_mono _ hx)

/-- Rounding keeps the order. Where the last places differ, a power of two lies in between. -/
theorem round_mono (hx : 0 ≤ x) (h : x ≤ y) : round x ≤ round y := by
  rcases hx.eq_or_lt with rfl | hpos
  · exact (roundTo_zero _).trans_le (round_nonneg h)
  have hy : 0 < y := hpos.trans_le h
  have hlog : Int.log 2 x ≤ Int.log 2 y := Int.log_mono_right hpos h
  have hulp {z : ℚ} (hz : 0 < z) : ulpExponent z = max (Int.log 2 z - 52) (-1074) := by
    rw [ulpExponent, abs_of_pos hz]
  unfold round
  by_cases hplace : ulpExponent x = ulpExponent y
  · rw [hplace]
    exact roundTo_mono _ h
  · rw [hulp hpos, hulp hy] at hplace ⊢
    have hbelow : x ≤ 2 ^ Int.log 2 y :=
      (Int.lt_zpow_succ_log_self one_lt_two x).le.trans
        (zpow_le_zpow_right₀ one_le_two (by omega))
    calc roundTo (max (Int.log 2 x - 52) (-1074)) x
      _ ≤ roundTo _ (2 ^ Int.log 2 y) := roundTo_mono _ hbelow
      _ = 2 ^ Int.log 2 y := roundTo_zpow (by omega)
      _ = roundTo (max (Int.log 2 y - 52) (-1074)) (2 ^ Int.log 2 y) :=
          (roundTo_zpow (by omega)).symm
      _ ≤ roundTo _ y := roundTo_mono _ (Int.zpow_log_le_self one_lt_two hy)

end Binary64
