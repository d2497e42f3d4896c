import Mathlib.Algebra.Order.Field.Power
import Mathlib.Algebra.Order.Field.Rat
import Mathlib.Data.Int.Log
import Mathlib.Data.Rat.Floor
import Mathlib.Tactic.Linarith

/-!
Rounding to a binary64 number, the nearest one and of two the even one, as a function on the
rationals: an operation on doubles is the exact one, then `round`. The range has no upper end here.
-/

namespace Binary64

/-- The nearest integer, the even one of two. -/
def nearestEven (x : ℚ) : ℤ :=
  if x - ⌊x⌋ < 1 / 2 then ⌊x⌋
  else if 1 / 2 < x - ⌊x⌋ then ⌊x⌋ + 1
  else if ⌊x⌋ % 2 = 0 then ⌊x⌋ else ⌊x⌋ + 1

/-- The exponent of the last of the 53 bits, at least that of the subnormal numbers. -/
def lastPlace (x : ℚ) : ℤ := max (Int.log 2 x - 52) (-1074)

def roundMagnitude (x : ℚ) : ℚ := nearestEven (x / 2 ^ lastPlace x) * 2 ^ lastPlace x

def round (x : ℚ) : ℚ := if 0 ≤ x then roundMagnitude x else -roundMagnitude (-x)

/-! ### To an integer -/

theorem floor_le_nearestEven (x : ℚ) : ⌊x⌋ ≤ nearestEven x := by
  unfold nearestEven
  split_ifs <;> omega

theorem nearestEven_le_floor_add_one (x : ℚ) : nearestEven x ≤ ⌊x⌋ + 1 := by
  unfold nearestEven
  split_ifs <;> omega

theorem nearestEven_mono {x y : ℚ} (h : x ≤ y) : nearestEven x ≤ nearestEven y := by
  rcases (Int.floor_le_floor h).lt_or_eq with hlt | heq
  · exact (nearestEven_le_floor_add_one x).trans
      ((Int.add_one_le_of_lt hlt).trans (floor_le_nearestEven y))
  · -- in one interval only the distances from its lower end are compared
    unfold nearestEven
    rw [heq]
    split_ifs <;> first | omega | linarith

theorem le_nearestEven {n : ℤ} {x : ℚ} (h : n ≤ x) : n ≤ nearestEven x :=
  (Int.le_floor.mpr h).trans (floor_le_nearestEven x)

theorem nearestEven_intCast (n : ℤ) : nearestEven n = n := by
  unfold nearestEven
  rw [Int.floor_intCast, sub_self, if_pos (by norm_num)]

theorem nearestEven_le {n : ℤ} {x : ℚ} (h : x ≤ n) : nearestEven x ≤ n :=
  (nearestEven_mono h).trans_eq (nearestEven_intCast n)

/-! ### To a double -/

theorem two_zpow_pos (e : ℤ) : (0 : ℚ) < 2 ^ e := zpow_pos two_pos e

/-- A power of two that is a multiple of the last place bounds the rounded number as it bounds `x`. -/
theorem roundMagnitude_le {x : ℚ} {e : ℤ} (he : lastPlace x ≤ e) (h : x ≤ 2 ^ e) :
    roundMagnitude x ≤ 2 ^ e := by
  obtain ⟨k, hk⟩ := Int.eq_ofNat_of_zero_le (sub_nonneg.mpr he)
  have hsplit : (2 : ℚ) ^ e = ((2 ^ k : ℤ) : ℚ) * 2 ^ lastPlace x := by
    push_cast
    rw [← zpow_natCast, ← hk, ← zpow_add₀ two_ne_zero, sub_add_cancel]
  have hscaled : x / 2 ^ lastPlace x ≤ ((2 ^ k : ℤ) : ℚ) := by
    rwa [div_le_iff₀ (two_zpow_pos _), ← hsplit]
  rw [hsplit, roundMagnitude]
  exact mul_le_mul_of_nonneg_right (Int.cast_le.mpr (nearestEven_le hscaled)) (two_zpow_pos _).le

theorem le_roundMagnitude {x : ℚ} {e : ℤ} (he : lastPlace x ≤ e) (h : 2 ^ e ≤ x) :
    2 ^ e ≤ roundMagnitude x := by
  obtain ⟨k, hk⟩ := Int.eq_ofNat_of_zero_le (sub_nonneg.mpr he)
  have hsplit : (2 : ℚ) ^ e = ((2 ^ k : ℤ) : ℚ) * 2 ^ lastPlace x := by
    push_cast
    rw [← zpow_natCast, ← hk, ← zpow_add₀ two_ne_zero, sub_add_cancel]
  have hscaled : ((2 ^ k : ℤ) : ℚ) ≤ x / 2 ^ lastPlace x := by
    rwa [le_div_iff₀ (two_zpow_pos _), ← hsplit]
  rw [hsplit, roundMagnitude]
  exact mul_le_mul_of_nonneg_right (Int.cast_le.mpr (le_nearestEven hscaled)) (two_zpow_pos _).le

theorem roundMagnitude_nonneg {x : ℚ} (h : 0 ≤ x) : 0 ≤ roundMagnitude x := by
  have hscaled : ((0 : ℤ) : ℚ) ≤ x / 2 ^ lastPlace x :=
    div_nonneg h (two_zpow_pos _).le
  exact mul_nonneg (Int.cast_nonneg (le_nearestEven hscaled)) (two_zpow_pos _).le

theorem roundMagnitude_mono {x y : ℚ} (hx : 0 < x) (h : x ≤ y) :
    roundMagnitude x ≤ roundMagnitude y := by
  have hy : 0 < y := hx.trans_le h
  have hlog : Int.log 2 x ≤ Int.log 2 y := Int.log_mono_right hx h
  have hplace : lastPlace x ≤ lastPlace y := max_le_max_right _ (Int.sub_le_sub_right hlog 52)
  rcases hplace.lt_or_eq with hlt | heq
  · -- a power of two lies between them
    have hlast : lastPlace x ≤ Int.log 2 y ∧ lastPlace y ≤ Int.log 2 y ∧
        Int.log 2 x + 1 ≤ Int.log 2 y := by
      unfold lastPlace at hlt ⊢
      omega
    have hbelow : x ≤ 2 ^ Int.log 2 y := by
      apply (Int.lt_zpow_succ_log_self one_lt_two x).le.trans
      exact zpow_le_zpow_right₀ one_le_two hlast.2.2
    exact (roundMagnitude_le hlast.1 hbelow).trans
      (le_roundMagnitude hlast.2.1 (Int.zpow_log_le_self one_lt_two hy))
  · unfold roundMagnitude
    rw [heq]
    apply mul_le_mul_of_nonneg_right _ (two_zpow_pos _).le
    exact Int.cast_le.mpr (nearestEven_mono (div_le_div_of_nonneg_right h (two_zpow_pos _).le))

theorem roundMagnitude_zero : roundMagnitude 0 = 0 := by decide +kernel

theorem round_mono {x y : ℚ} (h : x ≤ y) : round x ≤ round y := by
  unfold round
  by_cases hx : 0 ≤ x
  · rw [if_pos hx, if_pos (hx.trans h)]
    rcases hx.lt_or_eq with hpos | rfl
    · exact roundMagnitude_mono hpos h
    · rw [roundMagnitude_zero]
      exact roundMagnitude_nonneg h
  · have hneg : 0 < -x := neg_pos.mpr (not_le.mp hx)
    rw [if_neg hx]
    by_cases hy : 0 ≤ y
    · rw [if_pos hy]
      exact (neg_nonpos.mpr (roundMagnitude_nonneg hneg.le)).trans (roundMagnitude_nonneg hy)
    · rw [if_neg hy]
      exact neg_le_neg (roundMagnitude_mono (neg_pos.mpr (not_le.mp hy)) (neg_le_neg h))

end Binary64
