import Iomgr.Time
import Mathlib.Algebra.Order.Group.Abs
import Mathlib.Algebra.Order.Group.Int

/-!
Absolute times, an unsigned 64-bit number of microseconds since the epoch. `Add` and `Subtract` take a
signed delta, convert it to the unsigned type and look for an overflow on one side only.
-/

namespace Iomgr

/-- A globally consistent absolute time. -/
structure WallTime where
  microseconds : UInt64
  deriving DecidableEq, Repr

def Time.Delta.toMicroseconds (d : Time.Delta) : Int64 := d.timeOffset

def Time.Delta.fromMicroseconds (us : Int64) : Time.Delta := ⟨us⟩

namespace WallTime

open Time (Delta)

def toInt (w : WallTime) : ℤ := w.microseconds.toNat

theorem toInt_injective : Function.Injective toInt := by
  rintro ⟨a⟩ ⟨b⟩ h
  exact congrArg WallTime.mk (UInt64.toNat_inj.mp (Int.ofNat_inj.mp h))

theorem toInt_nonneg (w : WallTime) : 0 ≤ w.toInt := Int.natCast_nonneg _

theorem toInt_lt (w : WallTime) : w.toInt < 2 ^ 64 := by
  have := w.microseconds.toNat_lt
  rw [toInt]
  omega

def absoluteDifference (w other : WallTime) : Delta :=
  let d := if w.microseconds > other.microseconds then w.microseconds - other.microseconds
    else other.microseconds - w.microseconds
  let d := if d > Int64.maxValue.toUInt64 then Int64.maxValue.toUInt64 else d
  Delta.fromMicroseconds d.toInt64

def add (w : WallTime) (delta : Delta) : WallTime :=
  let microseconds := w.microseconds + delta.toMicroseconds.toUInt64
  if microseconds < w.microseconds then ⟨UInt64.ofNat (2 ^ 64 - 1)⟩ else ⟨microseconds⟩

def subtract (w : WallTime) (delta : Delta) : WallTime :=
  let microseconds := w.microseconds - delta.toMicroseconds.toUInt64
  if microseconds > w.microseconds then ⟨0⟩ else ⟨microseconds⟩

/-! ### The machine's operations as integers -/

/-- The delta as the unsigned type has it. -/
def unsigned (d : Delta) : ℤ := if 0 ≤ d.toInt then d.toInt else d.toInt + 2 ^ 64

theorem toNat_toMicroseconds (d : Delta) : (d.toMicroseconds.toUInt64.toNat : ℤ) = unsigned d := by
  have hcond : d.toInt = if 2 * d.toMicroseconds.toUInt64.toNat < 2 ^ 64 then
      (d.toMicroseconds.toUInt64.toNat : ℤ) else d.toMicroseconds.toUInt64.toNat - 2 ^ 64 :=
    BitVec.toInt_eq_toNat_cond _
  have hlt := d.toMicroseconds.toUInt64.toNat_lt
  rw [unsigned]
  split_ifs at hcond ⊢ <;> omega

/-- A sum that does not wrap is at least `w`; one that wraps is less and becomes the largest time. -/
theorem toInt_add (w : WallTime) (d : Delta) :
    (w.add d).toInt = min (w.toInt + unsigned d) (2 ^ 64 - 1) := by
  have hdelta := toNat_toMicroseconds d
  have hw := w.microseconds.toNat_lt
  have hd := d.toMicroseconds.toUInt64.toNat_lt
  rw [add, toInt]
  split_ifs with hlt
  · rw [UInt64.lt_iff_toNat_lt, UInt64.toNat_add] at hlt
    have hmax : (UInt64.ofNat (2 ^ 64 - 1)).toNat = 2 ^ 64 - 1 := by decide
    rw [toInt, hmax]
    omega
  · rw [UInt64.lt_iff_toNat_lt, UInt64.toNat_add] at hlt
    rw [toInt, UInt64.toNat_add]
    omega

theorem toInt_subtract (w : WallTime) (d : Delta) :
    (w.subtract d).toInt = max (w.toInt - unsigned d) 0 := by
  have hdelta := toNat_toMicroseconds d
  have hw := w.microseconds.toNat_lt
  have hd := d.toMicroseconds.toUInt64.toNat_lt
  rw [subtract, toInt]
  split_ifs with hlt
  · rw [gt_iff_lt, UInt64.lt_iff_toNat_lt, UInt64.toNat_sub] at hlt
    have hzero : (0 : UInt64).toNat = 0 := by decide
    rw [toInt, hzero]
    omega
  · rw [gt_iff_lt, UInt64.lt_iff_toNat_lt, UInt64.toNat_sub] at hlt
    rw [toInt, UInt64.toNat_sub]
    omega

/-- The absolute difference is right for all times. -/
theorem toInt_absoluteDifference (w other : WallTime) :
    (w.absoluteDifference other).toInt = min |w.toInt - other.toInt| (2 ^ 63 - 1) := by
  generalize hd : (if w.microseconds > other.microseconds then
    w.microseconds - other.microseconds else other.microseconds - w.microseconds) = d
  have habs : (d.toNat : ℤ) = |w.toInt - other.toInt| := by
    have hw := w.microseconds.toNat_lt
    have hother := other.microseconds.toNat_lt
    rw [← hd, toInt, toInt]
    split_ifs with hgt
    · rw [gt_iff_lt, UInt64.lt_iff_toNat_lt] at hgt
      rw [UInt64.toNat_sub, abs_of_pos (by omega)]
      omega
    · rw [gt_iff_lt, UInt64.lt_iff_toNat_lt] at hgt
      rw [UInt64.toNat_sub, abs_of_nonpos (by omega)]
      omega
  have hmax : Int64.maxValue.toUInt64.toNat = 2 ^ 63 - 1 := by decide
  rw [← habs, absoluteDifference, hd]
  split_ifs with hgt
  · rw [gt_iff_lt, UInt64.lt_iff_toNat_lt, hmax] at hgt
    have hinf : (Delta.fromMicroseconds Int64.maxValue.toUInt64.toInt64).toInt = 2 ^ 63 - 1 := by
      decide
    rw [hinf]
    omega
  · rw [gt_iff_lt, UInt64.lt_iff_toNat_lt, hmax] at hgt
    have hcond : (Delta.fromMicroseconds d.toInt64).toInt =
        if 2 * d.toNat < 2 ^ 64 then (d.toNat : ℤ) else d.toNat - 2 ^ 64 :=
      BitVec.toInt_eq_toNat_cond _
    rw [hcond, if_pos (by omega)]
    omega

/-! ### Saturation -/

/-- The value of a `WallTime` that is closest to `n`. -/
def clamp (n : ℤ) : ℤ := max 0 (min n (2 ^ 64 - 1))

/-- What the documentation of `WallTime` makes of a delta: the result of the exact computation, or the
end of the range that it passes. -/
structure Saturates (w v : WallTime) (d : Delta) : Prop where
  add : (w.add d).toInt = clamp (w.toInt + d.toInt)
  subtract : (w.subtract d).toInt = clamp (w.toInt - d.toInt)
  absoluteDifference : (w.absoluteDifference v).toInt = min |w.toInt - v.toInt| (2 ^ 63 - 1)
  add_subtract : 0 ≤ w.toInt + d.toInt → w.toInt + d.toInt ≤ 2 ^ 64 - 1 →
    (w.add d).subtract d = w

/-- No negative delta is added right: where the sum is in range it is taken for an overflow, and where
it is below 0 it wraps. -/
theorem add_ne_clamp_of_neg {d : Delta} (hd : d.toInt < 0) (w : WallTime) :
    (w.add d).toInt ≠ clamp (w.toInt + d.toInt) := by
  have hlow : -2 ^ 63 ≤ d.toInt := d.timeOffset.le_toInt
  have hw := w.toInt_lt
  have hpos := w.toInt_nonneg
  rw [toInt_add, unsigned, if_neg (not_le.mpr hd), clamp]
  omega

/-- The arithmetic saturates for the deltas that are not negative, and for no other. -/
theorem saturates_iff (w v : WallTime) (d : Delta) : Saturates w v d ↔ 0 ≤ d.toInt := by
  constructor
  · intro h
    by_contra hneg
    exact add_ne_clamp_of_neg (not_le.mp hneg) w h.add
  · intro hd
    have hw := w.toInt_lt
    have hpos := w.toInt_nonneg
    have hunsigned : unsigned d = d.toInt := if_pos hd
    refine ⟨?_, ?_, toInt_absoluteDifference w v, ?_⟩
    · rw [toInt_add, hunsigned, clamp]
      omega
    · rw [toInt_subtract, hunsigned, clamp]
      omega
    · intro _ hrange
      apply toInt_injective
      rw [toInt_subtract, toInt_add, hunsigned]
      omega

/-- One microsecond less than 10 is taken for the largest time. -/
theorem not_saturates_minus_one :
    ¬ Saturates ⟨10⟩ ⟨10⟩ (Delta.fromMicroseconds (-1)) ∧
      WallTime.add ⟨10⟩ (Delta.fromMicroseconds (-1)) = ⟨UInt64.ofNat (2 ^ 64 - 1)⟩ := by
  refine ⟨fun h => ?_, by decide⟩
  exact absurd h.add (by decide)

end WallTime

end Iomgr
