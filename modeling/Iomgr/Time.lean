import Mathlib.Algebra.Ring.Int.Defs
import Mathlib.Algebra.Ring.Nat
import Mathlib.Data.Int.Order.Basic
import Mathlib.Order.Lattice
import Mathlib.Tactic.Common

/-!
Points of the monotonic clock and differences of them, both a signed 64-bit number of microseconds
whose largest value stands for "infinite". Arithmetic wraps as the machine's does; the lemmas below
say when it does not.
-/

namespace Iomgr

/-- A point in time, `time_` microseconds on the monotonic clock. -/
structure Time where
  time : Int64
  deriving DecidableEq, Repr

/-- The signed difference between two points in time. -/
structure Time.Delta where
  timeOffset : Int64
  deriving DecidableEq, Repr

namespace Time

/-- The number of microseconds as an integer. -/
def toInt (t : Time) : Int := t.time.toInt

theorem toInt_injective : Function.Injective toInt := by
  rintro ⟨a⟩ ⟨b⟩ h
  exact congrArg Time.mk (Int64.toInt_inj.mp h)

instance : LinearOrder Time := LinearOrder.lift' toInt toInt_injective

theorem le_iff {a b : Time} : a ≤ b ↔ a.toInt ≤ b.toInt := Iff.rfl

theorem lt_iff {a b : Time} : a < b ↔ a.toInt < b.toInt := Iff.rfl

/-- `kInfiniteTimeUs`. -/
def kInfiniteTimeUs : Int64 := Int64.maxValue

def zero : Time := ⟨0⟩

def infinite : Time := ⟨kInfiniteTimeUs⟩

def isInfinite (t : Time) : Bool := t.time == kInfiniteTimeUs

theorem toInt_infinite : infinite.toInt = 2 ^ 63 - 1 := by decide

theorem toInt_zero : zero.toInt = 0 := by decide

theorem toInt_lt (t : Time) : t.toInt < 2 ^ 63 := t.time.toInt_lt

theorem le_toInt (t : Time) : -2 ^ 63 ≤ t.toInt := t.time.le_toInt

theorem le_infinite (t : Time) : t ≤ infinite := by
  rw [le_iff, toInt_infinite]
  have := t.toInt_lt
  omega

@[simp] theorem isInfinite_iff {t : Time} : t.isInfinite = true ↔ t = infinite := by
  rcases t with ⟨time⟩
  simp [isInfinite, infinite]

namespace Delta

def toInt (d : Delta) : Int := d.timeOffset.toInt

theorem toInt_injective : Function.Injective toInt := by
  rintro ⟨a⟩ ⟨b⟩ h
  exact congrArg Delta.mk (Int64.toInt_inj.mp h)

instance : LinearOrder Delta := LinearOrder.lift' toInt toInt_injective

theorem le_iff {a b : Delta} : a ≤ b ↔ a.toInt ≤ b.toInt := Iff.rfl

theorem lt_iff {a b : Delta} : a < b ↔ a.toInt < b.toInt := Iff.rfl

def zero : Delta := ⟨0⟩

def infinite : Delta := ⟨kInfiniteTimeUs⟩

def isInfinite (d : Delta) : Bool := d.timeOffset == kInfiniteTimeUs

def fromMilliseconds (ms : Int64) : Delta := ⟨ms * 1000⟩

def toSeconds (d : Delta) : Int64 := d.timeOffset / 1000 / 1000

theorem toInt_infinite : infinite.toInt = 2 ^ 63 - 1 := by decide

theorem toInt_zero : zero.toInt = 0 := by decide

@[simp] theorem isInfinite_iff {d : Delta} : d.isInfinite = true ↔ d = infinite := by
  rcases d with ⟨offset⟩
  simp [isInfinite, infinite]

end Delta

/-- `operator+(Time, Time::Delta)`. -/
def add (t : Time) (d : Delta) : Time := ⟨t.time + d.timeOffset⟩

/-- `operator-(Time, Time)`. -/
def sub (a b : Time) : Delta := ⟨a.time - b.time⟩

/-- A sum in the range of `int64_t` does not wrap. -/
theorem toInt_add_of_bounds {t : Time} {d : Delta} (hlow : -2 ^ 63 ≤ t.toInt + d.toInt)
    (hhigh : t.toInt + d.toInt < 2 ^ 63) : (t.add d).toInt = t.toInt + d.toInt := by
  have hadd : (t.add d).toInt = (t.toInt + d.toInt).bmod (2 ^ 64) := by
    simp only [add, Delta.toInt, toInt, Int64.toInt_add]
  rw [hadd, Int.bmod_eq_of_le] <;> omega

theorem toInt_sub (a b : Time) : (a.sub b).toInt = (a.toInt - b.toInt).bmod (2 ^ 64) := by
  simp only [sub, Delta.toInt, toInt, Int64.toInt_sub]

/-- The difference to a later time does not wrap when the earlier one is not negative. -/
theorem toInt_sub_of_nonneg {a b : Time} (hb : zero ≤ b) (hab : b ≤ a) :
    (a.sub b).toInt = a.toInt - b.toInt := by
  rw [le_iff, toInt_zero] at hb
  rw [le_iff] at hab
  have ha := a.toInt_lt
  rw [toInt_sub, Int.bmod_eq_of_le] <;> omega

end Time

end Iomgr
