import Iomgr.BinaryHeap
import Iomgr.Time

/-!
The addressable binary heap of pending timers. The heap stores pointers; a timer's position in the
array is kept in the timer itself (`heap_index_`), so every operation also updates the timers. An
array access out of range, and the signed overflow in the parent index of position `2^31`, have no
defined result: they are `none`.
-/

namespace Iomgr

/-- The address of a timer. A timer is a member of its controller, so the address also names the
controller. -/
abbrev TimerPtr := UInt64

/-- A `std::function<void()>`: empty, or the code it runs. -/
abbrev Closure := Option Nat

/-- The index of a timer that is in no heap. -/
def kInvalidIndex : Nat := 0xffffffff

structure Timer where
  deadline : Time
  pending : Bool
  heapIndex : Nat
  closure : Closure
  deriving DecidableEq

def Timer.new : Timer where
  deadline := Time.zero
  pending := false
  heapIndex := kInvalidIndex
  closure := none

/-- The timers in memory. -/
abbrev Timers := TimerPtr → Timer

def setHeapIndex (mem : Timers) (t : TimerPtr) (i : Nat) : Timers :=
  Function.update mem t { mem t with heapIndex := i }

/-- `timers_[i] = x`. -/
def store {α : Type} (l : List α) (i : Nat) (x : α) : Option (List α) :=
  if i < l.length then some (l.set i x) else none

/-- The `std::vector` of a heap: its elements and its capacity. -/
structure TimerHeap where
  timers : List TimerPtr
  capacity : Nat
  deriving DecidableEq

namespace TimerHeap

def new : TimerHeap := ⟨[], 0⟩

def timerCount (h : TimerHeap) : Nat := h.timers.length

def empty (h : TimerHeap) : Bool := h.timers.isEmpty

/-- `push_back`: a full vector doubles its capacity. -/
def pushBack (h : TimerHeap) (t : TimerPtr) : TimerHeap where
  timers := h.timers ++ [t]
  capacity := if h.timers.length < h.capacity then h.capacity else max 1 (2 * h.capacity)

/-- `static_cast<uint32_t>((static_cast<int>(i) - 1) / 2)`. -/
def parentIndex (i : Nat) : Option Nat :=
  let n : Int := Int.bmod i (2 ^ 32)
  if n = -2 ^ 31 then none else some ((n - 1).tdiv 2 % 2 ^ 32).toNat

/-- The two stores after the loop of either adjustment. -/
def place (t : TimerPtr) (i : Nat) (timers : List TimerPtr) (mem : Timers) :
    Option (List TimerPtr × Timers) := do
  let timers ← store timers i t
  some (timers, setHeapIndex mem t i)

def adjustUpwardsLoop (t : TimerPtr) :
    Nat → Nat → List TimerPtr → Timers → Option (List TimerPtr × Timers)
  | 0, _, _, _ => none
  | fuel + 1, i, timers, mem =>
      if i > 0 then do
        let parent ← parentIndex i
        let p ← timers[parent]?
        if (mem p).deadline ≤ (mem t).deadline then place t i timers mem
        else do
          let timers ← store timers i p
          adjustUpwardsLoop t fuel parent timers (setHeapIndex mem p i)
      else place t i timers mem

/-- The index falls in every round, so `i + 1` rounds are enough. -/
def adjustUpwards (i : Nat) (timers : List TimerPtr) (mem : Timers) :
    Option (List TimerPtr × Timers) := do
  let t ← timers[i]?
  adjustUpwardsLoop t (i + 1) i timers mem

/-- The child of the hole that moves up if any does. -/
def nextIndex (left : Nat) (timers : List TimerPtr) (mem : Timers) : Option Nat :=
  let right := (left + 1) % 2 ^ 32
  if right < timers.length then do
    let l ← timers[left]?
    let r ← timers[right]?
    some (if (mem l).deadline > (mem r).deadline then right else left)
  else some left

def adjustDownwardsLoop (t : TimerPtr) :
    Nat → Nat → List TimerPtr → Timers → Option (List TimerPtr × Timers)
  | 0, _, _, _ => none
  | fuel + 1, i, timers, mem =>
      let left := (1 + 2 * i) % 2 ^ 32
      if left ≥ timers.length then place t i timers mem
      else do
        let next ← nextIndex left timers mem
        let n ← timers[next]?
        if (mem t).deadline ≤ (mem n).deadline then place t i timers mem
        else do
          let timers ← store timers i n
          adjustDownwardsLoop t fuel next timers (setHeapIndex mem n i)

/-- The index grows in every round and stays below the length. -/
def adjustDownwards (i : Nat) (timers : List TimerPtr) (mem : Timers) :
    Option (List TimerPtr × Timers) := do
  let t ← timers[i]?
  adjustDownwardsLoop t (timers.length - i) i timers mem

def kShrinkMinElems : Nat := 8

def kShrinkFullnessFactor : Nat := 2

/-- Moves the elements to a smaller vector when most of this one is unused. -/
def maybeShrink (h : TimerHeap) : TimerHeap :=
  if h.timerCount ≥ kShrinkMinElems ∧ h.timerCount ≤ h.capacity / kShrinkFullnessFactor / 2 then
    { timers := h.timers, capacity := h.timerCount * kShrinkFullnessFactor }
  else h

/-- Adds a timer. True iff it is the first timer of the heap. -/
def add (h : TimerHeap) (mem : Timers) (t : TimerPtr) : Option (Bool × TimerHeap × Timers) := do
  let mem := setHeapIndex mem t (h.timerCount % 2 ^ 32)
  let h := h.pushBack t
  let (timers, mem) ← adjustUpwards (mem t).heapIndex h.timers mem
  some ((mem t).heapIndex == 0, { h with timers := timers }, mem)

def remove (h : TimerHeap) (mem : Timers) (t : TimerPtr) : Option (TimerHeap × Timers) := do
  let i := (mem t).heapIndex
  if i + 1 = h.timerCount then
    some (maybeShrink { h with timers := h.timers.dropLast }, mem)
  else do
    let last ← h.timers[h.timerCount - 1]?
    let timers ← store h.timers i last
    let mem := setHeapIndex mem last i
    let timers := timers.dropLast
    let parent ← parentIndex i
    let p ← timers[parent]?
    let x ← timers[i]?
    let (timers, mem) ←
      if (mem p).deadline > (mem x).deadline then adjustUpwards i timers mem
      else adjustDownwards i timers mem
    some (maybeShrink { h with timers := timers }, mem)

def top (h : TimerHeap) : Option TimerPtr := h.timers[0]?

def pop (h : TimerHeap) (mem : Timers) : Option (TimerHeap × Timers) := do
  let t ← h.top
  h.remove mem t

def contains (h : TimerHeap) (t : TimerPtr) : Bool := h.timers.any (· == t)

/-- The comparison of `CheckValid` for one child; a position behind the end is no child. -/
def childInOrder (h : TimerHeap) (mem : Timers) (i child : Nat) : Bool :=
  match h.timers[i]?, h.timers[child]? with
  | some t, some c => !decide ((mem t).deadline > (mem c).deadline)
  | _, _ => true

def checkValid (h : TimerHeap) (mem : Timers) : Bool :=
  (List.range h.timerCount).all fun i =>
    h.childInOrder mem i (1 + 2 * i) && h.childInOrder mem i (1 + 2 * i + 1)

end TimerHeap

end Iomgr
