import Iomgr.AveragedStats
import Iomgr.Binary64
import Iomgr.TimerHeap
import Mathlib.Algebra.Order.Floor.Defs
import Mathlib.Data.Rat.Floor

/-!
The timer manager: eight shards, each a heap of urgent timers and a list of less urgent ones, and
a queue of the shards sorted by `min_deadline`. `TimerInit` is two critical sections, the shard's
and the manager's, and is given as two functions; `TimerCheck` is one critical section of the
manager with one section of a shard in each round. The clock readings are arguments. Waking the
poll thread has no effect on this state and is left out.
-/

namespace Iomgr

/-- `NUM_SHARDS`. -/
def numShards : Nat := 8

abbrev ShardId := Fin 8

/-- `PointerHash<Timer*>`. -/
def pointerHash (p : TimerPtr) : UInt64 := (p >>> 4) ^^^ (p >>> 9) ^^^ (p >>> 14)

/-- The shard of a timer, `PointerHash(timer) & SHARD_MASK`. -/
def shardOf (t : TimerPtr) : ShardId :=
  ⟨(pointerHash t &&& 7).toNat, by
    have h : (pointerHash t &&& 7).toNat ≤ 7 := by
      rw [UInt64.toNat_and]
      exact Nat.and_le_right
    omega⟩

structure TimerShard where
  stats : AveragedStats
  heapCapacity : Time
  minDeadline : Time
  shardQueueIndex : Nat
  urgentTimers : TimerHeap
  lessUrgentTimers : List TimerPtr

/-- The manager with what it reaches: the timers, the task each controller's last expiry was
posted as (`scheduled_`), and the closures posted to the task runner, in order. -/
structure TimerManager where
  shards : ShardId → TimerShard
  shardQueue : List ShardId
  timers : Timers
  scheduled : TimerPtr → Option Nat
  tasks : List Closure

/-- A `TimerInit` between its two critical sections: its local variables. -/
structure PendingInit where
  shard : ShardId
  deadline : Time
  isFirstTimer : Bool
  deriving DecidableEq

namespace TimerManager

/-- `ADD_DEADLINE_SCALE`, the double next to 0.33. -/
def addDeadlineScale : ℚ := Binary64.round (33 / 100)

/-- `MIN_QUEUE_WINDOW_DURATION`, the double next to 0.01. -/
def minQueueWindowDuration : ℚ := Binary64.round (1 / 100)

/-- `MAX_QUEUE_WINDOW_DURATION`. -/
def maxQueueWindowDuration : ℚ := 1

def new : TimerManager where
  shards i :=
    { stats := AveragedStats.new (Binary64.round (1 / addDeadlineScale)) (Binary64.round (1 / 10))
        (1 / 2)
      heapCapacity := Time.infinite
      minDeadline := Time.infinite
      shardQueueIndex := i
      urgentTimers := TimerHeap.new
      lessUrgentTimers := [] }
  shardQueue := List.finRange 8
  timers _ := Timer.new
  scheduled _ := none
  tasks := []

def setShard (m : TimerManager) (i : ShardId) (shard : TimerShard) : TimerManager :=
  { m with shards := Function.update m.shards i shard }

def setMinDeadline (m : TimerManager) (i : ShardId) (deadline : Time) : TimerManager :=
  m.setShard i { m.shards i with minDeadline := deadline }

def setShardQueueIndex (m : TimerManager) (i : ShardId) (index : Nat) : TimerManager :=
  m.setShard i { m.shards i with shardQueueIndex := index }

/-! ### The shard queue -/

def swapAdjacentShardsInQueue (m : TimerManager) (first : Nat) : Option TimerManager := do
  let tmp ← m.shardQueue[first]?
  let next ← m.shardQueue[first + 1]?
  let queue ← store m.shardQueue first next
  let queue ← store queue (first + 1) tmp
  let m := { m with shardQueue := queue }
  some ((m.setShardQueueIndex next first).setShardQueueIndex tmp (first + 1))

/-- The first loop of `OnDeadlineChanged`. -/
def moveForward (i : ShardId) : Nat → TimerManager → Option TimerManager
  | 0, _ => none
  | fuel + 1, m =>
      let index := (m.shards i).shardQueueIndex
      if index > 0 then do
        let before ← m.shardQueue[index - 1]?
        if (m.shards i).minDeadline < (m.shards before).minDeadline then do
          let m ← m.swapAdjacentShardsInQueue (index - 1)
          moveForward i fuel m
        else some m
      else some m

/-- The second loop of `OnDeadlineChanged`. -/
def moveBackward (i : ShardId) : Nat → TimerManager → Option TimerManager
  | 0, _ => none
  | fuel + 1, m =>
      let index := (m.shards i).shardQueueIndex
      if index < numShards - 1 then do
        let after ← m.shardQueue[index + 1]?
        if (m.shards i).minDeadline > (m.shards after).minDeadline then do
          let m ← m.swapAdjacentShardsInQueue index
          moveBackward i fuel m
        else some m
      else some m

/-- Each loop moves the shard one place per round, so `numShards` rounds are enough. -/
def onDeadlineChanged (m : TimerManager) (i : ShardId) : Option TimerManager := do
  let m ← moveForward i numShards m
  moveBackward i numShards m

/-! ### Starting and cancelling a timer -/

/-- The section of `TimerInit` under the shard's mutex, with the clock reading before it. -/
def timerInitInsert (m : TimerManager) (now : Time) (timeout : Time.Delta) (closure : Closure)
    (t : TimerPtr) : Option (TimerManager × PendingInit) := do
  let deadline := now.add timeout
  let i := shardOf t
  let mem := Function.update m.timers t
    { m.timers t with deadline := deadline, pending := true, closure := closure }
  let seconds := Binary64.round timeout.toSeconds.toInt
  let shard : TimerShard :=
    { m.shards i with stats := (m.shards i).stats.addSampleWith Binary64.round seconds }
  if deadline < shard.heapCapacity then do
    let (isFirstTimer, heap, mem) ← shard.urgentTimers.add mem t
    some ({ m with timers := mem }.setShard i { shard with urgentTimers := heap },
      ⟨i, deadline, isFirstTimer⟩)
  else
    some ({ m with timers := setHeapIndex mem t kInvalidIndex }.setShard i
      { shard with lessUrgentTimers := t :: shard.lessUrgentTimers }, ⟨i, deadline, false⟩)

/-- The section of `TimerInit` under the manager's mutex. -/
def timerInitPublish (m : TimerManager) (init : PendingInit) : Option TimerManager :=
  if init.isFirstTimer && init.deadline < (m.shards init.shard).minDeadline then
    (m.setMinDeadline init.shard init.deadline).onDeadlineChanged init.shard
  else some m

/-- A whole `TimerInit` call. -/
def timerInit (m : TimerManager) (now : Time) (timeout : Time.Delta) (closure : Closure)
    (t : TimerPtr) : Option TimerManager := do
  let (m, init) ← m.timerInitInsert now timeout closure t
  m.timerInitPublish init

/-- `LIST_REMOVE`; undefined for a timer that is in no list. -/
def listRemove (l : List TimerPtr) (t : TimerPtr) : Option (List TimerPtr) :=
  if t ∈ l then some (l.erase t) else none

def timerCancel (m : TimerManager) (t : TimerPtr) : Option TimerManager := do
  let i := shardOf t
  let shard := m.shards i
  if !(m.timers t).pending then some m
  else
    let mem := Function.update m.timers t { m.timers t with pending := false }
    let scheduled := Function.update m.scheduled t none
    if (mem t).heapIndex = kInvalidIndex then do
      let list ← listRemove shard.lessUrgentTimers t
      some ({ m with timers := mem, scheduled := scheduled }.setShard i
        { shard with lessUrgentTimers := list })
    else do
      let (heap, mem) ← shard.urgentTimers.remove mem t
      some ({ m with timers := mem, scheduled := scheduled }.setShard i
        { shard with urgentTimers := heap })

/-! ### Expiring timers -/

def clamp (val min max : ℚ) : ℚ := if val < min then min else if val > max then max else val

/-- The loop of `RefillHeap`: timers below the new capacity go to the heap, the others stay. -/
def moveToHeap (capacity : Time) :
    List TimerPtr → TimerHeap → Timers → Option (List TimerPtr × TimerHeap × Timers)
  | [], heap, mem => some ([], heap, mem)
  | t :: rest, heap, mem =>
      if (mem t).deadline < capacity then do
        let (_, heap, mem) ← heap.add mem t
        moveToHeap capacity rest heap mem
      else do
        let (kept, heap, mem) ← moveToHeap capacity rest heap mem
        some (t :: kept, heap, mem)

/-- The width of the window that `RefillHeap` opens: the average timeout, scaled, within its limits
and cut to whole milliseconds. Every operation on doubles is rounded. -/
def queueWindow (shard : TimerShard) : Time.Delta :=
  let average := (shard.stats.updateAverageWith Binary64.round).1
  let computedDeadlineDelta := Binary64.round (average * addDeadlineScale)
  let deadlineDelta := clamp computedDeadlineDelta minQueueWindowDuration maxQueueWindowDuration
  Time.Delta.fromMilliseconds (Int64.ofInt ⌊Binary64.round (deadlineDelta * 1000)⌋)

def newHeapCapacity (shard : TimerShard) (now : Time) : Time :=
  (max now shard.heapCapacity).add (queueWindow shard)

/-- True iff the heap has at least one element afterwards. -/
def refillHeap (m : TimerManager) (i : ShardId) (now : Time) : Option (Bool × TimerManager) := do
  let shard := m.shards i
  let capacity := newHeapCapacity shard now
  let (list, heap, mem) ← moveToHeap capacity shard.lessUrgentTimers shard.urgentTimers m.timers
  some (!heap.empty, { m with timers := mem }.setShard i
    { shard with
      stats := (shard.stats.updateAverageWith Binary64.round).2
      heapCapacity := capacity
      urgentTimers := heap
      lessUrgentTimers := list })

/-- The end of `PopOne`, on a heap that is not empty. -/
def popTop (m : TimerManager) (i : ShardId) (now : Time) :
    Option (Option TimerPtr × TimerManager) := do
  let shard := m.shards i
  let t ← shard.urgentTimers.top
  if (m.timers t).deadline > now then some (none, m)
  else do
    let mem := Function.update m.timers t { m.timers t with pending := false }
    let (heap, mem) ← shard.urgentTimers.pop mem
    some (some t, { m with timers := mem }.setShard i { shard with urgentTimers := heap })

def popOne (m : TimerManager) (i : ShardId) (now : Time) :
    Option (Option TimerPtr × TimerManager) := do
  if (m.shards i).urgentTimers.empty then
    if now < (m.shards i).heapCapacity then some (none, m)
    else
      let (nonempty, m) ← m.refillHeap i now
      if nonempty then m.popTop i now else some (none, m)
  else m.popTop i now

/-- `PostTask(timer->closure_)`, the handle kept in the timer's controller. -/
def postTimer (m : TimerManager) (t : TimerPtr) : TimerManager :=
  { m with
    scheduled := Function.update m.scheduled t (some m.tasks.length)
    tasks := m.tasks ++ [(m.timers t).closure] }

def popTimersLoop (i : ShardId) (now : Time) : Nat → TimerManager → Option (Nat × TimerManager)
  | 0, _ => none
  | fuel + 1, m => do
      let (timer, m) ← m.popOne i now
      match timer with
      | none => some (0, m)
      | some t =>
          let (n, m) ← popTimersLoop i now fuel (m.postTimer t)
          some (n + 1, m)

def computeMinDeadline (m : TimerManager) (i : ShardId) : Time :=
  match (m.shards i).urgentTimers.top with
  | none => Time.infinite
  | some t => (m.timers t).deadline

/-- Every round of the loop takes a timer out of the shard. Returns the number of expired timers
and the shard's next deadline. -/
def popTimers (m : TimerManager) (i : ShardId) (now : Time) : Option (Nat × Time × TimerManager) := do
  let shard := m.shards i
  let fuel := shard.urgentTimers.timerCount + shard.lessUrgentTimers.length + 1
  let (n, m) ← popTimersLoop i now fuel m
  some (n, m.computeMinDeadline i, m)

def timerCheckLoop (now : Time) : Nat → TimerManager → Option TimerManager
  | 0, _ => none
  | fuel + 1, m => do
      let i ← m.shardQueue[0]?
      if (m.shards i).minDeadline ≤ now then do
        let (_, newMinDeadline, m) ← m.popTimers i now
        let m ← (m.setMinDeadline i newMinDeadline).onDeadlineChanged i
        timerCheckLoop now fuel m
      else some m

/-- A whole `TimerCheck` call, when its loop ends within `fuel` rounds. -/
def timerCheck (fuel : Nat) (now : Time) (m : TimerManager) : Option (Time.Delta × TimerManager) := do
  let m ← timerCheckLoop now fuel m
  let i ← m.shardQueue[0]?
  let minDeadline := (m.shards i).minDeadline
  some (if !minDeadline.isInfinite then minDeadline.sub now else Time.Delta.infinite, m)

end TimerManager

end Iomgr
