import Iomgr.ShardQueue
import Iomgr.TimerManagerOperations
import Iomgr.TransitionSystem

/-!
Concurrent `TimerInit`, `TimerCancel` and `TimerCheck` calls, interleaved at their critical
sections. Sections under one mutex do not overlap, so each is one step; the manager's mutex is held
by `TimerCheck` from its lock to its unlock, and keeps the second sections of `TimerInit` out while
shard sections go on. An access with no defined result, such as a timer beyond the size limit of a
heap, is no step.
-/

namespace Iomgr.TimerManager

/-- Where the `TimerCheck` call that holds the manager's mutex is. -/
inductive CheckPhase
  | idle
  | loop (now : Time)
  | popped (now newMinDeadline : Time)
  deriving DecidableEq

/-- The manager and the calls in progress: the `TimerInit` calls between their two sections, and
the `TimerCheck` call. -/
structure System where
  manager : TimerManager
  inits : List PendingInit
  check : CheckPhase

def System.new : System := ⟨TimerManager.new, [], .idle⟩

inductive Action
  | timerInit (t : TimerPtr) (now : Time) (timeout : Time.Delta) (closure : Closure)
  | timerInitPublish (k : Nat)
  | timerCancel (t : TimerPtr)
  | timerCheckLock (now : Time)
  | timerCheckPop
  | timerCheckStore
  | timerCheckUnlock
  deriving DecidableEq

/-- One critical section, or one of the sections of `TimerCheck`'s loop. `Start` is never called on
a controller that is still pending. -/
def step (s : System) : Action → Option System
  | .timerInit t now timeout closure =>
      if (s.manager.timers t).pending then none
      else do
        let (m, init) ← s.manager.timerInitInsert now timeout closure t
        some { s with manager := m, inits := s.inits ++ [init] }
  | .timerInitPublish k =>
      match s.check with
      | .idle => do
          let init ← s.inits[k]?
          let m ← s.manager.timerInitPublish init
          some { s with manager := m, inits := s.inits.eraseIdx k }
      | _ => none
  | .timerCancel t => do
      let m ← s.manager.timerCancel t
      some { s with manager := m }
  | .timerCheckLock now =>
      match s.check with
      | .idle => some { s with check := .loop now }
      | _ => none
  | .timerCheckPop =>
      match s.check with
      | .loop now => do
          let i ← s.manager.shardQueue[0]?
          if (s.manager.shards i).minDeadline ≤ now then do
            let (_, newMinDeadline, m) ← s.manager.popTimers i now
            some { s with manager := m, check := .popped now newMinDeadline }
          else none
      | _ => none
  | .timerCheckStore =>
      match s.check with
      | .popped now newMinDeadline => do
          let i ← s.manager.shardQueue[0]?
          let m ← (s.manager.setMinDeadline i newMinDeadline).onDeadlineChanged i
          some { s with manager := m, check := .loop now }
      | _ => none
  | .timerCheckUnlock =>
      match s.check with
      | .loop now => do
          let i ← s.manager.shardQueue[0]?
          if (s.manager.shards i).minDeadline ≤ now then none else some { s with check := .idle }
      | _ => none

/-! ### Coverage -/

/-- The timer is announced by a `TimerInit` that has yet to enter its second section. -/
def Announced (m : TimerManager) (inits : List PendingInit) (i : ShardId) (x : TimerPtr) : Prop :=
  ∃ init ∈ inits, init.shard = i ∧ init.isFirstTimer = true ∧
    init.deadline ≤ (m.timers x).deadline

/-- Every timer of the shard's heap is at or after `bound`, or announced. -/
def Covered (m : TimerManager) (inits : List PendingInit) (i : ShardId) (bound : Time) : Prop :=
  ∀ x ∈ m.heap i, bound ≤ (m.timers x).deadline ∨ Announced m inits i x

theorem Covered.mono {m : TimerManager} {inits : List PendingInit} {i : ShardId}
    {bound bound' : Time} (h : Covered m inits i bound) (hle : bound' ≤ bound) :
    Covered m inits i bound' := fun x hx => (h x hx).imp_left hle.trans

/-- Coverage only depends on the heap and the deadlines in it. -/
theorem Covered.of_subset {m m' : TimerManager} {inits inits' : List PendingInit} {i : ShardId}
    {bound : Time} (h : Covered m inits i bound) (hheap : ∀ x ∈ m'.heap i, x ∈ m.heap i)
    (hdeadline : ∀ x ∈ m'.heap i, (m'.timers x).deadline = (m.timers x).deadline)
    (hinits : ∀ init ∈ inits, init ∈ inits') : Covered m' inits' i bound := by
  intro x hx
  rw [Announced, hdeadline x hx]
  exact (h x (hheap x hx)).imp_right fun ⟨init, hin, hinit⟩ => ⟨init, hinits init hin, hinit⟩

/-- A started timer is covered like the top it went under, or announced by its own call. -/
theorem Covered.insert {m m' : TimerManager} {inits : List PendingInit} {i : ShardId} {bound : Time}
    {t : TimerPtr} {deadline : Time} {closure : Closure} {init : PendingInit} (hv : m.Valid)
    (h : Covered m inits i bound) (hins : Inserted m t deadline closure m' init) :
    Covered m' (inits ++ [init]) i bound := by
  have hold : ∀ init' ∈ inits, init' ∈ inits ++ [init] := fun _ hin => List.mem_append_left _ hin
  by_cases hi : i = shardOf t
  · subst hi
    intro x hx
    rcases hins.heap x hx with rfl | ⟨hxt, hin⟩
    · rw [Announced, hins.timer.1]
      cases hfirst : init.isFirstTimer with
      | true =>
          exact Or.inr ⟨init, by simp, hins.initShard, hfirst, hins.initDeadline.le⟩
      | false =>
          obtain ⟨root, hroot, hle⟩ := hins.notFirst hfirst hx
          refine (h root hroot).imp hle.trans' fun ⟨init', hin', hshard, hfirst', hle'⟩ => ?_
          exact ⟨init', hold init' hin', hshard, hfirst', hle'.trans hle⟩
    · rw [Announced, (hins.same x hxt).1]
      exact (h x hin).imp_right fun ⟨init', hin', hinit⟩ => ⟨init', hold init' hin', hinit⟩
  · refine h.of_subset (fun x hx => ?_) (fun x hx => ?_) hold
    · rwa [hins.step.heap_of_ne hi] at hx
    · rw [hins.step.heap_of_ne hi] at hx
      rw [hins.step.timers x fun heq => hi (((hv i).shard x (Or.inl hx)).symm.trans heq)]

theorem Covered.cancel {m m' : TimerManager} {inits : List PendingInit} {i : ShardId} {bound : Time}
    {t : TimerPtr} (h : Covered m inits i bound) (hc : Cancelled m t m') :
    Covered m' inits i bound := by
  refine h.of_subset (fun x hx => ?_) (fun x _ => ?_) fun _ hin => hin
  · by_cases hi : i = shardOf t
    · subst hi
      exact hc.heap x hx
    · rwa [hc.step.heap_of_ne hi] at hx
  · by_cases hxt : x = t
    · subst hxt
      exact hc.timer.1
    · exact (hc.same x hxt).1

theorem Reordered.valid {m m' : TimerManager} (h : Reordered m m') (hv : m.Valid) : m'.Valid := by
  intro i
  rw [h.shards i, h.timers]
  exact hv i

theorem Reordered.covered {m m' : TimerManager} {inits : List PendingInit} {i : ShardId}
    {bound : Time} (h : Reordered m m') (hc : Covered m inits i bound) :
    Covered m' inits i bound := by
  have hheap : m'.heap i = m.heap i := by rw [heap, heap, h.shards i]
  refine hc.of_subset (fun x hx => hheap ▸ hx) (fun x _ => by rw [h.timers]) fun _ hin => hin

theorem setMinDeadline_shards_self (m : TimerManager) (i : ShardId) (deadline : Time) :
    (m.setMinDeadline i deadline).shards i = { m.shards i with minDeadline := deadline } := by
  simp [setMinDeadline]

theorem setMinDeadline_shards_of_ne (m : TimerManager) {i j : ShardId} (deadline : Time)
    (h : j ≠ i) : (m.setMinDeadline i deadline).shards j = m.shards j := by
  rw [setMinDeadline, setShard_shards_of_ne m _ h]

theorem setMinDeadline_heap (m : TimerManager) (i j : ShardId) (deadline : Time) :
    (m.setMinDeadline i deadline).heap j = m.heap j := by
  by_cases hj : j = i
  · subst hj
    rw [heap, setMinDeadline_shards_self, heap]
  · rw [heap, setMinDeadline_shards_of_ne m deadline hj, heap]

theorem setMinDeadline_valid {m : TimerManager} (hv : m.Valid) (i : ShardId) (deadline : Time) :
    (m.setMinDeadline i deadline).Valid := by
  intro j
  by_cases hj : j = i
  · subst hj
    rw [setMinDeadline_shards_self]
    exact hv j
  · rw [setMinDeadline_shards_of_ne m deadline hj]
    exact hv j

theorem Covered.setMinDeadline {m : TimerManager} {inits : List PendingInit} {i : ShardId}
    {bound : Time} (h : Covered m inits i bound) (j : ShardId) (deadline : Time) :
    Covered (m.setMinDeadline j deadline) inits i bound :=
  h.of_subset (fun x hx => by rwa [setMinDeadline_heap] at hx) (fun _ _ => rfl) fun _ hin => hin

/-- The invariant of what the manager's mutex and the shards' mutexes protect. -/
structure Tracked (m : TimerManager) (inits : List PendingInit) : Prop where
  valid : m.Valid
  queue : QueueValid m
  covered : ∀ i, Covered m inits i (m.shards i).minDeadline

theorem new_tracked : Tracked new [] :=
  ⟨new_valid, new_queueValid, fun _ _ hx => absurd hx List.not_mem_nil⟩

/-- A step inside a shard leaves the queue as it is. -/
theorem ShardStep.queueValid {m m' : TimerManager} {i : ShardId} (h : ShardStep m i m')
    (hq : QueueValid m) : QueueValid m' := by
  refine ⟨⟨h.queue ▸ hq.indexed.perm, fun k j hk => ?_⟩, ?_⟩
  · rw [h.queue] at hk
    rw [h.queueIndex]
    exact hq.indexed.index k j hk
  · rw [h.queue]
    refine List.Pairwise.imp (fun hle => ?_) hq.sorted
    rwa [h.minDeadline, h.minDeadline]

/-- A new `min_deadline` that covers its shard: the queue is restored and every shard is
covered. -/
theorem setMinDeadline_tracked {m : TimerManager} {inits : List PendingInit} (hv : m.Valid)
    (hq : QueueValid m) {i : ShardId} {deadline : Time} (hi : Covered m inits i deadline)
    (hother : ∀ j, j ≠ i → Covered m inits j (m.shards j).minDeadline) :
    ∃ m', (m.setMinDeadline i deadline).onDeadlineChanged i = some m' ∧ Tracked m' inits ∧
      Reordered (m.setMinDeadline i deadline) m' := by
  obtain ⟨m', hrun, hqueue⟩ := onDeadlineChanged_spec hq i deadline
  have hre := onDeadlineChanged_reordered hrun
  refine ⟨m', hrun, ⟨hre.valid (setMinDeadline_valid hv i deadline), hqueue, fun j => ?_⟩, hre⟩
  rw [hre.minDeadline]
  apply hre.covered
  by_cases hj : j = i
  · subst hj
    rw [setMinDeadline_shards_self]
    exact hi.setMinDeadline j deadline
  · rw [setMinDeadline_shards_of_ne m deadline hj]
    exact (hother j hj).setMinDeadline i deadline

theorem Tracked.insert {m m' : TimerManager} {inits : List PendingInit} {t : TimerPtr}
    {deadline : Time} {closure : Closure} {init : PendingInit} (h : Tracked m inits)
    (hins : Inserted m t deadline closure m' init) : Tracked m' (inits ++ [init]) := by
  refine ⟨hins.step.valid, hins.step.queueValid h.queue, fun i => ?_⟩
  rw [hins.step.minDeadline]
  exact (h.covered i).insert h.valid hins

theorem Tracked.cancel {m m' : TimerManager} {inits : List PendingInit} {t : TimerPtr}
    (h : Tracked m inits) (hc : Cancelled m t m') : Tracked m' inits := by
  refine ⟨hc.step.valid, hc.step.queueValid h.queue, fun i => ?_⟩
  rw [hc.step.minDeadline]
  exact (h.covered i).cancel hc

/-- What leaves the list of calls in flight is covered by its shard's new `min_deadline`. -/
theorem Tracked.publish {m : TimerManager} {inits inits' : List PendingInit} {init : PendingInit}
    (h : Tracked m inits) (hinits : ∀ p ∈ inits, p = init ∨ p ∈ inits') :
    ∃ m', m.timerInitPublish init = some m' ∧ Tracked m' inits' ∧
      (m' = m ∨ Reordered (m.setMinDeadline init.shard init.deadline) m') := by
  -- one call less in flight, for a bound at or before the deadline of a call that announced
  have hless : ∀ i bound, Covered m inits i bound →
      (init.shard = i → init.isFirstTimer = true → bound ≤ init.deadline) →
      Covered m inits' i bound := by
    intro i bound hcov hbound x hx
    rcases hcov x hx with hle | ⟨p, hp, hshard, hfirst, hle⟩
    · exact Or.inl hle
    · rcases hinits p hp with rfl | hp'
      · exact Or.inl ((hbound hshard hfirst).trans hle)
      · exact Or.inr ⟨p, hp', hshard, hfirst, hle⟩
  unfold timerInitPublish
  split_ifs with hcond
  · rw [Bool.and_eq_true, decide_eq_true_eq] at hcond
    obtain ⟨m', hrun, htracked, hre⟩ := setMinDeadline_tracked h.valid h.queue
      (hless init.shard init.deadline ((h.covered init.shard).mono hcond.2.le) fun _ _ => le_refl _)
      fun j hj => hless j _ (h.covered j) fun heq => absurd heq.symm hj
    exact ⟨m', hrun, htracked, Or.inr hre⟩
  · refine ⟨m, rfl, ⟨h.valid, h.queue, fun i => hless i _ (h.covered i) fun hshard hfirst => ?_⟩,
      Or.inl rfl⟩
    subst hshard
    by_contra hlt
    rw [not_le] at hlt
    exact hcond (by simp [hfirst, hlt])

/-! ### Every interleaving -/

/-- After `PopTimers` the value that is about to be stored covers the shard it is stored to, and
the heap has moved past the old one. -/
def PhaseCovered (s : System) : Prop :=
  match s.check with
  | .popped _ newMinDeadline =>
      ∀ i, s.manager.shardQueue[0]? = some i → Covered s.manager s.inits i newMinDeadline
  | _ => True

structure Invariant (s : System) : Prop where
  tracked : Tracked s.manager s.inits
  phase : PhaseCovered s

theorem Expired.covered_of_ne {m m' : TimerManager} {inits : List PendingInit} {i j : ShardId}
    {now bound : Time} {ps : List TimerPtr} (h : Expired m i now ps m') (hj : j ≠ i)
    (hc : Covered m inits j bound) : Covered m' inits j bound :=
  hc.of_subset (fun x hx => by rwa [h.step.heap_of_ne hj] at hx) (fun x _ => h.deadline x)
    fun _ hin => hin

theorem Tracked.expire {m m' : TimerManager} {inits : List PendingInit} {i : ShardId} {now : Time}
    {ps : List TimerPtr} (h : Tracked m inits) (hexp : Expired m i now ps m')
    (hdue : (m.shards i).minDeadline ≤ now)
    (hlater : ∀ x ∈ m'.heap i, now < (m'.timers x).deadline) : Tracked m' inits := by
  refine ⟨hexp.step.valid, hexp.step.queueValid h.queue, fun j => ?_⟩
  rw [hexp.step.minDeadline]
  by_cases hj : j = i
  · subst hj
    exact fun x hx => Or.inl (hdue.trans (hlater x hx).le)
  · exact hexp.covered_of_ne hj (h.covered j)

theorem timerInit_step {s s' : System} {t : TimerPtr} {now : Time} {timeout : Time.Delta}
    {closure : Closure} (h : Invariant s) (hstep : step s (.timerInit t now timeout closure) = some s') :
    Invariant s' := by
  simp only [step] at hstep
  split_ifs at hstep with hpending
  obtain ⟨⟨m, init⟩, hrun, heq⟩ := Option.bind_eq_some_iff.mp hstep
  cases heq
  have hins := timerInitInsert_spec h.tracked.valid (Bool.not_eq_true _ ▸ hpending) hrun
  refine ⟨h.tracked.insert hins, ?_⟩
  have hphase := h.phase
  unfold PhaseCovered at hphase ⊢
  dsimp only
  cases hcheck : s.check with
  | popped now' newMin =>
      rw [hcheck] at hphase
      intro i hi
      rw [hins.step.queue] at hi
      exact (hphase i hi).insert h.tracked.valid hins
  | _ => trivial

theorem timerCancel_step {s s' : System} {t : TimerPtr} (h : Invariant s)
    (hstep : step s (.timerCancel t) = some s') : Invariant s' := by
  obtain ⟨m, hrun, hc⟩ := timerCancel_spec h.tracked.valid t
  simp only [step, hrun, Option.bind_eq_bind, Option.bind_some, Option.some.injEq] at hstep
  subst hstep
  refine ⟨h.tracked.cancel hc, ?_⟩
  have hphase := h.phase
  unfold PhaseCovered at hphase ⊢
  dsimp only
  cases hcheck : s.check with
  | popped now' newMin =>
      rw [hcheck] at hphase
      intro i hi
      rw [hc.step.queue] at hi
      exact (hphase i hi).cancel hc
  | _ => trivial

theorem timerInitPublish_step {s s' : System} {k : Nat} (h : Invariant s)
    (hstep : step s (.timerInitPublish k) = some s') : Invariant s' := by
  simp only [step] at hstep
  split at hstep
  · next hcheck =>
      obtain ⟨init, hk, hrest⟩ := Option.bind_eq_some_iff.mp hstep
      obtain ⟨hlt, rfl⟩ := List.getElem?_eq_some_iff.mp hk
      have hinits : ∀ p ∈ s.inits, p = s.inits[k] ∨ p ∈ s.inits.eraseIdx k := fun p hp =>
        List.mem_cons.mp ((List.getElem_cons_eraseIdx_perm hlt).mem_iff.mpr hp)
      obtain ⟨m, hrun, htracked, -⟩ := h.tracked.publish hinits
      rw [hrun] at hrest
      cases hrest
      refine ⟨htracked, ?_⟩
      simp only [PhaseCovered, hcheck]
  · cases hstep

theorem timerCheckPop_step {s s' : System} (h : Invariant s)
    (hstep : step s .timerCheckPop = some s') : Invariant s' := by
  simp only [step] at hstep
  split at hstep
  · next now hcheck =>
      obtain ⟨i, hi, hrest⟩ := Option.bind_eq_some_iff.mp hstep
      split_ifs at hrest with hdue
      obtain ⟨⟨n, newMin, m⟩, hrun, heq⟩ := Option.bind_eq_some_iff.mp hrest
      cases heq
      obtain ⟨ps, hexp, -, rfl, -, hlater⟩ := (popTimers_spec h.tracked.valid i now).2 n newMin m hrun
      refine ⟨h.tracked.expire hexp hdue hlater, fun j hj => ?_⟩
      dsimp only at hj
      rw [hexp.step.queue, hi] at hj
      cases hj
      exact fun x hx => Or.inl ((computeMinDeadline_spec hexp.step.valid i).1 x hx)
  · cases hstep

theorem timerCheckStore_step {s s' : System} (h : Invariant s)
    (hstep : step s .timerCheckStore = some s') : Invariant s' := by
  simp only [step] at hstep
  split at hstep
  · next now newMin hcheck =>
      obtain ⟨i, hi, hrest⟩ := Option.bind_eq_some_iff.mp hstep
      have hphase := h.phase
      rw [PhaseCovered, hcheck] at hphase
      obtain ⟨m, hrun, htracked, -⟩ := setMinDeadline_tracked h.tracked.valid h.tracked.queue
        (hphase i hi) fun j _ => h.tracked.covered j
      rw [hrun] at hrest
      cases hrest
      exact ⟨htracked, trivial⟩
  · cases hstep

theorem new_invariant : Invariant System.new := ⟨new_tracked, trivial⟩

theorem step_invariant (s : System) (a : Action) (s' : System) (h : Invariant s)
    (hstep : step s a = some s') : Invariant s' := by
  cases a with
  | timerInit t now timeout closure => exact timerInit_step h hstep
  | timerInitPublish k => exact timerInitPublish_step h hstep
  | timerCancel t => exact timerCancel_step h hstep
  | timerCheckLock now =>
      simp only [step] at hstep
      split at hstep
      · cases hstep
        exact ⟨h.tracked, trivial⟩
      · cases hstep
  | timerCheckPop => exact timerCheckPop_step h hstep
  | timerCheckStore => exact timerCheckStore_step h hstep
  | timerCheckUnlock =>
      simp only [step] at hstep
      split at hstep
      · obtain ⟨i, -, hrest⟩ := Option.bind_eq_some_iff.mp hstep
        split_ifs at hrest
        cases hrest
        exact ⟨h.tracked, trivial⟩
      · cases hstep

/-- No timer is lost: in every state of every interleaving the top of a heap is at or after the
shard's `min_deadline`, or a `TimerInit` on its way to the manager's mutex announces a deadline at
or before the top's. When none is on its way, `min_deadline` bounds every timer of the heap. -/
theorem no_timer_lost {actions : List Action} {s : System}
    (hrun : Transition.run step System.new actions = some s) :
    (∀ i top, (s.manager.shards i).urgentTimers.top = some top →
      (s.manager.shards i).minDeadline ≤ (s.manager.timers top).deadline ∨
      ∃ init ∈ s.inits, init.shard = i ∧ init.isFirstTimer = true ∧
        init.deadline ≤ (s.manager.timers top).deadline) ∧
    (s.inits = [] → ∀ i, ∀ x ∈ (s.manager.shards i).urgentTimers.timers,
      (s.manager.shards i).minDeadline ≤ (s.manager.timers x).deadline) := by
  have hinv : Invariant s := Transition.run_invariant step_invariant new_invariant hrun
  refine ⟨fun i top htop => hinv.tracked.covered i top (TimerHeap.top_mem htop),
    fun hnone i x hx => ?_⟩
  refine (hinv.tracked.covered i x hx).resolve_right ?_
  rintro ⟨init, hin, -⟩
  rw [hnone] at hin
  exact absurd hin List.not_mem_nil

/-- Two timers on one shard: the second is earlier, and has not yet lowered `min_deadline`. -/
theorem no_timer_lost_two_starts :
    ∃ s, Transition.run step System.new
        [.timerInit 4096 ⟨0⟩ ⟨20⟩ (some 1), .timerInitPublish 0, .timerInit 4224 ⟨0⟩ ⟨10⟩ (some 2)] =
          some s ∧
      (∀ i top, (s.manager.shards i).urgentTimers.top = some top →
        (s.manager.shards i).minDeadline ≤ (s.manager.timers top).deadline ∨
        ∃ init ∈ s.inits, init.shard = i ∧ init.isFirstTimer = true ∧
          init.deadline ≤ (s.manager.timers top).deadline) := by
  obtain ⟨s, hs⟩ : ∃ s, Transition.run step System.new
      [.timerInit 4096 ⟨0⟩ ⟨20⟩ (some 1), .timerInitPublish 0, .timerInit 4224 ⟨0⟩ ⟨10⟩ (some 2)] =
        some s := ⟨_, rfl⟩
  exact ⟨s, hs, (no_timer_lost hs).1⟩

end Iomgr.TimerManager
