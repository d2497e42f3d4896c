import Iomgr.TimerRearm

/-!
The window of a shard. Every `heap_capacity` starts at the value that stands for "infinite" and only
`RefillHeap` changes it, which `PopOne` calls once the clock has reached it. As long as the clock is
below that value and no timer is started while it is pending, no interleaving of calls refills a
heap: the windows stay as they are, so a list holds no timer but those with an infinite deadline.
-/

namespace Iomgr.TimerManager

/-- No shard has been refilled. -/
structure Unrefilled (m : TimerManager) : Prop where
  capacity : ∀ i, (m.shards i).heapCapacity = Time.infinite
  list : ∀ i, ∀ x ∈ m.list i, (m.timers x).deadline = Time.infinite

theorem new_unrefilled : Unrefilled new :=
  ⟨fun _ => rfl, fun _ _ hx => absurd hx List.not_mem_nil⟩

/-- A pending timer is in the heap of its shard, unless its deadline is infinite. -/
theorem Unrefilled.mem_heap {m : TimerManager} (h : Unrefilled m) (hv : m.Valid) {x : TimerPtr}
    (hx : (m.timers x).pending = true) (hfinite : (m.timers x).deadline < Time.infinite) :
    x ∈ m.heap (shardOf x) := by
  refine (((hv (shardOf x)).pending x rfl).mp hx).resolve_right fun hl => ?_
  exact absurd (h.list (shardOf x) x hl) hfinite.ne

/-- The only timer that `TimerInit` puts on a list is the one it starts, when its deadline is not
below the window. -/
theorem timerInitInsert_list {m m' : TimerManager} {now : Time} {timeout : Time.Delta}
    {closure : Closure} {t : TimerPtr} {init : PendingInit}
    (hrun : m.timerInitInsert now timeout closure t = some (m', init)) :
    ∀ x ∈ m'.list (shardOf t), x ∈ m.list (shardOf t) ∨
      x = t ∧ (m.shards (shardOf t)).heapCapacity ≤ now.add timeout := by
  intro x hx
  simp only [timerInitInsert] at hrun
  split_ifs at hrun with hcap
  · simp only [Option.bind_eq_bind, Option.bind_eq_some_iff, Option.some.injEq,
      Prod.mk.injEq] at hrun
    obtain ⟨⟨first, h', mem'⟩, -, rfl, -⟩ := hrun
    rw [list, setShard_shards_self] at hx
    exact Or.inl hx
  · simp only [Option.some.injEq, Prod.mk.injEq] at hrun
    obtain ⟨rfl, -⟩ := hrun
    rw [list, setShard_shards_self] at hx
    rcases List.mem_cons.mp hx with rfl | hin
    · exact Or.inr ⟨rfl, not_lt.mp hcap⟩
    · exact Or.inl hin

/-- What is on a list is pending. -/
theorem Valid.pending_of_mem_list {m : TimerManager} (hv : m.Valid) {i : ShardId} {x : TimerPtr}
    (hx : x ∈ m.list i) : (m.timers x).pending = true :=
  ((hv i).pending x ((hv i).shard x (Or.inr hx))).mpr (Or.inr hx)

/-- A step inside one shard that keeps its window, for what may have come to its list. -/
theorem Unrefilled.of_step {m m' : TimerManager} {i : ShardId} (h : Unrefilled m) (hv : m.Valid)
    (hstep : ShardStep m i m') (hcapacity : (m'.shards i).heapCapacity = (m.shards i).heapCapacity)
    (hlist : ∀ x ∈ m'.list i, (m'.timers x).deadline = Time.infinite) : Unrefilled m' := by
  refine ⟨fun j => ?_, fun j x hx => ?_⟩
  · by_cases hj : j = i
    · rw [hj, hcapacity, h.capacity]
    · rw [hstep.shards j hj, h.capacity]
  · by_cases hj : j = i
    · subst hj
      exact hlist x hx
    · rw [TimerManager.list, hstep.shards j hj] at hx
      have hshard : shardOf x ≠ i := ((hv j).shard x (Or.inr hx)).symm ▸ hj
      rw [hstep.timers x hshard]
      exact h.list j x hx

theorem Unrefilled.insert {m m' : TimerManager} {now : Time} {timeout : Time.Delta}
    {closure : Closure} {t : TimerPtr} {init : PendingInit} (h : Unrefilled m) (hv : m.Valid)
    (hidle : (m.timers t).pending = false)
    (hrun : m.timerInitInsert now timeout closure t = some (m', init)) : Unrefilled m' := by
  have hins := timerInitInsert_spec hv hidle hrun
  refine h.of_step hv hins.step hins.capacity fun x hx => ?_
  by_cases hxt : x = t
  · -- a timer that is not pending is on no list, so it came there with this call
    subst hxt
    have hcap := (timerInitInsert_list hrun x hx).resolve_left fun hin => by
      rw [hv.pending_of_mem_list hin] at hidle
      cases hidle
    rw [hins.timer.1]
    exact le_antisymm (Time.le_infinite _) (h.capacity (shardOf x) ▸ hcap.2)
  · have hin := (timerInitInsert_list hrun x hx).resolve_right fun heq => hxt heq.1
    rw [(hins.same x hxt).1]
    exact h.list _ x hin

theorem Unrefilled.cancel {m m' : TimerManager} {t : TimerPtr} (h : Unrefilled m) (hv : m.Valid)
    (hc : Cancelled m t m') : Unrefilled m' := by
  refine h.of_step hv hc.step hc.capacity fun x hx => ?_
  have hin := hc.list x hx
  by_cases hxt : x = t
  · subst hxt
    rw [hc.timer.1]
    exact h.list _ x hin
  · rw [(hc.same x hxt).1]
    exact h.list _ x hin

theorem Unrefilled.expire {m m' : TimerManager} {i : ShardId} {now : Time} {ps : List TimerPtr}
    (h : Unrefilled m) (hv : m.Valid) (hnow : now < Time.infinite) (hexp : Expired m i now ps m') :
    Unrefilled m' := by
  obtain ⟨hcapacity, hlist⟩ := hexp.window (h.capacity i ▸ hnow)
  refine h.of_step hv hexp.step hcapacity fun x hx => ?_
  rw [hexp.deadline]
  exact h.list i x (hlist ▸ hx)

theorem Unrefilled.setMinDeadline {m : TimerManager} (h : Unrefilled m) (i : ShardId)
    (deadline : Time) : Unrefilled (m.setMinDeadline i deadline) := by
  refine ⟨fun j => ?_, fun j x hx => ?_⟩
  all_goals by_cases hj : j = i
  · subst hj
    rw [setMinDeadline_shards_self]
    exact h.capacity j
  · rw [setMinDeadline_shards_of_ne m deadline hj]
    exact h.capacity j
  · subst hj
    rw [TimerManager.list, setMinDeadline_shards_self] at hx
    exact h.list j x hx
  · rw [TimerManager.list, setMinDeadline_shards_of_ne m deadline hj] at hx
    exact h.list j x hx

theorem Unrefilled.reordered {m m' : TimerManager} (h : Unrefilled m) (hre : Reordered m m') :
    Unrefilled m' := by
  refine ⟨fun j => ?_, fun j x hx => ?_⟩
  · rw [hre.shards j]
    exact h.capacity j
  · rw [TimerManager.list, hre.shards j] at hx
    rw [hre.timers]
    exact h.list j x hx

/-! ### Every interleaving -/

/-- The clock readings of `TimerCheck` are below the value that stands for "infinite", and `Start`
is called on timers that are not pending. -/
def InWindow (s : System) : Action → Prop
  | .timerInit t _ _ _ => (s.manager.timers t).pending = false
  | .timerCheckLock now => now < Time.infinite
  | _ => True

instance (s : System) (a : Action) : Decidable (InWindow s a) := by
  cases a <;> unfold InWindow <;> infer_instance

theorem InWindow.startsIdle {s : System} {a : Action} (h : InWindow s a) : StartsIdle s a := by
  cases a with
  | timerInit t now timeout closure => exact h
  | _ => trivial

/-- The reading that the running `TimerCheck` works with is below that value. -/
def CheckFinite (s : System) : Prop :=
  match s.check with
  | .idle => True
  | .loop now => now < Time.infinite
  | .popped now _ => now < Time.infinite

structure Windowless (s : System) : Prop where
  inv : Invariant s
  unrefilled : Unrefilled s.manager
  check : CheckFinite s

theorem new_windowless : Windowless System.new := ⟨new_invariant, new_unrefilled, trivial⟩

theorem publish_unrefilled {m m' : TimerManager} {inits : List PendingInit} {init : PendingInit}
    (h : Unrefilled m) (ht : Tracked m inits)
    (hrun : m.timerInitPublish init = some m') : Unrefilled m' := by
  have hin : ∀ p ∈ inits, p = init ∨ p ∈ inits := fun p hp => Or.inr hp
  obtain ⟨m1, hrun1, -, hcases⟩ := ht.publish hin
  rw [hrun] at hrun1
  cases hrun1
  rcases hcases with rfl | hre
  · exact h
  · exact (h.setMinDeadline _ _).reordered hre

theorem step_windowless (s : System) (a : Action) (s' : System) (h : Windowless s)
    (hfinite : InWindow s a) (hstep : startStep s a = some s') : Windowless s' := by
  rw [startStep_of_startsIdle hfinite.startsIdle] at hstep
  have hinv' := step_invariant s a s' h.inv hstep
  have hv := h.inv.tracked.valid
  have hcheck := h.check
  unfold CheckFinite at hcheck
  cases a with
  | timerInit t now timeout closure =>
      simp only [step] at hstep
      split_ifs at hstep with hpending
      obtain ⟨⟨m, init⟩, hrun, heq⟩ := Option.bind_eq_some_iff.mp hstep
      cases heq
      exact ⟨hinv', h.unrefilled.insert hv (Bool.not_eq_true _ ▸ hpending) hrun, hcheck⟩
  | timerInitPublish k =>
      simp only [step] at hstep
      split at hstep
      · obtain ⟨init, -, hrest⟩ := Option.bind_eq_some_iff.mp hstep
        obtain ⟨m, hrun, heq⟩ := Option.bind_eq_some_iff.mp hrest
        cases heq
        exact ⟨hinv', publish_unrefilled h.unrefilled h.inv.tracked hrun, hcheck⟩
      · cases hstep
  | timerCancel t =>
      obtain ⟨m, hrun, hc⟩ := timerCancel_spec hv t
      simp only [step, hrun, Option.bind_eq_bind, Option.bind_some, Option.some.injEq] at hstep
      subst hstep
      exact ⟨hinv', h.unrefilled.cancel hv hc, hcheck⟩
  | timerCheckLock now =>
      simp only [step] at hstep
      split at hstep
      · cases hstep
        exact ⟨hinv', h.unrefilled, hfinite⟩
      · cases hstep
  | timerCheckPop =>
      simp only [step] at hstep
      split at hstep
      · next now heq =>
          rw [heq] at hcheck
          obtain ⟨i, -, hrest⟩ := Option.bind_eq_some_iff.mp hstep
          split_ifs at hrest
          obtain ⟨⟨n, newMin, m⟩, hrun, heq'⟩ := Option.bind_eq_some_iff.mp hrest
          cases heq'
          obtain ⟨ps, hexp, -⟩ := (popTimers_spec hv i now).2 n newMin m hrun
          exact ⟨hinv', h.unrefilled.expire hv hcheck hexp, hcheck⟩
      · cases hstep
  | timerCheckStore =>
      simp only [step] at hstep
      split at hstep
      · next now newMin heq =>
          rw [heq] at hcheck
          obtain ⟨i, -, hrest⟩ := Option.bind_eq_some_iff.mp hstep
          obtain ⟨m, hrun, heq'⟩ := Option.bind_eq_some_iff.mp hrest
          cases heq'
          exact ⟨hinv', (h.unrefilled.setMinDeadline i newMin).reordered
            (onDeadlineChanged_reordered hrun), hcheck⟩
      · cases hstep
  | timerCheckUnlock =>
      simp only [step] at hstep
      split at hstep
      · obtain ⟨i, -, hrest⟩ := Option.bind_eq_some_iff.mp hstep
        split_ifs at hrest
        cases hrest
        exact ⟨hinv', h.unrefilled, trivial⟩
      · cases hstep

/-- As long as the clock is below "infinite" and no pending timer is started, no interleaving of calls
refills a heap: the window of every shard keeps its first value, only timers with an infinite
deadline are ever on a list, and with no `TimerInit` between its sections every other pending timer
is in the heap of its shard, at or after the shard's `min_deadline`. -/
theorem heap_never_refilled {actions : List Action} {s : System}
    (hmeets : Transition.Meets startStep InWindow System.new actions)
    (hrun : Transition.run startStep System.new actions = some s) :
    (∀ i, (s.manager.shards i).heapCapacity = Time.infinite ∧
      ∀ x ∈ (s.manager.shards i).lessUrgentTimers,
        (s.manager.timers x).deadline = Time.infinite) ∧
    ∀ x, (s.manager.timers x).pending = true → (s.manager.timers x).deadline < Time.infinite →
      x ∈ (s.manager.shards (shardOf x)).urgentTimers.timers ∧
      (s.inits = [] →
        (s.manager.shards (shardOf x)).minDeadline ≤ (s.manager.timers x).deadline) := by
  have h : Windowless s :=
    Transition.run_invariant_of_meets step_windowless new_windowless hmeets hrun
  refine ⟨fun i => ⟨h.unrefilled.capacity i, h.unrefilled.list i⟩, fun x hx hlt => ?_⟩
  have hheap := h.unrefilled.mem_heap h.inv.tracked.valid hx hlt
  refine ⟨hheap, fun hnone => (h.inv.tracked.covered _ x hheap).resolve_right ?_⟩
  rintro ⟨init, hin, -⟩
  rw [hnone] at hin
  exact absurd hin List.not_mem_nil

/-- A timer of ten microseconds and one with an infinite deadline, on two shards. -/
theorem heap_never_refilled_two_starts :
    ∃ s, Transition.run startStep System.new [.timerInit 4096 ⟨0⟩ ⟨10⟩ (some 1), .timerInitPublish 0,
        .timerInit 4240 ⟨0⟩ Time.Delta.infinite (some 2), .timerInitPublish 0] = some s ∧
      (s.manager.shards 1).lessUrgentTimers = [4240] ∧
      (s.manager.shards 0).minDeadline ≤ ⟨10⟩ := by
  obtain ⟨s, hrun, hlist, htimer⟩ : ∃ s, Transition.run startStep System.new
      [.timerInit 4096 ⟨0⟩ ⟨10⟩ (some 1), .timerInitPublish 0,
        .timerInit 4240 ⟨0⟩ Time.Delta.infinite (some 2), .timerInitPublish 0] = some s ∧
      ((s.manager.shards 1).lessUrgentTimers = [4240] ∧ s.inits = []) ∧
      (s.manager.timers 4096).pending = true ∧ (s.manager.timers 4096).deadline = ⟨10⟩ :=
    ⟨_, rfl, by decide +kernel, by decide +kernel⟩
  obtain ⟨-, hpending⟩ :=
    heap_never_refilled (Transition.meets_of_check (by decide +kernel)) hrun
  have hlt : (s.manager.timers 4096).deadline < Time.infinite := by
    rw [htimer.2]
    decide
  have hle := (hpending 4096 htimer.1 hlt).2 hlist.2
  rw [htimer.2] at hle
  exact ⟨s, hrun, hlist.1, hle⟩

end Iomgr.TimerManager
