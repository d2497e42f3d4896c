import Iomgr.TimerManagerInterleaving

/-!
`Timer::Start` on a controller whose timer is still pending. `TimerInit` does not look at
`pending_`: it puts the timer into the heap or the list a second time, with one back index for two
places. A list that gets a timer it has already is a cycle in memory; here the timer is in it twice.
-/

namespace Iomgr

namespace TimerHeap

variable {t : TimerPtr}

theorem store_eq_some {l l' : List TimerPtr} {i : Nat} {x : TimerPtr}
    (h : store l i x = some l') : l' = l.set i x := by
  rw [store] at h
  split_ifs at h
  exact (Option.some.inj h).symm

theorem place_subset {i : Nat} {timers : List TimerPtr} {mem : Timers} {r : List TimerPtr × Timers}
    (h : place t i timers mem = some r) :
    r.1.length = timers.length ∧ ∀ x ∈ r.1, x = t ∨ x ∈ timers := by
  obtain ⟨stored, hstore, hr⟩ := Option.bind_eq_some_iff.mp h
  cases hr
  rw [store_eq_some hstore]
  exact ⟨List.length_set, fun x hx => (List.mem_or_eq_of_mem_set hx).symm⟩

/-- The array keeps its length, and `t` is the only element that can be new to it. -/
theorem adjustUpwardsLoop_subset (fuel : Nat) :
    ∀ (i : Nat) (timers : List TimerPtr) (mem : Timers) (r : List TimerPtr × Timers),
      adjustUpwardsLoop t fuel i timers mem = some r →
        r.1.length = timers.length ∧ ∀ x ∈ r.1, x = t ∨ x ∈ timers := by
  induction fuel with
  | zero =>
      intro i timers mem r hrun
      cases hrun
  | succ fuel ih =>
      intro i timers mem r hrun
      rw [adjustUpwardsLoop] at hrun
      split_ifs at hrun
      · obtain ⟨parent, -, hrun⟩ := Option.bind_eq_some_iff.mp hrun
        obtain ⟨p, hp, hrun⟩ := Option.bind_eq_some_iff.mp hrun
        split_ifs at hrun
        · exact place_subset hrun
        · -- the parent moves down over the hole; it was in the array before
          obtain ⟨stored, hstore, hrun⟩ := Option.bind_eq_some_iff.mp hrun
          obtain ⟨hlength, hsubset⟩ := ih parent _ _ r hrun
          rw [store_eq_some hstore] at hlength hsubset
          refine ⟨hlength.trans List.length_set, fun x hx => ?_⟩
          apply (hsubset x hx).imp_right
          intro hset
          rcases List.mem_or_eq_of_mem_set hset with hold | rfl
          · exact hold
          · exact List.mem_of_getElem? hp
      · exact place_subset hrun

/-- `Add` makes the array one longer, whatever is in it. -/
theorem add_subset {h : TimerHeap} {mem : Timers} {r : Bool × TimerHeap × Timers}
    (hadd : h.add mem t = some r) :
    r.2.1.timers.length = h.timers.length + 1 ∧ ∀ x ∈ r.2.1.timers, x = t ∨ x ∈ h.timers := by
  obtain ⟨⟨timers, mem'⟩, hrun, hr⟩ := Option.bind_eq_some_iff.mp hadd
  cases hr
  obtain ⟨last, hlast, hloop⟩ := Option.bind_eq_some_iff.mp hrun
  obtain ⟨hlength, hsubset⟩ := adjustUpwardsLoop_subset _ _ _ _ _ hloop
  have hpushed : ∀ x ∈ (h.pushBack t).timers, x = t ∨ x ∈ h.timers := by
    intro x hx
    rcases List.mem_append.mp hx with hold | hnew
    · exact Or.inr hold
    · exact Or.inl (List.mem_singleton.mp hnew)
  refine ⟨hlength.trans List.length_append, fun x hx => ?_⟩
  rcases hsubset x hx with rfl | hin
  · exact hpushed _ (List.mem_of_getElem? hlast)
  · exact hpushed x hin

end TimerHeap

namespace TimerManager

/-- The steps of `step`, but that `Start` may be called on any controller. -/
def startStep (s : System) : Action → Option System
  | .timerInit t now timeout closure => do
      let (m, init) ← s.manager.timerInitInsert now timeout closure t
      some { s with manager := m, inits := s.inits ++ [init] }
  | a => step s a

/-- `Start` is called on a controller whose timer is not pending. -/
def StartsIdle (s : System) : Action → Prop
  | .timerInit t _ _ _ => (s.manager.timers t).pending = false
  | _ => True

/-- Every timer is in the heap or in the list of a shard once at most, the heaps are in order and
the timers in them know their places, and a timer is in neither after `Cancel`. -/
structure Intact (m : TimerManager) : Prop where
  once : ∀ i, (m.heap i ++ m.list i).Nodup
  ordered : ∀ i, BinaryHeap.Ordered (fun x => (m.timers x).deadline) (m.heap i)
  indexed : ∀ i, TimerHeap.Indexed m.timers (m.heap i)
  cancelled : ∀ t m', m.timerCancel t = some m' → ∀ i, t ∉ m'.heap i ∧ t ∉ m'.list i

theorem Valid.notMem_of_not_pending {m : TimerManager} (hv : m.Valid) {t : TimerPtr}
    (ht : (m.timers t).pending = false) (i : ShardId) : t ∉ m.heap i ∧ t ∉ m.list i := by
  rw [← not_or]
  intro hin
  have hshard : shardOf t = i := (hv i).shard t hin
  rw [((hv i).pending t hshard).mpr hin] at ht
  exact Bool.noConfusion ht

theorem Valid.intact {m : TimerManager} (hv : m.Valid) : Intact m where
  once i := by
    refine List.nodup_append.mpr ⟨(hv i).heap.nodup, (hv i).listNodup, ?_⟩
    rintro x hheap y hlist rfl
    exact (hv i).not_mem_list hheap hlist
  ordered i := (hv i).heap.ordered
  indexed i := (hv i).heap.indexed
  cancelled t m' hcancel i := by
    obtain ⟨m'', hrun, hspec⟩ := timerCancel_spec hv t
    rw [hrun] at hcancel
    cases hcancel
    exact Valid.notMem_of_not_pending hspec.step.valid hspec.timer.2.2 i

/-- A timer that is started while it is in its shard is there once more. -/
theorem not_intact_of_pending {m m' : TimerManager} (hv : m.Valid) {t : TimerPtr} {now : Time}
    {timeout : Time.Delta} {closure : Closure} {init : PendingInit}
    (hpending : (m.timers t).pending = true)
    (hrun : m.timerInitInsert now timeout closure t = some (m', init)) : ¬Intact m' := by
  intro hintact
  have hin : t ∈ m.heap (shardOf t) ∨ t ∈ m.list (shardOf t) :=
    ((hv (shardOf t)).pending t rfl).mp hpending
  have honce := hintact.once (shardOf t)
  unfold timerInitInsert at hrun
  dsimp only at hrun
  split_ifs at hrun with hurgent
  · obtain ⟨⟨isFirst, heap, mem⟩, hadd, heq⟩ := Option.bind_eq_some_iff.mp hrun
    cases heq
    obtain ⟨hlength, hsubset⟩ := TimerHeap.add_subset hadd
    rw [TimerManager.heap, TimerManager.list, setShard_shards_self] at honce
    obtain ⟨hnodup, -, hdisjoint⟩ := List.nodup_append.mp honce
    have hold : heap.timers ⊆ m.heap (shardOf t) := by
      intro x hx
      rcases hsubset x hx with rfl | hheap
      · exact hin.resolve_right fun hlist => hdisjoint x hx x hlist rfl
      · exact hheap
    have hle := (List.subperm_of_subset hnodup hold).length_le
    rw [hlength] at hle
    exact Nat.not_succ_le_self _ hle
  · cases hrun
    rw [TimerManager.heap, TimerManager.list, setShard_shards_self, List.nodup_middle] at honce
    exact (List.nodup_cons.mp honce).1 (List.mem_append.mpr hin)

theorem startStep_of_startsIdle {s : System} {a : Action} (h : StartsIdle s a) :
    startStep s a = step s a := by
  cases a with
  | timerInit t now timeout closure =>
      have hidle : (s.manager.timers t).pending = false := h
      rw [startStep, step, hidle, if_neg Bool.false_ne_true]
  | _ => rfl

theorem not_intact_step {s s' : System} {a : Action} (h : Invariant s) (hstart : ¬StartsIdle s a)
    (hstep : startStep s a = some s') : ¬Intact s'.manager := by
  cases a with
  | timerInit t now timeout closure =>
      have hpending : (s.manager.timers t).pending = true := Bool.not_eq_false _ ▸ hstart
      obtain ⟨⟨m, init⟩, hrun, heq⟩ := Option.bind_eq_some_iff.mp hstep
      cases heq
      exact not_intact_of_pending h.tracked.valid hpending hrun
  | _ => exact absurd trivial hstart

/-- For every order of the critical sections of `Start`, `Cancel` and `TimerCheck`: heaps and lists
stay intact if and only if no `Start` is called on a controller whose timer is pending. -/
theorem timers_intact_iff (as : List Action) :
    Transition.Along startStep (fun s => Intact s.manager) System.new as ↔
      Transition.Meets startStep StartsIdle System.new as := by
  apply Transition.along_iff_meets
  · intro s a t hs ha hstep
    rw [startStep_of_startsIdle ha] at hstep
    exact step_invariant s a t hs hstep
  · intro s a t hs ha hstep
    exact not_intact_step hs ha hstep
  · intro s hs
    exact hs.tracked.valid.intact
  · exact new_invariant

/-- A timer that is started twice and cancelled stays in the heap. It is not pending any more, so
that another `Cancel` does not take it out either. -/
theorem rearmed_timer_survives_cancel :
    ∃ s, Transition.run startStep System.new
        [.timerInit 4096 ⟨0⟩ ⟨10⟩ (some 7), .timerInitPublish 0,
          .timerInit 4096 ⟨0⟩ ⟨20⟩ (some 8), .timerInitPublish 0, .timerCancel 4096] = some s ∧
      (s.manager.timers 4096).pending = false ∧ s.manager.heap (shardOf 4096) = [4096] ∧
      ¬Intact s.manager := by
  refine ⟨_, rfl, rfl, rfl, ?_⟩
  intro hintact
  have hgone := hintact.cancelled 4096 _ rfl (shardOf 4096)
  exact hgone.1 (List.mem_singleton.mpr rfl)

end TimerManager

end Iomgr
