import Iomgr.TimerManagerInterleaving
import Mathlib.Data.Fintype.Card

/-!
`TimerCheck` on its own. Between calls nothing is in flight, the window of every shard is still
infinite, so every pending timer is in a heap and at or after its shard's `min_deadline`. Each round
of the loop empties the first shard of due timers and takes its `min_deadline` past the clock, so
eight rounds are enough. The clock value that stands for "infinite" is excluded: no `min_deadline`
is ever past it.
-/

namespace Iomgr.TimerManager

/-- The states between calls: each call starts in the state the one before it left. A timer is not
started while it is pending, and its deadline does not overflow and is not infinite. -/
inductive Reachable : TimerManager → Prop
  | new : Reachable TimerManager.new
  | timerInit {m m' : TimerManager} {now : Time} {timeout : Time.Delta} {closure : Closure}
      {t : TimerPtr} (hm : Reachable m) (hidle : (m.timers t).pending = false)
      (hlow : -2 ^ 63 ≤ now.toInt + timeout.toInt)
      (hhigh : now.toInt + timeout.toInt < Time.infinite.toInt)
      (hrun : m.timerInit now timeout closure t = some m') : Reachable m'
  | timerCancel {m m' : TimerManager} {t : TimerPtr} (hm : Reachable m)
      (hrun : m.timerCancel t = some m') : Reachable m'
  | timerCheck {m m' : TimerManager} {now : Time} {fuel : Nat} {delta : Time.Delta}
      (hm : Reachable m) (hrun : timerCheck fuel now m = some (delta, m')) : Reachable m'

/-- What holds between calls. -/
structure Settled (m : TimerManager) : Prop where
  tracked : Tracked m []
  capacity : ∀ i, (m.shards i).heapCapacity = Time.infinite
  list : ∀ i, m.list i = []
  finite : ∀ x, (m.timers x).pending = true → (m.timers x).deadline < Time.infinite

theorem Settled.mem_heap {m : TimerManager} (h : Settled m) {x : TimerPtr}
    (hx : (m.timers x).pending = true) : x ∈ m.heap (shardOf x) := by
  refine (((h.tracked.valid (shardOf x)).pending x rfl).mp hx).resolve_right fun hl => ?_
  have hnil : (m.shards (shardOf x)).lessUrgentTimers = [] := h.list (shardOf x)
  rw [hnil] at hl
  exact absurd hl List.not_mem_nil

/-- Every pending timer is at or after its shard's `min_deadline`. -/
theorem Settled.minDeadline_le {m : TimerManager} (h : Settled m) {x : TimerPtr}
    (hx : (m.timers x).pending = true) :
    (m.shards (shardOf x)).minDeadline ≤ (m.timers x).deadline := by
  refine (h.tracked.covered (shardOf x) x (h.mem_heap hx)).resolve_right ?_
  rintro ⟨init, hin, -⟩
  exact absurd hin List.not_mem_nil

theorem new_settled : Settled new where
  tracked := new_tracked
  capacity _ := rfl
  list _ := rfl
  finite x hx := by simp [new, Timer.new] at hx

/-- A new `min_deadline` and a new order of the queue change nothing of this. -/
theorem Settled.reordered {m m' : TimerManager} {i : ShardId} {deadline : Time}
    (hcapacity : ∀ j, (m.shards j).heapCapacity = Time.infinite) (hlist : ∀ j, m.list j = [])
    (hfinite : ∀ x, (m.timers x).pending = true → (m.timers x).deadline < Time.infinite)
    (htracked : Tracked m' []) (hre : Reordered (m.setMinDeadline i deadline) m') :
    Settled m' := by
  have hshards : ∀ j, (m'.shards j).heapCapacity = (m.shards j).heapCapacity ∧
      (m'.shards j).lessUrgentTimers = (m.shards j).lessUrgentTimers := by
    intro j
    rw [hre.shards j]
    by_cases hj : j = i
    · subst hj
      rw [setMinDeadline_shards_self]
      exact ⟨rfl, rfl⟩
    · rw [setMinDeadline_shards_of_ne m deadline hj]
      exact ⟨rfl, rfl⟩
  have htimers : m'.timers = m.timers := hre.timers
  refine ⟨htracked, fun j => (hshards j).1.trans (hcapacity j),
    fun j => (hshards j).2.trans (hlist j), fun x => ?_⟩
  rw [htimers]
  exact hfinite x

/-- A step on one shard that keeps its window and its list empty keeps those of all shards. -/
theorem Settled.shards_of_step {m m' : TimerManager} {i : ShardId} (h : Settled m)
    (hother : ∀ j, j ≠ i → m'.shards j = m.shards j)
    (hcapacity : (m'.shards i).heapCapacity = Time.infinite) (hlist : m'.list i = []) :
    (∀ j, (m'.shards j).heapCapacity = Time.infinite) ∧ ∀ j, m'.list j = [] := by
  refine ⟨fun j => ?_, fun j => ?_⟩
  · by_cases hj : j = i
    · rw [hj]
      exact hcapacity
    · rw [hother j hj]
      exact h.capacity j
  · by_cases hj : j = i
    · rw [hj]
      exact hlist
    · rw [TimerManager.list, hother j hj]
      exact h.list j

theorem Settled.timerInit {m m' : TimerManager} {now : Time} {timeout : Time.Delta}
    {closure : Closure} {t : TimerPtr} (h : Settled m) (hidle : (m.timers t).pending = false)
    (hfinite : now.add timeout < Time.infinite)
    (hrun : m.timerInit now timeout closure t = some m') : Settled m' := by
  obtain ⟨⟨m1, init⟩, hinsert, hpublish⟩ := Option.bind_eq_some_iff.mp hrun
  have hins := timerInitInsert_spec h.tracked.valid hidle hinsert
  have hurgent : now.add timeout < (m.shards (shardOf t)).heapCapacity := by
    rw [h.capacity]
    exact hfinite
  obtain ⟨hcapacity, hlist⟩ := h.shards_of_step hins.step.shards
    (hins.capacity.trans (h.capacity _)) ((hins.urgent hurgent).trans (h.list _))
  have hfin : ∀ x, (m1.timers x).pending = true → (m1.timers x).deadline < Time.infinite := by
    intro x hx
    by_cases hxt : x = t
    · subst hxt
      rw [hins.timer.1]
      exact hfinite
    · rw [(hins.same x hxt).1]
      exact h.finite x ((hins.same x hxt).2.2 ▸ hx)
  obtain ⟨m2, hrun2, htracked, hcases⟩ : ∃ m2, m1.timerInitPublish init = some m2 ∧ Tracked m2 [] ∧
      (m2 = m1 ∨ Reordered (m1.setMinDeadline init.shard init.deadline) m2) :=
    (h.tracked.insert hins).publish fun p hp => Or.inl (List.mem_singleton.mp hp)
  have heq : m2 = m' := Option.some.inj (hrun2.symm.trans hpublish)
  subst heq
  rcases hcases with rfl | hre
  · exact ⟨htracked, hcapacity, hlist, hfin⟩
  · exact Settled.reordered hcapacity hlist hfin htracked hre

theorem Settled.timerCancel {m m' : TimerManager} {t : TimerPtr} (h : Settled m)
    (hrun : m.timerCancel t = some m') : Settled m' := by
  obtain ⟨m1, hrun1, hc⟩ := timerCancel_spec h.tracked.valid t
  rw [hrun] at hrun1
  cases hrun1
  have hnil : m'.list (shardOf t) = [] := by
    refine List.eq_nil_iff_forall_not_mem.mpr fun x hx => ?_
    have hin := hc.list x hx
    rw [h.list] at hin
    exact absurd hin List.not_mem_nil
  obtain ⟨hcapacity, hlist⟩ := h.shards_of_step hc.step.shards
    (hc.capacity.trans (h.capacity _)) hnil
  refine ⟨h.tracked.cancel hc, hcapacity, hlist, fun x hx => ?_⟩
  by_cases hxt : x = t
  · subst hxt
    rw [hc.timer.2.2] at hx
    exact absurd hx Bool.false_ne_true
  · rw [(hc.same x hxt).1]
    exact h.finite x ((hc.same x hxt).2.2 ▸ hx)

/-! ### The loop -/

/-- What firing the timers `ps` as due at `now` does, in this order, over all shards. -/
structure Fired (m : TimerManager) (now : Time) (ps : List TimerPtr) (m' : TimerManager) : Prop where
  due : ∀ x ∈ ps, (m.timers x).pending = true ∧ (m.timers x).deadline ≤ now
  nodup : ps.Nodup
  deadline : ∀ x, (m'.timers x).deadline = (m.timers x).deadline
  closure : ∀ x, (m'.timers x).closure = (m.timers x).closure
  pending : ∀ x, (m'.timers x).pending = true ↔ (m.timers x).pending = true ∧ x ∉ ps
  tasks : m'.tasks = m.tasks ++ ps.map fun x => (m.timers x).closure

theorem Fired.refl (m : TimerManager) (now : Time) : Fired m now [] m :=
  ⟨fun _ hx => absurd hx List.not_mem_nil, List.nodup_nil, fun _ => rfl, fun _ => rfl,
    fun _ => by simp, by simp⟩

theorem Fired.trans {m m' m'' : TimerManager} {now : Time} {ps qs : List TimerPtr}
    (h : Fired m now ps m') (h' : Fired m' now qs m'') : Fired m now (ps ++ qs) m'' where
  due x hx := by
    rcases List.mem_append.mp hx with hx | hx
    · exact h.due x hx
    · obtain ⟨hpending, hdue⟩ := h'.due x hx
      exact ⟨((h.pending x).mp hpending).1, (h.deadline x).symm.trans_le hdue⟩
  nodup := h.nodup.append h'.nodup fun x hp hq => ((h.pending x).mp (h'.due x hq).1).2 hp
  deadline x := (h'.deadline x).trans (h.deadline x)
  closure x := (h'.closure x).trans (h.closure x)
  pending x := by rw [h'.pending, h.pending, List.mem_append, not_or, and_assoc]
  tasks := by
    have hsame : qs.map (fun x => (m'.timers x).closure) = qs.map fun x => (m.timers x).closure :=
      List.map_congr_left fun x _ => h.closure x
    rw [h'.tasks, h.tasks, hsame, List.map_append, List.append_assoc]

/-- The shards the loop has yet to visit. -/
def dueShards (m : TimerManager) (now : Time) : Finset ShardId :=
  Finset.univ.filter fun i => (m.shards i).minDeadline ≤ now

/-- One round on a due shard: its due timers fire, and the shard is due no more. -/
theorem timerCheck_round {m : TimerManager} {now : Time} (h : Settled m)
    (hnow : now < Time.infinite) {i : ShardId} (hdue : (m.shards i).minDeadline ≤ now) :
    ∃ n newMin m1 m' ps, m.popTimers i now = some (n, newMin, m1) ∧
      (m1.setMinDeadline i newMin).onDeadlineChanged i = some m' ∧ Settled m' ∧
      Fired m now ps m' ∧ dueShards m' now ⊂ dueShards m now := by
  obtain ⟨htotal, hspec⟩ := popTimers_spec h.tracked.valid i now
  have hwindow : now < (m.shards i).heapCapacity := by
    rw [h.capacity]
    exact hnow
  obtain ⟨⟨n, newMin, m1⟩, hpop⟩ := htotal (Or.inl hwindow)
  obtain ⟨ps, hexp, -, hmin, htasks, hlater⟩ := hspec n newMin m1 hpop
  have htracked1 := h.tracked.expire hexp hdue hlater
  obtain ⟨hbound, hcases⟩ := computeMinDeadline_spec hexp.step.valid i
  rw [← hmin] at hbound hcases
  have hpast : now < newMin := by
    rcases hcases with ⟨-, hinf⟩ | ⟨x, hx, heq⟩
    · rwa [hinf]
    · rw [heq]
      exact hlater x hx
  obtain ⟨m', hstore, htracked, hre⟩ := setMinDeadline_tracked htracked1.valid htracked1.queue
    (fun x hx => Or.inl (hbound x hx)) fun j _ => htracked1.covered j
  obtain ⟨hsamecap, hsamelist⟩ := hexp.window hwindow
  obtain ⟨hcapacity, hlist⟩ := h.shards_of_step hexp.step.shards
    (hsamecap.trans (h.capacity i)) (hsamelist.trans (h.list i))
  have hfinite : ∀ x, (m1.timers x).pending = true → (m1.timers x).deadline < Time.infinite := by
    intro x hx
    rw [hexp.deadline]
    exact h.finite x ((hexp.pending x).mp hx).1
  have htimers : m'.timers = m1.timers := hre.timers
  refine ⟨n, newMin, m1, m', ps, hpop, hstore, Settled.reordered hcapacity hlist hfinite htracked hre,
    ⟨fun x hx => (hexp.due x hx).2, hexp.nodup, fun x => ?_, fun x => ?_, fun x => ?_,
      hre.tasks.trans htasks⟩, ?_⟩
  · rw [htimers]
    exact hexp.deadline x
  · rw [htimers]
    exact hexp.closure x
  · rw [htimers]
    exact hexp.pending x
  · refine Finset.ssubset_iff_subset_ne.mpr ⟨fun j hj => ?_, fun heq => ?_⟩
    · simp only [dueShards, Finset.mem_filter, Finset.mem_univ, true_and, hre.minDeadline] at hj ⊢
      by_cases hji : j = i
      · exact hji ▸ hdue
      · rwa [setMinDeadline_shards_of_ne m1 newMin hji, hexp.step.minDeadline] at hj
    · have hin : i ∈ dueShards m now := by simpa [dueShards] using hdue
      rw [← heq] at hin
      simp only [dueShards, Finset.mem_filter, Finset.mem_univ, true_and, hre.minDeadline,
        setMinDeadline_shards_self] at hin
      exact absurd hin (not_le.mpr hpast)

/-- The loop ends when no shard is due, within one round more than there are shards due. -/
theorem timerCheckLoop_spec {now : Time} (hnow : now < Time.infinite) (fuel : Nat) :
    ∀ m : TimerManager, Settled m → (dueShards m now).card < fuel →
      ∃ m' ps, timerCheckLoop now fuel m = some m' ∧ Settled m' ∧ Fired m now ps m' ∧
        ∀ i, now < (m'.shards i).minDeadline := by
  induction fuel with
  | zero => intro m _ hfuel; omega
  | succ fuel ih =>
      intro m h hfuel
      obtain ⟨i, hi, hleast⟩ := h.tracked.queue.head_le
      by_cases hdue : (m.shards i).minDeadline ≤ now
      · obtain ⟨n, newMin, m1, m2, ps, hpop, hstore, hsettled, hfired, hless⟩ :=
          timerCheck_round h hnow hdue
        have hcard := Finset.card_lt_card hless
        obtain ⟨m', qs, hloop, hsettled', hfired', hlater⟩ := ih m2 hsettled (by omega)
        refine ⟨m', ps ++ qs, ?_, hsettled', hfired.trans hfired', hlater⟩
        simp only [timerCheckLoop, hi, hdue, if_true, hpop, hstore, hloop, Option.bind_eq_bind,
          Option.bind_some]
      · refine ⟨m, [], ?_, h, Fired.refl m now, fun j => (not_le.mp hdue).trans_le (hleast j)⟩
        simp only [timerCheckLoop, hi, hdue, if_false, Option.bind_eq_bind, Option.bind_some]

/-- At the clock value that stands for "infinite" every shard is always due. -/
theorem timerCheckLoop_infinite (fuel : Nat) :
    ∀ m : TimerManager, timerCheckLoop Time.infinite fuel m = none := by
  induction fuel with
  | zero => exact fun m => rfl
  | succ fuel ih =>
      intro m
      simp only [timerCheckLoop, Time.le_infinite, if_true, ih, Option.bind_eq_bind]
      rw [Option.bind_eq_none_iff]
      intro i _
      rw [Option.bind_eq_none_iff]
      intro r _
      rw [Option.bind_eq_none_iff]
      exact fun _ _ => rfl

theorem timerCheck_infinite (fuel : Nat) (m : TimerManager) :
    timerCheck fuel Time.infinite m = none := by
  simp only [timerCheck, timerCheckLoop_infinite, Option.bind_eq_bind, Option.bind_none]

/-- More rounds than the loop needs change nothing. -/
theorem timerCheckLoop_mono {now : Time} (fuel : Nat) :
    ∀ (m m' : TimerManager) (fuel' : Nat), timerCheckLoop now fuel m = some m' → fuel ≤ fuel' →
      timerCheckLoop now fuel' m = some m' := by
  induction fuel with
  | zero => exact fun m m' fuel' hrun => nomatch hrun
  | succ fuel ih =>
      intro m m' fuel' hrun hle
      obtain ⟨k, rfl⟩ : ∃ k, fuel' = k + 1 := ⟨fuel' - 1, by omega⟩
      simp only [timerCheckLoop] at hrun ⊢
      obtain ⟨i, hi, hrest⟩ := Option.bind_eq_some_iff.mp hrun
      refine Option.bind_eq_some_iff.mpr ⟨i, hi, ?_⟩
      split_ifs at hrest ⊢ with hdue
      · obtain ⟨⟨n, newMin, m1⟩, hpop, hrest⟩ := Option.bind_eq_some_iff.mp hrest
        obtain ⟨m2, hstore, hloop⟩ := Option.bind_eq_some_iff.mp hrest
        exact Option.bind_eq_some_iff.mpr ⟨_, hpop, Option.bind_eq_some_iff.mpr
          ⟨m2, hstore, ih m2 m' k hloop (by omega)⟩⟩
      · exact hrest

/-- The whole loop, with any number of rounds past the number of shards. -/
theorem Settled.timerCheckLoop {m : TimerManager} {now : Time} (h : Settled m)
    (hnow : now < Time.infinite) :
    ∃ m' ps, (∀ fuel, numShards < fuel → timerCheckLoop now fuel m = some m') ∧ Settled m' ∧
      Fired m now ps m' ∧ ∀ i, now < (m'.shards i).minDeadline := by
  have hcard : (dueShards m now).card ≤ numShards := Finset.card_le_univ _
  obtain ⟨m', ps, hrun, hrest⟩ := timerCheckLoop_spec hnow (numShards + 1) m h (by omega)
  exact ⟨m', ps, fun fuel hfuel => timerCheckLoop_mono _ m m' fuel hrun hfuel, hrest⟩

theorem Settled.timerCheck {m m' : TimerManager} {now : Time} {fuel : Nat} {delta : Time.Delta}
    (h : Settled m) (hrun : timerCheck fuel now m = some (delta, m')) : Settled m' := by
  rcases eq_or_lt_of_le now.le_infinite with rfl | hnow
  · rw [timerCheck_infinite] at hrun
    cases hrun
  · obtain ⟨m1, ps, hloop, hsettled, -⟩ := h.timerCheckLoop hnow
    obtain ⟨m2, hloop2, hrest⟩ := Option.bind_eq_some_iff.mp hrun
    obtain ⟨i, -, heq⟩ := Option.bind_eq_some_iff.mp hrest
    cases heq
    have hmax := timerCheckLoop_mono fuel m m' (max fuel (numShards + 1)) hloop2 (le_max_left _ _)
    rw [hloop _ (lt_of_lt_of_le (Nat.lt_succ_self _) (le_max_right _ _))] at hmax
    cases hmax
    exact hsettled

theorem Reachable.settled {m : TimerManager} (h : Reachable m) : Settled m := by
  induction h with
  | new => exact new_settled
  | @timerInit m m' now timeout closure t _ hidle hlow hhigh hrun ih =>
      refine ih.timerInit hidle ?_ hrun
      rw [Time.lt_iff, Time.toInt_add_of_bounds hlow]
      · exact hhigh
      · rw [Time.toInt_infinite] at hhigh
        omega
  | timerCancel _ hrun ih => exact ih.timerCancel hrun
  | timerCheck _ hrun ih => exact ih.timerCheck hrun

/-! ### The result -/

/-- The wait `TimerCheck` returns: up to the least `min_deadline`, which is past the clock. -/
theorem Settled.delta {m : TimerManager} {now : Time} (h : Settled m) (hzero : Time.zero ≤ now)
    {i : ShardId} (hleast : ∀ j, (m.shards i).minDeadline ≤ (m.shards j).minDeadline)
    (hlater : now < (m.shards i).minDeadline) {delta : Time.Delta}
    (hdelta : delta = if !(m.shards i).minDeadline.isInfinite then (m.shards i).minDeadline.sub now
      else Time.Delta.infinite) :
    Time.Delta.zero < delta ∧
      (∀ x, (m.timers x).pending = true → delta.toInt ≤ (m.timers x).deadline.toInt - now.toInt) ∧
      (delta.isInfinite = true → ∀ x, (m.timers x).pending = false) := by
  by_cases hinf : (m.shards i).minDeadline = Time.infinite
  · -- a pending timer would be at or after an infinite `min_deadline`
    have hnone : ∀ x, (m.timers x).pending = false := by
      intro x
      by_contra hx
      have hpending : (m.timers x).pending = true := Bool.not_eq_false _ ▸ hx
      have hle := (hinf ▸ hleast (shardOf x)).trans (h.minDeadline_le hpending)
      exact absurd (h.finite x hpending) (not_lt.mpr hle)
    have hval : delta = Time.Delta.infinite := by
      rw [hdelta, hinf]
      rfl
    refine ⟨?_, fun x hx => ?_, fun _ => hnone⟩
    · rw [hval]
      decide
    · rw [hnone x] at hx
      exact absurd hx Bool.false_ne_true
  · have hval : delta = (m.shards i).minDeadline.sub now := by
      have hfalse : (m.shards i).minDeadline.isInfinite = false := by
        rw [← Bool.not_eq_true, Time.isInfinite_iff]
        exact hinf
      rw [hdelta, hfalse]
      rfl
    have hsub := Time.toInt_sub_of_nonneg hzero hlater.le
    rw [← hval] at hsub
    have hpos : now.toInt < (m.shards i).minDeadline.toInt := hlater
    refine ⟨?_, fun x hx => ?_, fun hd => ?_⟩
    · rw [Time.Delta.lt_iff, Time.Delta.toInt_zero, hsub]
      omega
    · have hle : (m.shards i).minDeadline.toInt ≤ (m.timers x).deadline.toInt :=
        (hleast (shardOf x)).trans (h.minDeadline_le hx)
      omega
    · have hlt : (m.shards i).minDeadline < Time.infinite :=
        lt_of_le_of_ne (Time.le_infinite _) hinf
      rw [Time.lt_iff] at hlt
      have hmax : delta.toInt = Time.infinite.toInt := by
        rw [Time.Delta.isInfinite_iff.mp hd]
        rfl
      rw [Time.le_iff, Time.toInt_zero] at hzero
      omega

/-- `TimerCheck` fires exactly the due timers. It ends within nine rounds; the closures it posts
are those of the pending timers that are due, each once; these stop being pending and every other
timer stays as it was; and the wait it returns ends no later than the next deadline. -/
theorem timerCheck_fires_due {m : TimerManager} (hm : Reachable m) (now : Time)
    (hzero : Time.zero ≤ now) (hnow : now < Time.infinite) :
    ∃ (delta : Time.Delta) (m' : TimerManager) (ps : List TimerPtr),
      (∀ fuel, numShards < fuel → timerCheck fuel now m = some (delta, m')) ∧
      ps.Nodup ∧ (∀ x, x ∈ ps ↔ (m.timers x).pending = true ∧ (m.timers x).deadline ≤ now) ∧
      m'.tasks = m.tasks ++ ps.map (fun x => (m.timers x).closure) ∧
      (∀ x, (m'.timers x).pending = true ↔ (m.timers x).pending = true ∧ x ∉ ps) ∧
      (∀ x, (m'.timers x).deadline = (m.timers x).deadline) ∧
      (∀ x, (m'.timers x).pending = true → now < (m'.timers x).deadline) ∧
      Time.Delta.zero < delta ∧
      (∀ x, (m'.timers x).pending = true →
        delta.toInt ≤ (m'.timers x).deadline.toInt - now.toInt) ∧
      (delta.isInfinite = true → ∀ x, (m'.timers x).pending = false) := by
  obtain ⟨m', ps, hloop, hsettled, hfired, hlater⟩ := hm.settled.timerCheckLoop hnow
  obtain ⟨i, hi, hleast⟩ := hsettled.tracked.queue.head_le
  have hpast : ∀ x, (m'.timers x).pending = true → now < (m'.timers x).deadline := fun x hx =>
    (hlater (shardOf x)).trans_le (hsettled.minDeadline_le hx)
  refine ⟨_, m', ps, fun fuel hfuel => ?_, hfired.nodup, fun x => ⟨hfired.due x, fun hx => ?_⟩,
    hfired.tasks, hfired.pending, hfired.deadline, hpast, hsettled.delta hzero hleast (hlater i) rfl⟩
  · simp only [timerCheck, hloop fuel hfuel, hi, Option.bind_eq_bind, Option.bind_some]
  · by_contra hnot
    have hlate := hpast x ((hfired.pending x).mpr ⟨hx.1, hnot⟩)
    rw [hfired.deadline] at hlate
    exact absurd hlate (not_lt.mpr hx.2)

/-- Three timers in two shards: two of them fire, one in each shard, the third is not due. -/
theorem timerCheck_fires_due_two_shards :
    ∃ m1 m2 m, new.timerInit ⟨0⟩ ⟨10⟩ (some 7) 4096 = some m1 ∧
      m1.timerInit ⟨5⟩ ⟨15⟩ (some 8) 4240 = some m2 ∧
      m2.timerInit ⟨6⟩ ⟨24⟩ (some 9) 4224 = some m ∧
      shardOf 4096 = 0 ∧ shardOf 4240 = 1 ∧ shardOf 4224 = 0 ∧
      ∃ (delta : Time.Delta) (m' : TimerManager) (ps : List TimerPtr),
        timerCheck 9 ⟨20⟩ m = some (delta, m') ∧
        m'.tasks = ps.map (fun x => (m.timers x).closure) ∧ 4096 ∈ ps ∧ 4240 ∈ ps ∧
        (m'.timers 4096).pending = false ∧ (m'.timers 4240).pending = false ∧
        (m'.timers 4224).pending = true ∧ delta.toInt ≤ 10 := by
  obtain ⟨m1, h1⟩ : ∃ m1, new.timerInit ⟨0⟩ ⟨10⟩ (some 7) 4096 = some m1 := ⟨_, rfl⟩
  have hreach1 : Reachable m1 := Reachable.timerInit Reachable.new rfl (by decide) (by decide) h1
  obtain ⟨m2, h2, hidle2⟩ : ∃ m2, m1.timerInit ⟨5⟩ ⟨15⟩ (some 8) 4240 = some m2 ∧
      (m1.timers 4240).pending = false := by
    cases h1
    exact ⟨_, rfl, by decide⟩
  have hreach2 : Reachable m2 := hreach1.timerInit hidle2 (by decide) (by decide) h2
  obtain ⟨m, h3, hidle3⟩ : ∃ m, m2.timerInit ⟨6⟩ ⟨24⟩ (some 9) 4224 = some m ∧
      (m2.timers 4224).pending = false := by
    cases h1
    cases h2
    exact ⟨_, rfl, by decide⟩
  have hreach : Reachable m := hreach2.timerInit hidle3 (by decide) (by decide) h3
  have htasks : m.tasks = [] ∧ ((m.timers 4096).pending = true ∧ (m.timers 4096).deadline ≤ ⟨20⟩) ∧
      ((m.timers 4240).pending = true ∧ (m.timers 4240).deadline ≤ ⟨20⟩) ∧
      (m.timers 4224).pending = true ∧ (m.timers 4224).deadline = ⟨30⟩ := by
    cases h1
    cases h2
    cases h3
    decide
  obtain ⟨hnone, hfirst, hsecond, hthird, hlate⟩ := htasks
  obtain ⟨delta, m', ps, hrun, -, hps, hposted, hpending, hdeadline, -, -, hdelta, -⟩ :=
    timerCheck_fires_due hreach ⟨20⟩ (by decide) (by decide)
  have hgone : ∀ x ∈ ps, (m'.timers x).pending = false := by
    intro x hx
    by_contra hnot
    exact ((hpending x).mp (Bool.not_eq_false _ ▸ hnot)).2 hx
  have hleft : (m'.timers 4224).pending = true := by
    refine (hpending 4224).mpr ⟨hthird, fun hin => ?_⟩
    have hdue := ((hps 4224).mp hin).2
    rw [hlate] at hdue
    exact absurd hdue (by decide)
  have hwait := hdelta 4224 hleft
  rw [hdeadline, hlate] at hwait
  refine ⟨m1, m2, m, h1, h2, h3, by decide, by decide, by decide, delta, m', ps, hrun 9 (by decide),
    ?_, (hps 4096).mpr hfirst, (hps 4240).mpr hsecond, hgone _ ((hps 4096).mpr hfirst),
    hgone _ ((hps 4240).mpr hsecond), hleft, hwait⟩
  rw [hposted, hnone, List.nil_append]

/-- With the clock at the value that stands for "infinite", `TimerCheck` of a fresh manager, where
nothing is pending, returns after no number of rounds. -/
theorem timerCheck_diverges_at_infinite :
    Reachable new ∧ ¬∃ fuel delta m', timerCheck fuel Time.infinite new = some (delta, m') := by
  refine ⟨Reachable.new, ?_⟩
  rintro ⟨fuel, delta, m', hrun⟩
  rw [timerCheck_infinite] at hrun
  cases hrun

end Iomgr.TimerManager
