import Iomgr.TimerHeapInvariant
import Iomgr.TimerManager
import Iomgr.TransitionSystem

/-!
The queue of shards. `OnDeadlineChanged` is called with one shard whose `min_deadline` is new; the
rest of the queue is sorted. It carries that shard to its place by exchanges of neighbours, and
touches nothing but the queue and the indices stored in the shards.
-/

namespace Iomgr.TimerManager

/-- Nothing but the queue and the shards' indices changed. -/
structure Reordered (m m' : TimerManager) : Prop where
  timers : m'.timers = m.timers
  scheduled : m'.scheduled = m.scheduled
  tasks : m'.tasks = m.tasks
  shards : ∀ j, m'.shards j =
    { m.shards j with shardQueueIndex := (m'.shards j).shardQueueIndex }

namespace Reordered

theorem refl (m : TimerManager) : Reordered m m := ⟨rfl, rfl, rfl, fun _ => rfl⟩

theorem trans {m m' m'' : TimerManager} (h : Reordered m m') (h' : Reordered m' m'') :
    Reordered m m'' where
  timers := h'.timers.trans h.timers
  scheduled := h'.scheduled.trans h.scheduled
  tasks := h'.tasks.trans h.tasks
  shards j := by rw [h'.shards j, h.shards j]

theorem minDeadline {m m' : TimerManager} (h : Reordered m m') (j : ShardId) :
    (m'.shards j).minDeadline = (m.shards j).minDeadline := by rw [h.shards j]

end Reordered

theorem setShardQueueIndex_reordered (m : TimerManager) (i : ShardId) (index : Nat) :
    Reordered m (m.setShardQueueIndex i index) := by
  refine ⟨rfl, rfl, rfl, fun j => ?_⟩
  by_cases hj : j = i
  · subst hj
    simp [setShardQueueIndex, setShard]
  · simp [setShardQueueIndex, setShard, hj]

theorem swapAdjacentShardsInQueue_reordered {m m' : TimerManager} {first : Nat}
    (h : m.swapAdjacentShardsInQueue first = some m') : Reordered m m' := by
  simp only [swapAdjacentShardsInQueue, Option.bind_eq_bind, Option.bind_eq_some_iff,
    Option.some.injEq] at h
  obtain ⟨tmp, -, next, -, queue, -, queue', -, rfl⟩ := h
  have hqueue : Reordered m { m with shardQueue := queue' } := ⟨rfl, rfl, rfl, fun _ => rfl⟩
  exact hqueue.trans ((setShardQueueIndex_reordered _ next first).trans
    (setShardQueueIndex_reordered _ tmp (first + 1)))

theorem moveForward_reordered (i : ShardId) (fuel : Nat) :
    ∀ {m m' : TimerManager}, moveForward i fuel m = some m' → Reordered m m' := by
  induction fuel with
  | zero => exact fun h => nomatch h
  | succ fuel ih =>
      intro m m' h
      simp only [moveForward, Option.bind_eq_bind] at h
      split_ifs at h with hpos
      · obtain ⟨before, -, hrest⟩ := Option.bind_eq_some_iff.mp h
        split_ifs at hrest with hlt
        · obtain ⟨m1, hswap, hmove⟩ := Option.bind_eq_some_iff.mp hrest
          exact (swapAdjacentShardsInQueue_reordered hswap).trans (ih hmove)
        · cases hrest
          exact Reordered.refl m
      · cases h
        exact Reordered.refl m

theorem moveBackward_reordered (i : ShardId) (fuel : Nat) :
    ∀ {m m' : TimerManager}, moveBackward i fuel m = some m' → Reordered m m' := by
  induction fuel with
  | zero => exact fun h => nomatch h
  | succ fuel ih =>
      intro m m' h
      simp only [moveBackward, Option.bind_eq_bind] at h
      split_ifs at h with hlast
      · obtain ⟨after, -, hrest⟩ := Option.bind_eq_some_iff.mp h
        split_ifs at hrest with hgt
        · obtain ⟨m1, hswap, hmove⟩ := Option.bind_eq_some_iff.mp hrest
          exact (swapAdjacentShardsInQueue_reordered hswap).trans (ih hmove)
        · cases hrest
          exact Reordered.refl m
      · cases h
        exact Reordered.refl m

theorem onDeadlineChanged_reordered {m m' : TimerManager} {i : ShardId}
    (h : m.onDeadlineChanged i = some m') : Reordered m m' := by
  obtain ⟨m1, hforward, hbackward⟩ := Option.bind_eq_some_iff.mp h
  exact (moveForward_reordered i _ hforward).trans (moveBackward_reordered i _ hbackward)

/-! ### The queue stays sorted -/

/-- The queue holds every shard once, and every shard knows its place in it. -/
structure QueueIndexed (m : TimerManager) : Prop where
  perm : m.shardQueue.Perm (List.finRange 8)
  index : ∀ k j, m.shardQueue[k]? = some j → (m.shards j).shardQueueIndex = k

theorem QueueIndexed.nodup {m : TimerManager} (h : QueueIndexed m) : m.shardQueue.Nodup :=
  h.perm.nodup_iff.mpr (List.nodup_finRange 8)

theorem QueueIndexed.length {m : TimerManager} (h : QueueIndexed m) : m.shardQueue.length = 8 := by
  rw [h.perm.length_eq, List.length_finRange]

/-- Sorted by `min_deadline`. -/
def QueueSorted (m : TimerManager) (queue : List ShardId) : Prop :=
  queue.Pairwise fun i j => (m.shards i).minDeadline ≤ (m.shards j).minDeadline

theorem QueueSorted.reordered {m m' : TimerManager} {queue : List ShardId}
    (h : QueueSorted m queue) (hre : Reordered m m') : QueueSorted m' queue := by
  refine List.Pairwise.imp (fun hle => ?_) h
  rwa [hre.minDeadline, hre.minDeadline]

/-- A shard fits where nothing before it is later and nothing after it is earlier. -/
theorem QueueSorted.insert {m : TimerManager} {pre post : List ShardId} {i : ShardId}
    (h : QueueSorted m (pre ++ post))
    (hpre : ∀ x ∈ pre, (m.shards x).minDeadline ≤ (m.shards i).minDeadline)
    (hpost : ∀ x ∈ post, (m.shards i).minDeadline ≤ (m.shards x).minDeadline) :
    QueueSorted m (pre ++ i :: post) := by
  obtain ⟨hs1, hs2, hs3⟩ := List.pairwise_append.mp h
  refine List.pairwise_append.mpr ⟨hs1, List.pairwise_cons.mpr ⟨hpost, hs2⟩, fun x hx y hy => ?_⟩
  rcases List.mem_cons.mp hy with rfl | hy
  · exact hpre x hx
  · exact hs3 x hx y hy

theorem swapAdjacentShardsInQueue_spec {m : TimerManager} {pre post : List ShardId}
    {a b : ShardId} (hidx : QueueIndexed m) (hq : m.shardQueue = pre ++ a :: b :: post) :
    ∃ m', m.swapAdjacentShardsInQueue pre.length = some m' ∧
      m'.shardQueue = pre ++ b :: a :: post ∧ QueueIndexed m' ∧ Reordered m m' := by
  have hnd := hidx.nodup
  have hperm : (pre ++ b :: a :: post).Perm m.shardQueue := by
    rw [hq]
    exact (List.Perm.swap a b post).append_left pre
  have hnd' : (pre ++ b :: a :: post).Nodup := hperm.nodup_iff.mpr hnd
  have hab : a ≠ b := by
    rintro rfl
    rw [hq] at hnd
    exact (List.nodup_cons.mp (List.nodup_append.mp hnd).2.1).1 List.mem_cons_self
  have hfirst : m.shardQueue[pre.length]? = some a := by simp [hq]
  have hnext : m.shardQueue[pre.length + 1]? = some b := by
    rw [hq, List.getElem?_append_right (Nat.le_succ _)]
    simp
  have hstore : store m.shardQueue pre.length b = some (pre ++ b :: b :: post) := by
    simp [store, hq]
  have hstore' : store (pre ++ b :: b :: post) (pre.length + 1) a =
      some (pre ++ b :: a :: post) := by
    simp [store]
  have hrun : m.swapAdjacentShardsInQueue pre.length = some
      (({ m with shardQueue := pre ++ b :: a :: post }.setShardQueueIndex b
        pre.length).setShardQueueIndex a (pre.length + 1)) := by
    simp only [swapAdjacentShardsInQueue, hfirst, hnext, hstore, hstore', Option.bind_eq_bind,
      Option.bind_some]
  refine ⟨_, hrun, rfl, ⟨hperm.trans hidx.perm, fun k j hk => ?_⟩,
    swapAdjacentShardsInQueue_reordered hrun⟩
  have hk' : (pre ++ b :: a :: post)[k]? = some j := hk
  by_cases hja : j = a
  · subst hja
    have hplace : (pre ++ b :: j :: post)[pre.length + 1]? = some j := by
      rw [List.getElem?_append_right (Nat.le_succ _)]
      simp
    obtain rfl := TimerHeap.eq_of_getElem?_of_nodup hnd' hk' hplace
    simp [setShardQueueIndex, setShard]
  · by_cases hjb : j = b
    · subst hjb
      have hplace : (pre ++ j :: a :: post)[pre.length]? = some j := by simp
      obtain rfl := TimerHeap.eq_of_getElem?_of_nodup hnd' hk' hplace
      simp [setShardQueueIndex, setShard, hja]
    · have hsame : m.shardQueue[k]? = some j := by
        rw [hq]
        rcases Nat.lt_or_ge k pre.length with hlt | hge
        · rwa [List.getElem?_append_left hlt] at hk' ⊢
        · rw [List.getElem?_append_right hge] at hk' ⊢
          rcases hn : k - pre.length with _ | _ | n
          · simp [hn, Ne.symm hjb] at hk'
          · simp [hn, Ne.symm hja] at hk'
          · simpa [hn] using hk'
      simpa [setShardQueueIndex, setShard, hja, hjb] using hidx.index k j hsame

theorem moveForward_spec (i : ShardId) (fuel : Nat) :
    ∀ (m : TimerManager) (pre post : List ShardId), QueueIndexed m →
      m.shardQueue = pre ++ i :: post → QueueSorted m (pre ++ post) → pre.length < fuel →
      ∃ m' pre' post', moveForward i fuel m = some m' ∧ QueueIndexed m' ∧
        m'.shardQueue = pre' ++ i :: post' ∧ QueueSorted m' (pre' ++ post') ∧
        ∀ x ∈ pre', (m'.shards x).minDeadline ≤ (m'.shards i).minDeadline := by
  induction fuel with
  | zero => intro m pre post _ _ _ hfuel; omega
  | succ fuel ih =>
      intro m pre post hidx hq hsorted hfuel
      have hindex : (m.shards i).shardQueueIndex = pre.length := hidx.index _ i (by simp [hq])
      rcases List.eq_nil_or_concat pre with rfl | ⟨front, b, rfl⟩
      · refine ⟨m, [], post, ?_, hidx, hq, hsorted, fun x hx => absurd hx List.not_mem_nil⟩
        simp [moveForward, hindex]
      · rw [List.concat_eq_append] at hq hsorted hindex hfuel
        rw [List.length_append, List.length_singleton] at hindex hfuel
        have hbefore : m.shardQueue[front.length]? = some b := by simp [hq]
        have hq' : m.shardQueue = front ++ b :: i :: post := by simp [hq]
        obtain ⟨m1, hswap, hq1, hidx1, hre⟩ := swapAdjacentShardsInQueue_spec hidx hq'
        have hunfold : moveForward i (fuel + 1) m =
            if (m.shards i).minDeadline < (m.shards b).minDeadline then moveForward i fuel m1
            else some m := by
          simp only [moveForward, hindex, Nat.succ_pos, gt_iff_lt, if_true, Nat.add_sub_cancel,
            hbefore, hswap, Option.bind_eq_bind, Option.bind_some]
        rw [hunfold]
        split_ifs with hlt
        · refine ih m1 front (b :: post) hidx1 (by simpa using hq1) ?_ (by omega)
          simpa using hsorted.reordered hre
        · refine ⟨m, front ++ [b], post, rfl, hidx, hq, hsorted, fun x hx => ?_⟩
          have hb : ∀ y ∈ front, (m.shards y).minDeadline ≤ (m.shards b).minDeadline := fun y hy =>
            (List.pairwise_append.mp (List.pairwise_append.mp hsorted).1).2.2 y hy b (by simp)
          rcases List.mem_append.mp hx with hx | hx
          · exact (hb x hx).trans (not_lt.mp hlt)
          · obtain rfl := List.mem_singleton.mp hx
            exact not_lt.mp hlt

/-- The shard stands after everything that is not later; the second loop ends with a sorted
queue. -/
theorem moveBackward_spec (i : ShardId) (fuel : Nat) :
    ∀ (m : TimerManager) (pre post : List ShardId), QueueIndexed m →
      m.shardQueue = pre ++ i :: post → QueueSorted m (pre ++ post) →
      (∀ x ∈ pre, (m.shards x).minDeadline ≤ (m.shards i).minDeadline) → post.length < fuel →
      ∃ m', moveBackward i fuel m = some m' ∧ QueueIndexed m' ∧ QueueSorted m' m'.shardQueue := by
  induction fuel with
  | zero => intro m pre post _ _ _ _ hfuel; omega
  | succ fuel ih =>
      intro m pre post hidx hq hsorted hpre hfuel
      have hindex : (m.shards i).shardQueueIndex = pre.length := hidx.index _ i (by simp [hq])
      have hlen : pre.length + (post.length + 1) = 8 := by
        rw [← hidx.length, hq, List.length_append, List.length_cons]
      -- the queue is sorted once the shard is not later than what stands after it
      have hdone : (∀ x ∈ post, (m.shards i).minDeadline ≤ (m.shards x).minDeadline) →
          QueueSorted m m.shardQueue := by
        intro hpost
        rw [hq]
        exact hsorted.insert hpre hpost
      cases post with
      | nil =>
          have hlast : ¬pre.length < numShards - 1 := by
            simp only [List.length_nil] at hlen
            unfold numShards
            omega
          exact ⟨m, by simp [moveBackward, hindex, hlast], hidx,
            hdone fun x hx => absurd hx List.not_mem_nil⟩
      | cons c rest =>
          have hnotlast : pre.length < numShards - 1 := by
            simp only [List.length_cons] at hlen
            unfold numShards
            omega
          have hafter : m.shardQueue[pre.length + 1]? = some c := by
            rw [hq, List.getElem?_append_right (Nat.le_succ _)]
            simp
          obtain ⟨m1, hswap, hq1, hidx1, hre⟩ := swapAdjacentShardsInQueue_spec hidx hq
          have hunfold : moveBackward i (fuel + 1) m =
              if (m.shards i).minDeadline > (m.shards c).minDeadline then moveBackward i fuel m1
              else some m := by
            simp only [moveBackward, hindex, hnotlast, if_true, hafter, hswap, Option.bind_eq_bind,
              Option.bind_some]
          rw [hunfold]
          split_ifs with hgt
          · refine ih m1 (pre ++ [c]) rest hidx1 (by simpa using hq1) ?_ (fun x hx => ?_) ?_
            · simpa using hsorted.reordered hre
            · rw [hre.minDeadline, hre.minDeadline]
              rcases List.mem_append.mp hx with hx | hx
              · exact hpre x hx
              · obtain rfl := List.mem_singleton.mp hx
                exact le_of_lt hgt
            · rw [List.length_cons] at hfuel
              omega
          · refine ⟨m, rfl, hidx, hdone fun x hx => ?_⟩
            have hc : ∀ y ∈ rest, (m.shards c).minDeadline ≤ (m.shards y).minDeadline :=
              (List.pairwise_cons.mp (List.pairwise_append.mp hsorted).2.1).1
            rcases List.mem_cons.mp hx with rfl | hx
            · exact not_lt.mp hgt
            · exact (not_lt.mp hgt).trans (hc x hx)

/-- The invariant of the shard queue. -/
structure QueueValid (m : TimerManager) : Prop where
  indexed : QueueIndexed m
  sorted : QueueSorted m m.shardQueue

theorem new_queueValid : QueueValid new := by
  refine ⟨⟨List.Perm.refl _, fun k j hk => ?_⟩, ?_⟩
  · obtain ⟨hlt, hget⟩ := List.getElem?_eq_some_iff.mp hk
    have hval := congrArg Fin.val hget
    simpa [new] using hval.symm
  · exact List.pairwise_of_forall fun _ _ => le_refl _

/-- After a change of one shard's `min_deadline`, `OnDeadlineChanged` restores the queue. -/
theorem onDeadlineChanged_spec {m : TimerManager} (hv : QueueValid m) (i : ShardId)
    (deadline : Time) :
    ∃ m', (m.setMinDeadline i deadline).onDeadlineChanged i = some m' ∧ QueueValid m' := by
  obtain ⟨pre, post, hq⟩ := List.append_of_mem (hv.indexed.perm.mem_iff.mpr (List.mem_finRange i))
  have hnd := hv.indexed.nodup
  rw [hq] at hnd
  have hnot : i ∉ pre ++ post :=
    (List.nodup_cons.mp (List.perm_middle.nodup_iff.mp hnd)).1
  have hidx : QueueIndexed (m.setMinDeadline i deadline) := by
    refine ⟨hv.indexed.perm, fun k j hk => ?_⟩
    have hindex := hv.indexed.index k j hk
    by_cases hj : j = i
    · subst hj
      simpa [setMinDeadline, setShard] using hindex
    · simpa [setMinDeadline, setShard, hj] using hindex
  have hsorted : QueueSorted (m.setMinDeadline i deadline) (pre ++ post) := by
    have hsub : QueueSorted m (pre ++ post) := by
      refine List.Pairwise.sublist ?_ hv.sorted
      rw [hq]
      exact List.Sublist.append_left (List.sublist_cons_self i post) pre
    refine List.Pairwise.imp_of_mem (fun {x y} hx hy hle => ?_) hsub
    have hxi : x ≠ i := fun h => hnot (h ▸ hx)
    have hyi : y ≠ i := fun h => hnot (h ▸ hy)
    simpa [setMinDeadline, setShard, hxi, hyi] using hle
  have hlen : pre.length + (post.length + 1) = 8 := by
    rw [← hv.indexed.length, hq, List.length_append, List.length_cons]
  obtain ⟨m1, pre1, post1, hforward, hidx1, hq1, hsorted1, hpre1⟩ :=
    moveForward_spec i numShards _ pre post hidx hq hsorted (by unfold numShards; omega)
  have hlen1 : pre1.length + (post1.length + 1) = 8 := by
    rw [← hidx1.length, hq1, List.length_append, List.length_cons]
  obtain ⟨m2, hbackward, hidx2, hsorted2⟩ :=
    moveBackward_spec i numShards m1 pre1 post1 hidx1 hq1 hsorted1 hpre1 (by unfold numShards; omega)
  exact ⟨m2, Option.bind_eq_some_iff.mpr ⟨m1, hforward, hbackward⟩, hidx2, hsorted2⟩

/-- The first shard of the queue has the least `min_deadline`. -/
theorem QueueValid.head_le {m : TimerManager} (hv : QueueValid m) :
    ∃ i, m.shardQueue[0]? = some i ∧ ∀ j, (m.shards i).minDeadline ≤ (m.shards j).minDeadline := by
  cases hq : m.shardQueue with
  | nil =>
      have hlen := hv.indexed.length
      simp [hq] at hlen
  | cons i rest =>
      refine ⟨i, rfl, fun j => ?_⟩
      have hj : j ∈ i :: rest := hq ▸ hv.indexed.perm.mem_iff.mpr (List.mem_finRange j)
      have hsorted := hv.sorted
      rw [hq] at hsorted
      rcases List.mem_cons.mp hj with rfl | hj
      · exact le_refl _
      · exact (List.pairwise_cons.mp hsorted).1 j hj

/-! ### Every sequence of updates -/

/-- The end of `TimerInit` and of a round of `TimerCheck`: a shard gets a new `min_deadline` and its
place in the queue. -/
def updateMinDeadline (m : TimerManager) (update : ShardId × Time) : Option TimerManager :=
  (m.setMinDeadline update.1 update.2).onDeadlineChanged update.1

/-- The `min_deadline` of every shard. -/
def minDeadlines (m : TimerManager) : ShardId → Time := fun i => (m.shards i).minDeadline

/-- The last value that each shard was given, over those it had. -/
def lastValues (deadlines : ShardId → Time) (updates : List (ShardId × Time)) : ShardId → Time :=
  updates.foldl (fun deadlines update => Function.update deadlines update.1 update.2) deadlines

/-- An update stores the value in the one shard. -/
theorem updateMinDeadline_minDeadlines {m m' : TimerManager} {update : ShardId × Time}
    (h : m.updateMinDeadline update = some m') :
    m'.minDeadlines = Function.update m.minDeadlines update.1 update.2 := by
  funext j
  rw [minDeadlines, (onDeadlineChanged_reordered h).minDeadline]
  by_cases hj : j = update.1
  · subst hj
    simp [setMinDeadline, setShard]
  · simp [setMinDeadline, setShard, minDeadlines, hj]

theorem QueueValid.run (updates : List (ShardId × Time)) :
    ∀ m : TimerManager, QueueValid m →
      ∃ m', Transition.run updateMinDeadline m updates = some m' ∧ QueueValid m' ∧
        m'.minDeadlines = lastValues m.minDeadlines updates := by
  induction updates with
  | nil => exact fun m hv => ⟨m, rfl, hv, rfl⟩
  | cons update updates ih =>
      intro m hv
      obtain ⟨m1, hupdate, hv1⟩ := onDeadlineChanged_spec hv update.1 update.2
      obtain ⟨m2, hrun, hv2, hlast⟩ := ih m1 hv1
      refine ⟨m2, Transition.run_cons.mpr ⟨m1, hupdate, hrun⟩, hv2, ?_⟩
      rw [hlast, updateMinDeadline_minDeadlines hupdate]
      rfl

/-- Every shard is in the queue, at the place that it knows. -/
theorem QueueIndexed.getElem?_iff {m : TimerManager} (h : QueueIndexed m) (k : Nat) (i : ShardId) :
    m.shardQueue[k]? = some i ↔ (m.shards i).shardQueueIndex = k := by
  refine ⟨h.index k i, ?_⟩
  rintro rfl
  obtain ⟨k, hk⟩ := List.getElem?_of_mem (h.perm.mem_iff.mpr (List.mem_finRange i))
  rwa [h.index k i hk]

/-- For every sequence of updates from the constructor's state: no access is out of range and both
loops end; every shard has the value of its last update, else the constructor's; the queue holds
every shard once, at the place that the shard knows, in the order of `min_deadline`, and its first
shard has the least one. -/
theorem shard_queue_sorted (updates : List (ShardId × Time)) :
    ∃ m, Transition.run updateMinDeadline new updates = some m ∧
      (∀ i, (m.shards i).minDeadline = lastValues (fun _ => Time.infinite) updates i) ∧
      m.shardQueue.Perm (List.finRange 8) ∧
      (∀ k i, m.shardQueue[k]? = some i ↔ (m.shards i).shardQueueIndex = k) ∧
      m.shardQueue.Pairwise (fun i j => (m.shards i).minDeadline ≤ (m.shards j).minDeadline) ∧
      ∃ first, m.shardQueue[0]? = some first ∧
        ∀ j, (m.shards first).minDeadline ≤ (m.shards j).minDeadline := by
  obtain ⟨m, hrun, hv, hlast⟩ := QueueValid.run updates new new_queueValid
  exact ⟨m, hrun, congrFun hlast, hv.indexed.perm, hv.indexed.getElem?_iff, hv.sorted, hv.head_le⟩

end Iomgr.TimerManager
