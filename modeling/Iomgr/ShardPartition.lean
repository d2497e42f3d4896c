import Iomgr.TimerManagerOperations

/-!
The heap and the list of one shard, divided at `heap_capacity`, whatever the pending flags say. The
boundary moves when `RefillHeap` runs in the middle of a drain: it is then past the clock, so that it
moves once at most. `PopOne` takes the least timer of heap and list together as long as one is due.
-/

namespace Iomgr

open TimerHeap (IndexOnly)

/-- The timers below the capacity are in the heap, the others in the list, each once. -/
structure Partitioned (capacity : Time) (h : TimerHeap) (l : List TimerPtr) (mem : Timers) :
    Prop where
  heap : h.Valid mem
  below : ∀ x ∈ h.timers, (mem x).deadline < capacity
  above : ∀ x ∈ l, capacity ≤ (mem x).deadline
  listIndex : ∀ x ∈ l, (mem x).heapIndex = kInvalidIndex
  once : (h.timers ++ l).Nodup

namespace Partitioned

variable {capacity : Time} {h h' : TimerHeap} {l : List TimerPtr} {mem mem' : Timers} {t : TimerPtr}

/-- Only the deadlines and the indices of the shard's timers matter. -/
theorem congr (hp : Partitioned capacity h l mem)
    (hmem : ∀ x ∈ h.timers ++ l, (mem' x).deadline = (mem x).deadline ∧
      (mem' x).heapIndex = (mem x).heapIndex) : Partitioned capacity h l mem' := by
  have hheap : ∀ x ∈ h.timers, (mem' x).deadline = (mem x).deadline ∧
      (mem' x).heapIndex = (mem x).heapIndex := fun x hx => hmem x (List.mem_append_left _ hx)
  have hlist : ∀ x ∈ l, (mem' x).deadline = (mem x).deadline ∧
      (mem' x).heapIndex = (mem x).heapIndex := fun x hx => hmem x (List.mem_append_right _ hx)
  refine ⟨hp.heap.congr hheap, fun x hx => ?_, fun x hx => ?_, fun x hx => ?_, hp.once⟩
  · rw [(hheap x hx).1]
    exact hp.below x hx
  · rw [(hlist x hx).1]
    exact hp.above x hx
  · rw [(hlist x hx).2]
    exact hp.listIndex x hx

/-- The fields of a timer outside the shard may change. -/
theorem congr_of_notMem (hp : Partitioned capacity h l mem) (ht : t ∉ h.timers ++ l)
    (hmem : ∀ x, x ≠ t → mem' x = mem x) : Partitioned capacity h l mem' := by
  apply hp.congr
  intro x hx
  rw [hmem x fun heq => ht (heq ▸ hx)]
  exact ⟨rfl, rfl⟩

/-- A new contents of the heap, with what the heap operation changed. -/
theorem of_heap (hp : Partitioned capacity h l mem) (hvalid : h'.Valid mem')
    {moved : TimerPtr → Prop} (hframe : IndexOnly moved mem mem')
    (hmoved : ∀ x ∈ l, ¬moved x) (hbelow : ∀ x ∈ h'.timers, (mem x).deadline < capacity)
    (honce : (h'.timers ++ l).Nodup) : Partitioned capacity h' l mem' where
  heap := hvalid
  below x hx := by
    rw [hframe.deadline]
    exact hbelow x hx
  above x hx := by
    rw [hframe.deadline]
    exact hp.above x hx
  listIndex x hx := by
    rw [hframe.other x (hmoved x hx)]
    exact hp.listIndex x hx
  once := honce

/-- A timer below the capacity goes to the heap. -/
theorem add (hp : Partitioned capacity h l mem) (ht : t ∉ h.timers ++ l)
    (hdeadline : (mem t).deadline < capacity) {first : Bool}
    (hadd : h.add mem t = some (first, h', mem')) :
    Partitioned capacity h' l mem' ∧ h'.timers.Perm (t :: h.timers) ∧
      ∀ x, (mem' x).deadline = (mem x).deadline := by
  have hnot : t ∉ h.timers := fun hin => ht (List.mem_append_left _ hin)
  obtain ⟨hvalid, hperm, hframe, -⟩ := TimerHeap.add_of_some hp.heap hnot hadd
  have honce : (t :: (h.timers ++ l)).Nodup := List.nodup_cons.mpr ⟨ht, hp.once⟩
  refine ⟨hp.of_heap hvalid hframe (fun x hx hin => ?_) (fun x hx => ?_) ?_, hperm, hframe.deadline⟩
  · rcases List.mem_cons.mp hin with rfl | hheap
    · exact ht (List.mem_append_right _ hx)
    · exact (List.nodup_append.mp hp.once).2.2 x hheap x hx rfl
  · rcases List.mem_cons.mp (hperm.mem_iff.mp hx) with rfl | hheap
    · exact hdeadline
    · exact hp.below x hheap
  · exact (hperm.append_right l).nodup_iff.mpr honce

/-- A timer at or after the capacity goes to the head of the list. -/
theorem push (hp : Partitioned capacity h l mem) (ht : t ∉ h.timers ++ l)
    (hdeadline : capacity ≤ (mem t).deadline) :
    Partitioned capacity h (t :: l) (setHeapIndex mem t kInvalidIndex) := by
  have hframe := TimerHeap.setHeapIndex_indexOnly (· = t) mem kInvalidIndex rfl
  have hp' := hp.congr_of_notMem ht hframe.other
  refine ⟨hp'.heap, hp'.below, fun x hx => ?_, fun x hx => ?_, ?_⟩
  · rcases List.mem_cons.mp hx with rfl | hx
    · rw [hframe.deadline]
      exact hdeadline
    · exact hp'.above x hx
  · rcases List.mem_cons.mp hx with rfl | hx
    · exact TimerHeap.setHeapIndex_self mem x kInvalidIndex
    · exact hp'.listIndex x hx
  · exact List.nodup_middle.mpr (List.nodup_cons.mpr ⟨ht, hp.once⟩)

/-- A timer leaves the list. -/
theorem erase (hp : Partitioned capacity h l mem) : Partitioned capacity h (l.erase t) mem where
  heap := hp.heap
  below := hp.below
  above x hx := hp.above x (List.mem_of_mem_erase hx)
  listIndex x hx := hp.listIndex x (List.mem_of_mem_erase hx)
  once := hp.once.sublist (List.erase_sublist.append_left h.timers)

/-- A timer leaves the heap, from any position. -/
theorem remove (hp : Partitioned capacity h l mem) (ht : t ∈ h.timers) :
    ∃ h' mem', h.remove mem t = some (h', mem') ∧ Partitioned capacity h' l mem' ∧
      h'.timers.Perm (h.timers.erase t) ∧ ∀ x, (mem' x).deadline = (mem x).deadline := by
  obtain ⟨h', mem', hrun, hvalid, hperm, hframe⟩ := TimerHeap.remove_spec hp.heap ht
  refine ⟨h', mem', hrun, hp.of_heap hvalid hframe (fun x hx hin => ?_) (fun x hx => ?_) ?_, hperm,
    hframe.deadline⟩
  · exact (List.nodup_append.mp hp.once).2.2 x (List.mem_of_mem_erase hin) x hx rfl
  · exact hp.below x (List.mem_of_mem_erase (hperm.mem_iff.mp hx))
  · have hsub := (List.erase_sublist (a := t) (l := h.timers)).append_right l
    exact (hperm.append_right l).nodup_iff.mpr (hp.once.sublist hsub)

/-- The top of the heap is the least timer of the shard. -/
theorem top_le (hp : Partitioned capacity h l mem) (ht : h.top = some t) {x : TimerPtr}
    (hx : x ∈ h.timers ++ l) : (mem t).deadline ≤ (mem x).deadline := by
  rcases List.mem_append.mp hx with hheap | hlist
  · exact hp.heap.top_le ht hheap
  · exact ((hp.below t (TimerHeap.top_mem ht)).trans_le (hp.above x hlist)).le

end Partitioned

namespace TimerManager

/-! ### The loop of `RefillHeap` -/

/-- A higher capacity moves timers from the list to the heap and loses none. -/
theorem moveToHeap_partitioned {capacity capacity' : Time} {h h' : TimerHeap}
    {l l' : List TimerPtr} {mem mem' : Timers} (hp : Partitioned capacity h l mem)
    (hle : capacity ≤ capacity') (hmove : moveToHeap capacity' l h mem = some (l', h', mem')) :
    Partitioned capacity' h' l' mem' ∧ (h'.timers ++ l').Perm (h.timers ++ l) ∧
      ∀ x, (mem' x).deadline = (mem x).deadline := by
  obtain ⟨hvalid, hperm, hmoved, hstays, hframe⟩ := moveToHeap_spec hp.heap hp.once hmove
  refine ⟨⟨hvalid, fun x hx => ?_, fun x hx => ?_, fun x hx => ?_, hperm.nodup_iff.mpr hp.once⟩,
    hperm, hframe.deadline⟩
  · rw [hframe.deadline]
    rcases hmoved x hx with hold | hlt
    · exact (hp.below x hold).trans_le hle
    · exact hlt
  · rw [hframe.deadline]
    exact (hstays x hx).2.1
  · obtain ⟨hold, -, hsame⟩ := hstays x hx
    rw [hsame]
    exact hp.listIndex x hold

/-! ### The capacity -/

/-- A refill at `now` computes its capacity without signed overflow. -/
def NoOverflow (shard : TimerShard) (now : Time) : Prop :=
  shard.heapCapacity ≤ now → now.toInt + (queueWindow shard).toInt < 2 ^ 63

/-- The capacity when no timer due at `now` is left: only a clock past the old one moves it. -/
def finalCapacity (shard : TimerShard) (now : Time) : Time :=
  if now < shard.heapCapacity then shard.heapCapacity else newHeapCapacity shard now

theorem toInt_fromMilliseconds {ms : Int} (hlow : 0 ≤ ms) (hhigh : ms < 2 ^ 53) :
    (Time.Delta.fromMilliseconds (Int64.ofInt ms)).toInt = ms * 1000 := by
  have hms : (Int64.ofInt ms).toInt = ms := Int64.toInt_ofInt_of_le (by omega) (by omega)
  have hthousand : (1000 : Int64).toInt = 1000 := by decide
  simp only [Time.Delta.fromMilliseconds, Time.Delta.toInt, Int64.toInt_mul, hms, hthousand]
  rw [Int.bmod_eq_of_le] <;> omega

/-- Whatever the average, the window is between 10 ms and 1 s: rounding moves neither end. -/
theorem clamp_window (x : ℚ) :
    10 ≤ ⌊Binary64.round (clamp x minQueueWindowDuration maxQueueWindowDuration * 1000)⌋ ∧
      ⌊Binary64.round (clamp x minQueueWindowDuration maxQueueWindowDuration * 1000)⌋ ≤ 1000 := by
  have hends : minQueueWindowDuration ≤ maxQueueWindowDuration := by decide +kernel
  have hclamp : minQueueWindowDuration ≤ clamp x minQueueWindowDuration maxQueueWindowDuration ∧
      clamp x minQueueWindowDuration maxQueueWindowDuration ≤ maxQueueWindowDuration := by
    unfold clamp
    split_ifs with hlow hhigh
    · exact ⟨le_rfl, hends⟩
    · exact ⟨hends, le_rfl⟩
    · exact ⟨not_lt.mp hlow, not_lt.mp hhigh⟩
  have hmin : Binary64.round (minQueueWindowDuration * 1000) = 10 := by decide +kernel
  have hmax : Binary64.round (maxQueueWindowDuration * 1000) = 1000 := by decide +kernel
  constructor
  · rw [Int.le_floor]
    calc ((10 : ℤ) : ℚ) = Binary64.round (minQueueWindowDuration * 1000) := hmin.symm
      _ ≤ _ := Binary64.round_mono (mul_le_mul_of_nonneg_right hclamp.1 (by norm_num))
  · rw [Int.floor_le_iff]
    calc _ ≤ Binary64.round (maxQueueWindowDuration * 1000) :=
          Binary64.round_mono (mul_le_mul_of_nonneg_right hclamp.2 (by norm_num))
      _ = 1000 := hmax
      _ < ((1000 : ℤ) : ℚ) + 1 := by norm_num

theorem queueWindow_bounds (shard : TimerShard) :
    10000 ≤ (queueWindow shard).toInt ∧ (queueWindow shard).toInt ≤ 1000000 := by
  obtain ⟨hlow, hhigh⟩ := clamp_window
    (Binary64.round ((shard.stats.updateAverageWith Binary64.round).1 * addDeadlineScale))
  rw [queueWindow, toInt_fromMilliseconds (by omega) (by omega)]
  omega

/-- Seven timeouts of one second and seventeen below a second: the exact average gives a window of
100 ms, its computation in doubles one of 99 ms. -/
example :
    let timeouts : List ℚ := List.replicate 7 1 ++ List.replicate 17 0
    let stats := timeouts.foldl (AveragedStats.addSampleWith Binary64.round) (new.shards 0).stats
    (queueWindow { new.shards 0 with stats := stats }).toInt = 99000 := by
  decide +kernel

/-- Only the last second of the clock's range is close enough to overflow. -/
theorem noOverflow_of_lt (shard : TimerShard) {now : Time} (h : now.toInt < 2 ^ 63 - 1000000) :
    NoOverflow shard now := by
  intro _
  have := (queueWindow_bounds shard).2
  omega

theorem newHeapCapacity_of_le {shard : TimerShard} {now : Time} (h : shard.heapCapacity ≤ now) :
    newHeapCapacity shard now = now.add (queueWindow shard) := by
  rw [newHeapCapacity, max_eq_left h]

/-- A refill moves the capacity past the clock. -/
theorem lt_newHeapCapacity {shard : TimerShard} {now : Time} (h : shard.heapCapacity ≤ now)
    (hfits : NoOverflow shard now) : now < newHeapCapacity shard now := by
  have hpos := (queueWindow_bounds shard).1
  have hlow := now.le_toInt
  rw [newHeapCapacity_of_le h, Time.lt_iff, Time.toInt_add_of_bounds (by omega) (hfits h)]
  omega

/-! ### The operations of a shard -/

/-- The timers of a shard, those of the heap first. -/
def members (m : TimerManager) (i : ShardId) : List TimerPtr := m.heap i ++ m.list i

/-- The shard is divided at its capacity as documented. -/
def ShardPartitioned (m : TimerManager) (i : ShardId) : Prop :=
  Partitioned (m.shards i).heapCapacity (m.shards i).urgentTimers (m.shards i).lessUrgentTimers
    m.timers

/-- What taking the timers `ps` out of shard `i`, as due at `now` and in this order, does. -/
structure Drained (m : TimerManager) (i : ShardId) (now : Time) (ps : List TimerPtr)
    (m' : TimerManager) : Prop where
  part : m'.ShardPartitioned i
  fits : NoOverflow (m'.shards i) now
  capacity : finalCapacity (m'.shards i) now = finalCapacity (m.shards i) now
  deadline : ∀ x, (m'.timers x).deadline = (m.timers x).deadline
  perm : (ps ++ m'.members i).Perm (m.members i)
  due : ∀ x ∈ ps, (m.timers x).deadline ≤ now
  sorted : ps.Pairwise fun x y => (m.timers x).deadline ≤ (m.timers y).deadline
  least : ∀ x ∈ ps, ∀ y ∈ m'.members i, (m.timers x).deadline ≤ (m.timers y).deadline

/-- No timer of the shard is due. -/
def AllLater (m : TimerManager) (i : ShardId) (now : Time) : Prop :=
  now < (m.shards i).heapCapacity ∧ ∀ x ∈ m.members i, now < (m.timers x).deadline

variable {m m' m'' : TimerManager} {i : ShardId} {now : Time} {ps qs : List TimerPtr}

theorem Drained.refl (hp : m.ShardPartitioned i) (hfits : NoOverflow (m.shards i) now) :
    Drained m i now [] m :=
  ⟨hp, hfits, rfl, fun _ => rfl, List.Perm.refl _, fun _ hx => absurd hx List.not_mem_nil,
    List.Pairwise.nil, fun _ hx => absurd hx List.not_mem_nil⟩

theorem Drained.trans (h : Drained m i now ps m') (h' : Drained m' i now qs m'') :
    Drained m i now (ps ++ qs) m'' where
  part := h'.part
  fits := h'.fits
  capacity := h'.capacity.trans h.capacity
  deadline x := (h'.deadline x).trans (h.deadline x)
  perm := by
    rw [List.append_assoc]
    exact (h'.perm.append_left ps).trans h.perm
  due x hx := by
    rcases List.mem_append.mp hx with hx | hx
    · exact h.due x hx
    · rw [← h.deadline]
      exact h'.due x hx
  sorted := by
    have hsorted := h'.sorted
    simp only [h.deadline] at hsorted
    refine List.pairwise_append.mpr ⟨h.sorted, hsorted, fun x hx y hy => ?_⟩
    exact h.least x hx y (h'.perm.mem_iff.mp (List.mem_append_left _ hy))
  least x hx y hy := by
    rcases List.mem_append.mp hx with hx | hx
    · exact h.least x hx y (h'.perm.mem_iff.mp (List.mem_append_right _ hy))
    · rw [← h.deadline, ← h.deadline]
      exact h'.least x hx y hy

/-- Only the shard and the timers matter. -/
theorem Drained.of_eq (h : Drained m i now ps m') (hshards : m''.shards = m'.shards)
    (htimers : m''.timers = m'.timers) : Drained m i now ps m'' := by
  rcases m' with ⟨shards, queue, timers, scheduled, tasks⟩
  rcases m'' with ⟨shards', queue', timers', scheduled', tasks'⟩
  cases hshards
  cases htimers
  exact ⟨h.part, h.fits, h.capacity, h.deadline, h.perm, h.due, h.sorted, h.least⟩

/-- A refill takes no timer out of the shard and moves its capacity past the clock. -/
theorem refillHeap_drained (hp : m.ShardPartitioned i) (hfits : NoOverflow (m.shards i) now)
    (hcap : (m.shards i).heapCapacity ≤ now) :
    (m.count i ≤ TimerHeap.maxTimers → ∃ r, m.refillHeap i now = some r) ∧
    ∀ nonempty m', m.refillHeap i now = some (nonempty, m') →
      Drained m i now [] m' ∧ now < (m'.shards i).heapCapacity ∧
      (nonempty = true ↔ m'.heap i ≠ []) := by
  refine ⟨refillHeap_total now hp.heap hp.once, fun nonempty m' hrun => ?_⟩
  obtain ⟨l', h', mem', hmove, rfl, hnonempty⟩ := refillHeap_cases hrun
  have hlt := lt_newHeapCapacity hcap hfits
  obtain ⟨hpart, hperm, hdeadline⟩ := moveToHeap_partitioned hp (hcap.trans hlt.le) hmove
  refine ⟨⟨?_, ?_, ?_, hdeadline, ?_, ?_, ?_, ?_⟩, ?_, hnonempty⟩
  · simpa [ShardPartitioned] using hpart
  · intro hle
    rw [setShard_shards_self] at hle
    exact absurd hlt (not_lt.mpr hle)
  · rw [setShard_shards_self, finalCapacity, finalCapacity, if_pos hlt, if_neg (not_lt.mpr hcap)]
  · simpa [members, heap, list] using hperm
  · exact fun x hx => absurd hx List.not_mem_nil
  · exact List.Pairwise.nil
  · exact fun x hx => absurd hx List.not_mem_nil
  · rw [setShard_shards_self]
    exact hlt

/-- The end of `PopOne` takes the least timer of heap and list if it is due. -/
theorem popTop_drained (hp : m.ShardPartitioned i) (hfits : NoOverflow (m.shards i) now)
    (hne : m.heap i ≠ []) :
    ∃ r m', m.popTop i now = some (r, m') ∧ Drained m i now r.toList m' ∧
      (r = none → AllLater m' i now) := by
  obtain ⟨t, ht⟩ : ∃ t, (m.shards i).urgentTimers.top = some t :=
    Option.ne_none_iff_exists'.mp fun hnone => hne (TimerHeap.top_eq_none.mp hnone)
  have hin := TimerHeap.top_mem ht
  simp only [popTop, ht, Option.bind_eq_bind, Option.bind_some, gt_iff_lt]
  split_ifs with hlate
  · refine ⟨none, m, rfl, Drained.refl hp hfits, fun _ => ⟨?_, fun x hx => ?_⟩⟩
    · exact hlate.trans (hp.below t hin)
    · exact hlate.trans_le (hp.top_le ht hx)
  · generalize hset : Function.update m.timers t { m.timers t with pending := false } = mem
    have hcleared := pendingCleared_update hset
    obtain ⟨h', mem', hrun, hpart, hperm, hdeadline⟩ :=
      Partitioned.remove (hp.congr fun x _ => ⟨hcleared.deadline x, hcleared.heapIndex x⟩) hin
    have hpop : (m.shards i).urgentTimers.pop mem = some (h', mem') :=
      (TimerHeap.pop_eq_remove ht mem).trans hrun
    have hdeadline' : ∀ x, (mem' x).deadline = (m.timers x).deadline := fun x =>
      (hdeadline x).trans (hcleared.deadline x)
    have hall : (t :: (h'.timers ++ m.list i)).Perm (m.members i) :=
      ((hperm.cons t).trans (List.perm_cons_erase hin).symm).append_right (m.list i)
    simp only [hpop, Option.bind_some]
    refine ⟨some t, _, rfl, ⟨?_, ?_, ?_, hdeadline', ?_, ?_, ?_, ?_⟩, by simp⟩
    · simpa [ShardPartitioned] using hpart
    · rw [setShard_shards_self]
      exact hfits
    · rw [setShard_shards_self]
      rfl
    · simpa [members, heap, list] using hall
    · rintro x hx
      obtain rfl := List.mem_singleton.mp hx
      exact not_lt.mp hlate
    · exact List.pairwise_singleton _ _
    · rintro x hx y hy
      obtain rfl := List.mem_singleton.mp hx
      rw [members, heap, list, setShard_shards_self] at hy
      exact hp.top_le ht (hall.mem_iff.mp (List.mem_cons_of_mem x hy))

theorem popOne_drained (hp : m.ShardPartitioned i) (hfits : NoOverflow (m.shards i) now) :
    (m.count i ≤ TimerHeap.maxTimers → ∃ r, m.popOne i now = some r) ∧
    ∀ r m', m.popOne i now = some (r, m') → Drained m i now r.toList m' ∧
      (r = none → AllLater m' i now) := by
  -- an empty heap behind the clock's reach leaves timers of the list only, none of them due
  have hlist : ∀ {m : TimerManager}, m.ShardPartitioned i → m.heap i = [] →
      now < (m.shards i).heapCapacity → AllLater m i now := by
    intro m hp hempty hcap
    refine ⟨hcap, fun x hx => ?_⟩
    rw [members, hempty, List.nil_append] at hx
    exact hcap.trans_le (hp.above x hx)
  simp only [popOne]
  split_ifs with hempty hwindow
  · refine ⟨fun _ => ⟨_, rfl⟩, fun r m' hrun => ?_⟩
    cases hrun
    exact ⟨Drained.refl hp hfits, fun _ => hlist hp (TimerHeap.empty_iff.mp hempty) hwindow⟩
  · obtain ⟨htotal, hspec⟩ := refillHeap_drained hp hfits (not_lt.mp hwindow)
    refine ⟨fun hsize => ?_, fun r m' hrun => ?_⟩
    · obtain ⟨⟨nonempty, m1⟩, hrefill⟩ := htotal hsize
      obtain ⟨hdrained, -, hne⟩ := hspec nonempty m1 hrefill
      simp only [hrefill, Option.bind_eq_bind, Option.bind_some]
      split_ifs with htop
      · obtain ⟨r, m', hrun, -⟩ := popTop_drained hdrained.part hdrained.fits (hne.mp htop)
        exact ⟨_, hrun⟩
      · exact ⟨_, rfl⟩
    · simp only [Option.bind_eq_bind, Option.bind_eq_some_iff] at hrun
      obtain ⟨⟨nonempty, m1⟩, hrefill, hrest⟩ := hrun
      obtain ⟨hdrained, hlt, hne⟩ := hspec nonempty m1 hrefill
      dsimp only at hrest
      split_ifs at hrest with htop
      · obtain ⟨r', m2, hrun, hdrained', hlater⟩ :=
          popTop_drained hdrained.part hdrained.fits (hne.mp htop)
        rw [hrest] at hrun
        cases hrun
        exact ⟨hdrained.trans hdrained', hlater⟩
      · cases hrest
        exact ⟨hdrained, fun _ => hlist hdrained.part (not_not.mp fun h => htop (hne.mpr h)) hlt⟩
  · obtain ⟨r', m1, hrun', hspec⟩ :=
      popTop_drained hp hfits fun h => hempty (TimerHeap.empty_iff.mpr h)
    refine ⟨fun _ => ⟨_, hrun'⟩, fun r m' hrun => ?_⟩
    rw [hrun] at hrun'
    cases hrun'
    exact hspec

/-- A timer that is not in its shard, started by `TimerInit`. -/
theorem timerInitInsert_partitioned (now : Time) (timeout : Time.Delta) (closure : Closure)
    {t : TimerPtr} (hp : m.ShardPartitioned (shardOf t)) (ht : t ∉ m.members (shardOf t)) :
    ((m.heap (shardOf t)).length < TimerHeap.maxTimers →
      ∃ r, m.timerInitInsert now timeout closure t = some r) ∧
    ∀ m' init, m.timerInitInsert now timeout closure t = some (m', init) →
      m'.ShardPartitioned (shardOf t) ∧
      (m'.members (shardOf t)).Perm (t :: m.members (shardOf t)) ∧
      (m'.timers t).deadline = now.add timeout := by
  generalize hset : Function.update m.timers t { m.timers t with
    deadline := now.add timeout, pending := true, closure := closure } = mem
  have hself : (mem t).deadline = now.add timeout := by
    rw [← hset, Function.update_self]
  have hp' : Partitioned (m.shards (shardOf t)).heapCapacity (m.shards (shardOf t)).urgentTimers
      (m.shards (shardOf t)).lessUrgentTimers mem := by
    refine hp.congr_of_notMem ht fun x hx => ?_
    rw [← hset, Function.update_of_ne hx]
  have hnot : t ∉ (m.shards (shardOf t)).urgentTimers.timers := fun hin =>
    ht (List.mem_append_left _ hin)
  simp only [timerInitInsert, hset]
  split_ifs with hcap
  · refine ⟨fun hsize => ?_, fun m' init hrun => ?_⟩
    · obtain ⟨first, h', mem', hadd, -⟩ := TimerHeap.add_spec hp'.heap hnot hsize
      simp only [hadd, Option.bind_eq_bind, Option.bind_some]
      exact ⟨_, rfl⟩
    · simp only [Option.bind_eq_bind, Option.bind_eq_some_iff, Option.some.injEq,
        Prod.mk.injEq] at hrun
      obtain ⟨⟨first, h', mem'⟩, hadd, rfl, rfl⟩ := hrun
      obtain ⟨hpart, hperm, hdeadline⟩ := hp'.add ht (hself ▸ hcap) hadd
      refine ⟨?_, ?_, (hdeadline t).trans hself⟩
      · simpa [ShardPartitioned] using hpart
      · simpa [members, heap, list] using hperm.append_right (m.list (shardOf t))
  · refine ⟨fun _ => ⟨_, rfl⟩, fun m' init hrun => ?_⟩
    simp only [Option.some.injEq, Prod.mk.injEq] at hrun
    obtain ⟨rfl, rfl⟩ := hrun
    refine ⟨?_, ?_, ?_⟩
    · simpa [ShardPartitioned] using hp'.push ht (hself ▸ not_lt.mp hcap)
    · simp [members, heap, list]
    · rw [setShard_timers, TimerHeap.setHeapIndex_deadline, hself]

/-- A pending timer of the shard, stopped by `TimerCancel`. -/
theorem timerCancel_partitioned {t : TimerPtr} (hp : m.ShardPartitioned (shardOf t))
    (ht : t ∈ m.members (shardOf t)) (hpending : (m.timers t).pending = true) :
    ∃ m', m.timerCancel t = some m' ∧ m'.ShardPartitioned (shardOf t) ∧
      (m'.members (shardOf t)).Perm ((m.members (shardOf t)).erase t) := by
  generalize hset : Function.update m.timers t { m.timers t with pending := false } = mem
  have hcleared := pendingCleared_update hset
  have hp' : Partitioned (m.shards (shardOf t)).heapCapacity (m.shards (shardOf t)).urgentTimers
      (m.shards (shardOf t)).lessUrgentTimers mem :=
    hp.congr fun x _ => ⟨hcleared.deadline x, hcleared.heapIndex x⟩
  simp only [timerCancel, hpending, Bool.not_true, Bool.false_eq_true, if_false, hset]
  by_cases hin : t ∈ m.heap (shardOf t)
  · have hindex : (mem t).heapIndex ≠ kInvalidIndex := hp'.heap.heapIndex_ne hin
    obtain ⟨h', mem', hrun, hpart, hperm, -⟩ := hp'.remove hin
    simp only [hindex, if_false, hrun, Option.bind_eq_bind, Option.bind_some]
    refine ⟨_, rfl, ?_, ?_⟩
    · simpa [ShardPartitioned] using hpart
    · have herase : (m.members (shardOf t)).erase t =
          (m.heap (shardOf t)).erase t ++ m.list (shardOf t) := List.erase_append_left _ hin
      rw [herase]
      simpa [members, heap, list] using hperm.append_right (m.list (shardOf t))
  · have hlist : t ∈ (m.shards (shardOf t)).lessUrgentTimers :=
      (List.mem_append.mp ht).resolve_left hin
    simp only [hp'.listIndex t hlist, if_true, listRemove, hlist, Option.bind_eq_bind,
      Option.bind_some]
    refine ⟨_, rfl, ?_, ?_⟩
    · simpa [ShardPartitioned] using hp'.erase
    · have herase : (m.members (shardOf t)).erase t =
          m.heap (shardOf t) ++ (m.list (shardOf t)).erase t := List.erase_append_right _ hin
      rw [herase]
      simp [members, heap, list]

/-! ### A whole drain -/

/-- `PopOne` until it returns null, with what the caller does with each timer. -/
def popEach (use : TimerManager → TimerPtr → TimerManager) (i : ShardId) (now : Time) :
    Nat → TimerManager → Option (List TimerPtr × TimerManager)
  | 0, _ => none
  | fuel + 1, m => do
      let (timer, m) ← m.popOne i now
      match timer with
      | none => some ([], m)
      | some t =>
          let (ts, m) ← popEach use i now fuel (use m t)
          some (t :: ts, m)

/-- The timers alone, in the order `PopOne` returns them. -/
def popAll (i : ShardId) (now : Time) (fuel : Nat) (m : TimerManager) :
    Option (List TimerPtr × TimerManager) :=
  popEach (fun m _ => m) i now fuel m

theorem popTimersLoop_eq (i : ShardId) (now : Time) (fuel : Nat) (m : TimerManager) :
    popTimersLoop i now fuel m =
      (popEach postTimer i now fuel m).map fun r => (r.1.length, r.2) := by
  induction fuel generalizing m with
  | zero => rfl
  | succ fuel ih =>
      simp only [popTimersLoop, popEach]
      cases m.popOne i now with
      | none => rfl
      | some r =>
          obtain ⟨timer, m1⟩ := r
          cases timer with
          | none => rfl
          | some t =>
              simp only [Option.bind_eq_bind, Option.bind_some, ih]
              cases popEach postTimer i now fuel (m1.postTimer t) with
              | none => rfl
              | some r => rfl

theorem count_eq (m : TimerManager) (i : ShardId) : m.count i = (m.members i).length := by
  rw [members, List.length_append, count]

theorem popEach_drained (use : TimerManager → TimerPtr → TimerManager)
    (hshards : ∀ m t, (use m t).shards = m.shards) (htimers : ∀ m t, (use m t).timers = m.timers)
    (i : ShardId) (now : Time) (fuel : Nat) :
    ∀ m : TimerManager, m.ShardPartitioned i → NoOverflow (m.shards i) now →
      (m.count i ≤ TimerHeap.maxTimers → m.count i < fuel →
        ∃ r, popEach use i now fuel m = some r) ∧
      ∀ ts m', popEach use i now fuel m = some (ts, m') →
        Drained m i now ts m' ∧ AllLater m' i now := by
  induction fuel with
  | zero =>
      intro m _ _
      exact ⟨fun _ hfuel => absurd hfuel (Nat.not_lt_zero _), fun ts m' hrun => nomatch hrun⟩
  | succ fuel ih =>
      intro m hp hfits
      obtain ⟨htotal, hspec⟩ := popOne_drained hp hfits
      have hstep : ∀ {t m1}, m.popOne i now = some (some t, m1) →
          Drained m i now [t] (use m1 t) := fun hpop =>
        ((hspec _ _ hpop).1).of_eq (hshards _ _) (htimers _ _)
      refine ⟨fun hsize hfuel => ?_, fun ts m' hrun => ?_⟩
      · obtain ⟨⟨r, m1⟩, hpop⟩ := htotal hsize
        simp only [popEach, hpop, Option.bind_eq_bind, Option.bind_some]
        cases r with
        | none => exact ⟨_, rfl⟩
        | some t =>
            have hdrained := hstep hpop
            have hlen := hdrained.perm.length_eq
            rw [List.singleton_append, List.length_cons, ← count_eq, ← count_eq] at hlen
            obtain ⟨r, hr⟩ := (ih _ hdrained.part hdrained.fits).1 (by omega) (by omega)
            simp only [hr, Option.bind_some]
            exact ⟨_, rfl⟩
      · simp only [popEach, Option.bind_eq_bind, Option.bind_eq_some_iff] at hrun
        obtain ⟨⟨r, m1⟩, hpop, hrest⟩ := hrun
        cases r with
        | none =>
            cases hrest
            exact ⟨(hspec _ _ hpop).1, (hspec _ _ hpop).2 rfl⟩
        | some t =>
            simp only [Option.bind_eq_some_iff, Option.some.injEq, Prod.mk.injEq] at hrest
            obtain ⟨⟨ts', m2⟩, hloop, rfl, rfl⟩ := hrest
            have hdrained := hstep hpop
            obtain ⟨hdrained', hlater⟩ := (ih _ hdrained.part hdrained.fits).2 ts' m2 hloop
            exact ⟨hdrained.trans hdrained', hlater⟩

/-- A drain takes exactly the timers that are due. -/
theorem Drained.perm_filter (h : Drained m i now ps m') (hlater : AllLater m' i now) :
    ps.Perm ((m.members i).filter fun x => (m.timers x).deadline ≤ now) := by
  have hps : ps.filter (fun x => (m.timers x).deadline ≤ now) = ps := by
    rw [List.filter_eq_self]
    intro x hx
    simpa using h.due x hx
  have hrest : (m'.members i).filter (fun x => (m.timers x).deadline ≤ now) = [] := by
    rw [List.filter_eq_nil_iff]
    intro x hx
    have hlt := hlater.2 x hx
    rw [h.deadline] at hlt
    simpa using hlt
  have hperm := h.perm.filter fun x => (m.timers x).deadline ≤ now
  rw [List.filter_append, hps, hrest, List.append_nil] at hperm
  exact hperm

/-- The division of a shard at its capacity, whatever the capacity, the clock and the statistics:
starting, cancelling and expiring timers keep it, and `PopOne` until null returns the timers that
are due, earliest first. Only a heap beyond its size limit has no result. -/
theorem shard_partition_drained (hp : m.ShardPartitioned i) :
    (∀ now timeout closure t, shardOf t = i → t ∉ m.members i →
      ((m.heap i).length < TimerHeap.maxTimers →
        ∃ r, m.timerInitInsert now timeout closure t = some r) ∧
      ∀ m' init, m.timerInitInsert now timeout closure t = some (m', init) →
        m'.ShardPartitioned i ∧ (m'.members i).Perm (t :: m.members i)) ∧
    (∀ t, shardOf t = i → t ∈ m.members i → (m.timers t).pending = true →
      ∃ m', m.timerCancel t = some m' ∧ m'.ShardPartitioned i ∧
        (m'.members i).Perm ((m.members i).erase t)) ∧
    ∀ now, NoOverflow (m.shards i) now →
      (m.count i ≤ TimerHeap.maxTimers →
        (∃ r, m.popOne i now = some r) ∧ ∃ r, popAll i now (m.count i + 1) m = some r) ∧
      (∀ r m', m.popOne i now = some (r, m') → m'.ShardPartitioned i) ∧
      ∀ fuel ts m', popAll i now fuel m = some (ts, m') →
        m'.ShardPartitioned i ∧ ts.Nodup ∧
        ts.Pairwise (fun x y => (m.timers x).deadline ≤ (m.timers y).deadline) ∧
        ts.Perm ((m.members i).filter fun x => (m.timers x).deadline ≤ now) := by
  refine ⟨?_, ?_, fun now hfits => ?_⟩
  · rintro now timeout closure t rfl ht
    obtain ⟨htotal, hspec⟩ := timerInitInsert_partitioned now timeout closure hp ht
    refine ⟨htotal, fun m' init hrun => ?_⟩
    obtain ⟨hpart, hperm, -⟩ := hspec m' init hrun
    exact ⟨hpart, hperm⟩
  · rintro t rfl ht hpending
    exact timerCancel_partitioned hp ht hpending
  · obtain ⟨htotal, hspec⟩ := popOne_drained hp hfits
    have hdrain := fun fuel => popEach_drained (fun m _ => m) (fun _ _ => rfl) (fun _ _ => rfl)
      i now fuel m hp hfits
    refine ⟨fun hsize => ⟨htotal hsize, (hdrain _).1 hsize (Nat.lt_succ_self _)⟩,
      fun r m' hrun => (hspec r m' hrun).1.part, fun fuel ts m' hrun => ?_⟩
    obtain ⟨hdrained, hlater⟩ := (hdrain fuel).2 ts m' hrun
    have hperm := hdrained.perm_filter hlater
    exact ⟨hdrained.part, hperm.nodup_iff.mpr (hp.once.filter _), hdrained.sorted, hperm⟩

/-- Shard 0 divided at 100 µs, with timers due after 50 µs (address 4096) and after 150 µs. -/
def dividedShard (heap list : List TimerPtr) : TimerManager :=
  let timers : Timers := fun x =>
    if x = 4096 then { Timer.new with deadline := ⟨50⟩, pending := true, heapIndex := 0 }
    else { Timer.new with deadline := ⟨150⟩, pending := true }
  { new with timers := timers }.setShard 0
    { new.shards 0 with
      heapCapacity := ⟨100⟩
      urgentTimers := ⟨heap, heap.length⟩
      lessUrgentTimers := list }

theorem dividedShard_partitioned : (dividedShard [4096] [4224]).ShardPartitioned 0 where
  heap := by
    refine ⟨fun i a b hi ha hb => ?_, fun i x hx => ?_, by decide⟩
    · have hlt := (List.getElem?_eq_some_iff.mp hb).1
      simp [dividedShard] at hlt
      omega
    · obtain ⟨hlt, heq⟩ := List.getElem?_eq_some_iff.mp hx
      simp [dividedShard] at hlt
      subst hlt
      simp [dividedShard] at heq
      subst heq
      rfl
  below := List.forall_mem_singleton.mpr (by decide)
  above := List.forall_mem_singleton.mpr (by decide)
  listIndex := List.forall_mem_singleton.mpr (by decide)
  once := by decide

theorem shard_partition_drained_pair :
    (dividedShard [4096] [4224]).ShardPartitioned 0 ∧
    ∃ ts m', popAll 0 ⟨200⟩ 3 (dividedShard [4096] [4224]) = some (ts, m') ∧
      m'.ShardPartitioned 0 ∧ ts.Perm [4096, 4224] := by
  obtain ⟨-, -, hpop⟩ := shard_partition_drained dividedShard_partitioned
  obtain ⟨htotal, -, hspec⟩ := hpop ⟨200⟩ (noOverflow_of_lt _ (by decide))
  obtain ⟨-, ⟨ts, m'⟩, hrun⟩ := htotal (by decide)
  obtain ⟨hpart, -, -, hperm⟩ := hspec _ ts m' hrun
  exact ⟨dividedShard_partitioned, ts, m', hrun, hpart, hperm⟩

/-! ### The next deadline -/

/-- The remaining timers of a drained shard, in terms of the shard before. -/
theorem Drained.mem_iff (h : Drained m i now ps m') (hlater : AllLater m' i now) {x : TimerPtr} :
    x ∈ m'.members i ↔ x ∈ m.members i ∧ now < (m.timers x).deadline := by
  rw [← h.perm.mem_iff, List.mem_append]
  constructor
  · intro hx
    have hlt := hlater.2 x hx
    rw [h.deadline] at hlt
    exact ⟨Or.inr hx, hlt⟩
  · rintro ⟨hx, hlt⟩
    exact hx.resolve_left fun hps => absurd (h.due x hps) (not_le.mpr hlt)

/-- A next deadline that delays no timer of the shard. -/
def SafeDeadline (m : TimerManager) (i : ShardId) (now newMin : Time) : Prop :=
  now < newMin ∧ ∀ x ∈ m.members i, newMin ≤ (m.timers x).deadline

/-- With an empty heap the reported deadline is infinite, which is safe for infinite timers only;
otherwise it is the deadline of the least timer. -/
theorem computeMinDeadline_safe_iff (hp : m.ShardPartitioned i) (hlater : AllLater m i now) :
    m.SafeDeadline i now (m.computeMinDeadline i) ↔
    (∃ x ∈ m.members i, (m.timers x).deadline < (m.shards i).heapCapacity) ∨
      ∀ x ∈ m.members i, (m.timers x).deadline = Time.infinite := by
  unfold SafeDeadline computeMinDeadline
  cases htop : (m.shards i).urgentTimers.top with
  | some t =>
      have hin := TimerHeap.top_mem htop
      have hmem : t ∈ m.members i := List.mem_append_left _ hin
      exact ⟨fun _ => Or.inl ⟨t, hmem, hp.below t hin⟩,
        fun _ => ⟨hlater.2 t hmem, fun x hx => hp.top_le htop hx⟩⟩
  | none =>
      have hempty : (m.shards i).urgentTimers.timers = [] := TimerHeap.top_eq_none.mp htop
      have habove : ∀ x ∈ m.members i, (m.shards i).heapCapacity ≤ (m.timers x).deadline := by
        intro x hx
        rw [members, heap, hempty, List.nil_append] at hx
        exact hp.above x hx
      constructor
      · rintro ⟨-, hmin⟩
        exact Or.inr fun x hx => le_antisymm (Time.le_infinite _) (hmin x hx)
      · rintro (⟨x, hx, hlt⟩ | hinf)
        · exact absurd hlt (not_lt.mpr (habove x hx))
        · exact ⟨hlater.1.trans_le (Time.le_infinite _), fun x hx => (hinf x hx).ge⟩

theorem popTimers_drained (hp : m.ShardPartitioned i) (hfits : NoOverflow (m.shards i) now) :
    (m.count i ≤ TimerHeap.maxTimers → ∃ r, m.popTimers i now = some r) ∧
    ∀ n newMin m', m.popTimers i now = some (n, newMin, m') →
      ∃ ps, Drained m i now ps m' ∧ AllLater m' i now ∧ n = ps.length ∧
        newMin = m'.computeMinDeadline i := by
  obtain ⟨htotal, hspec⟩ := popEach_drained postTimer (fun _ _ => rfl) (fun _ _ => rfl) i now
    (m.count i + 1) m hp hfits
  have hrounds : (m.shards i).urgentTimers.timerCount + (m.shards i).lessUrgentTimers.length + 1 =
      m.count i + 1 := rfl
  simp only [popTimers, hrounds, popTimersLoop_eq]
  refine ⟨fun hsize => ?_, fun n newMin m' hrun => ?_⟩
  · obtain ⟨r, hr⟩ := htotal hsize (Nat.lt_succ_self _)
    simp only [hr, Option.map_some, Option.bind_eq_bind, Option.bind_some]
    exact ⟨_, rfl⟩
  · simp only [Option.bind_eq_bind, Option.bind_eq_some_iff, Option.map_eq_some_iff] at hrun
    obtain ⟨⟨n', m1⟩, ⟨⟨ts, m2⟩, hloop, heq⟩, hres⟩ := hrun
    cases heq
    cases hres
    obtain ⟨hdrained, hlater⟩ := hspec ts _ hloop
    exact ⟨ts, hdrained, hlater, rfl, rfl⟩

/-- The next deadline `PopTimers` reports is past the clock and not after any timer left in the
shard exactly when a timer stays in the heap or only timers without a deadline stay. -/
theorem popTimers_safe_iff (hp : m.ShardPartitioned i) (now : Time) :
    (NoOverflow (m.shards i) now → m.count i ≤ TimerHeap.maxTimers →
      ∃ r, m.popTimers i now = some r) ∧
    ∀ n newMin m', m.popTimers i now = some (n, newMin, m') →
      (NoOverflow (m.shards i) now ∧ m'.SafeDeadline i now newMin ↔
        NoOverflow (m.shards i) now ∧
          ((∃ x ∈ m.members i, now < (m.timers x).deadline ∧
              (m.timers x).deadline < finalCapacity (m.shards i) now) ∨
            ∀ x ∈ m.members i, now < (m.timers x).deadline →
              (m.timers x).deadline = Time.infinite)) := by
  refine ⟨fun hfits => (popTimers_drained hp hfits).1, fun n newMin m' hrun => ?_⟩
  refine and_congr_right fun hfits => ?_
  obtain ⟨ps, hdrained, hlater, -, rfl⟩ := (popTimers_drained hp hfits).2 n newMin m' hrun
  have hcap : (m'.shards i).heapCapacity = finalCapacity (m.shards i) now := by
    rw [← hdrained.capacity, finalCapacity, if_pos hlater.1]
  rw [computeMinDeadline_safe_iff hdrained.part hlater]
  simp only [hdrained.mem_iff hlater, hdrained.deadline, hcap, and_assoc, and_imp]

theorem popTimers_safe_pair :
    (dividedShard [4096] [4224]).ShardPartitioned 0 ∧
    ∃ n newMin m', (dividedShard [4096] [4224]).popTimers 0 ⟨20⟩ = some (n, newMin, m') ∧
      m'.SafeDeadline 0 ⟨20⟩ newMin := by
  have hfits : NoOverflow ((dividedShard [4096] [4224]).shards 0) ⟨20⟩ :=
    noOverflow_of_lt _ (by decide)
  obtain ⟨htotal, hspec⟩ := popTimers_safe_iff dividedShard_partitioned ⟨20⟩
  obtain ⟨⟨n, newMin, m'⟩, hrun⟩ := htotal hfits (by decide)
  refine ⟨dividedShard_partitioned, n, newMin, m', hrun, ?_⟩
  refine ((hspec n newMin m' hrun).mpr ⟨hfits, Or.inl ⟨4096, ?_, ?_, ?_⟩⟩).2
  · decide
  · decide
  · decide

/-- A timer of the list due in 150 µs, the capacity at 100 µs and the clock at 50 µs: the heap is
empty, so the next deadline is infinite. -/
theorem popTimers_forgets_list :
    (dividedShard [] [4224]).ShardPartitioned 0 ∧
    NoOverflow ((dividedShard [] [4224]).shards 0) ⟨50⟩ ∧
    ∃ m', (dividedShard [] [4224]).popTimers 0 ⟨50⟩ = some (0, Time.infinite, m') ∧
      4224 ∈ m'.members 0 ∧ (m'.timers 4224).deadline = ⟨150⟩ ∧
      ¬m'.SafeDeadline 0 ⟨50⟩ Time.infinite := by
  refine ⟨⟨TimerHeap.new_valid _, List.forall_mem_nil _,
    List.forall_mem_singleton.mpr (by decide), List.forall_mem_singleton.mpr (by decide), by decide⟩,
    noOverflow_of_lt _ (by decide), _, rfl, by decide, by decide, fun hsafe => ?_⟩
  exact absurd (hsafe.2 4224 (by decide)) (by decide)

end TimerManager

end Iomgr
