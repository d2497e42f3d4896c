import Iomgr.TimerManagerShard

/-!
What starting, cancelling and expiring timers do to the manager, everything they leave alone
included. `ShardStep` is the frame of a change inside one shard: the other shards, the timers of
other shards and the shard queue stay as they are. `Inserted`, `Cancelled` and `Expired` add what
happens to the timers.
-/

namespace Iomgr.TimerManager

open TimerHeap (IndexOnly)

/-- The timers of a shard's heap. -/
def heap (m : TimerManager) (i : ShardId) : List TimerPtr := (m.shards i).urgentTimers.timers

/-- The timers of a shard's list. -/
def list (m : TimerManager) (i : ShardId) : List TimerPtr := (m.shards i).lessUrgentTimers

/-- The number of timers of a shard. -/
def count (m : TimerManager) (i : ShardId) : Nat := (m.heap i).length + (m.list i).length

/-- The invariant of the manager's shards. -/
def Valid (m : TimerManager) : Prop :=
  ∀ i, ShardValid i (m.shards i).urgentTimers (m.shards i).lessUrgentTimers m.timers

theorem new_valid : new.Valid := fun i =>
  { heap := TimerHeap.new_valid _
    listNodup := List.nodup_nil
    listIndex := fun x hx => absurd hx List.not_mem_nil
    pending := fun x _ => by simp [new, Timer.new, TimerHeap.new]
    shard := fun x hx => by simp [new, TimerHeap.new] at hx }

@[simp] theorem setShard_shards_self (m : TimerManager) (i : ShardId) (shard : TimerShard) :
    (m.setShard i shard).shards i = shard := by
  simp [setShard]

theorem setShard_shards_of_ne (m : TimerManager) {i j : ShardId} (shard : TimerShard) (h : j ≠ i) :
    (m.setShard i shard).shards j = m.shards j := by
  simp [setShard, h]

@[simp] theorem setShard_timers (m : TimerManager) (i : ShardId) (shard : TimerShard) :
    (m.setShard i shard).timers = m.timers := rfl

@[simp] theorem setShard_tasks (m : TimerManager) (i : ShardId) (shard : TimerShard) :
    (m.setShard i shard).tasks = m.tasks := rfl

@[simp] theorem setShard_shardQueue (m : TimerManager) (i : ShardId) (shard : TimerShard) :
    (m.setShard i shard).shardQueue = m.shardQueue := rfl

/-- A change inside shard `i` under the mutex of the shard. -/
structure ShardStep (m : TimerManager) (i : ShardId) (m' : TimerManager) : Prop where
  valid : m'.Valid
  queue : m'.shardQueue = m.shardQueue
  minDeadline : ∀ j, (m'.shards j).minDeadline = (m.shards j).minDeadline
  queueIndex : ∀ j, (m'.shards j).shardQueueIndex = (m.shards j).shardQueueIndex
  shards : ∀ j, j ≠ i → m'.shards j = m.shards j
  timers : ∀ x, shardOf x ≠ i → m'.timers x = m.timers x

theorem ShardStep.refl {m : TimerManager} (hv : m.Valid) (i : ShardId) : ShardStep m i m :=
  ⟨hv, rfl, fun _ => rfl, fun _ => rfl, fun _ _ => rfl, fun _ _ => rfl⟩

theorem ShardStep.trans {m m' m'' : TimerManager} {i : ShardId} (h : ShardStep m i m')
    (h' : ShardStep m' i m'') : ShardStep m i m'' where
  valid := h'.valid
  queue := h'.queue.trans h.queue
  minDeadline j := (h'.minDeadline j).trans (h.minDeadline j)
  queueIndex j := (h'.queueIndex j).trans (h.queueIndex j)
  shards j hj := (h'.shards j hj).trans (h.shards j hj)
  timers x hx := (h'.timers x hx).trans (h.timers x hx)

theorem ShardStep.heap_of_ne {m m' : TimerManager} {i j : ShardId} (h : ShardStep m i m')
    (hj : j ≠ i) : m'.heap j = m.heap j := by
  rw [heap, heap, h.shards j hj]

/-- The new contents of one shard make a step when they are valid and keep what the manager's
mutex protects. -/
theorem shardStep_setShard {m : TimerManager} (hv : m.Valid) (i : ShardId) (shard : TimerShard)
    (mem : Timers) (scheduled : TimerPtr → Option Nat)
    (hmin : shard.minDeadline = (m.shards i).minDeadline)
    (hindex : shard.shardQueueIndex = (m.shards i).shardQueueIndex)
    (hmem : ∀ x, shardOf x ≠ i → mem x = m.timers x)
    (hshard : ShardValid i shard.urgentTimers shard.lessUrgentTimers mem) :
    ShardStep m i ({ m with timers := mem, scheduled := scheduled }.setShard i shard) := by
  have hne : ∀ j, j ≠ i → ({ m with timers := mem, scheduled := scheduled }.setShard i shard).shards j
      = m.shards j := fun j hj => setShard_shards_of_ne _ shard hj
  refine ⟨fun j => ?_, rfl, fun j => ?_, fun j => ?_, hne, hmem⟩
  all_goals by_cases hj : j = i
  · subst hj
    simpa
  · rw [hne j hj]
    exact (hv j).congr fun x hx => hmem x (hx ▸ hj)
  · subst hj
    simpa
  · rw [hne j hj]
  · subst hj
    simpa
  · rw [hne j hj]

/-! ### Starting a timer -/

/-- What the first section of `TimerInit` does. -/
structure Inserted (m : TimerManager) (t : TimerPtr) (deadline : Time) (closure : Closure)
    (m' : TimerManager) (init : PendingInit) : Prop where
  step : ShardStep m (shardOf t) m'
  capacity : (m'.shards (shardOf t)).heapCapacity = (m.shards (shardOf t)).heapCapacity
  tasks : m'.tasks = m.tasks
  timer : (m'.timers t).deadline = deadline ∧ (m'.timers t).closure = closure ∧
    (m'.timers t).pending = true
  same : ∀ x, x ≠ t → TimerSame m.timers m'.timers x
  initShard : init.shard = shardOf t
  initDeadline : init.deadline = deadline
  heap : ∀ x ∈ m'.heap (shardOf t), x = t ∨ x ≠ t ∧ x ∈ m.heap (shardOf t)
  notFirst : init.isFirstTimer = false → t ∈ m'.heap (shardOf t) →
    ∃ root ∈ m.heap (shardOf t), (m.timers root).deadline ≤ deadline
  urgent : deadline < (m.shards (shardOf t)).heapCapacity →
    m'.list (shardOf t) = m.list (shardOf t)

theorem timerInitInsert_spec {m m' : TimerManager} {now : Time} {timeout : Time.Delta}
    {closure : Closure} {t : TimerPtr} {init : PendingInit} (hv : m.Valid)
    (hidle : (m.timers t).pending = false)
    (hrun : m.timerInitInsert now timeout closure t = some (m', init)) :
    Inserted m t (now.add timeout) closure m' init := by
  generalize hset : Function.update m.timers t { m.timers t with
    deadline := now.add timeout, pending := true, closure := closure } = mem at *
  have hself : (mem t).deadline = now.add timeout ∧ (mem t).closure = closure ∧
      (mem t).pending = true := by
    rw [← hset]
    simp
  have hother : ∀ x, x ≠ t → mem x = m.timers x := by
    intro x hx
    rw [← hset]
    simp [hx]
  have hexcept := ((hv (shardOf t)).except hidle).congr hother
  have hne : ∀ x, shardOf x ≠ shardOf t → x ≠ t := fun x hx heq => hx (congrArg shardOf heq)
  simp only [timerInitInsert, hset] at hrun
  split_ifs at hrun with hcap
  · simp only [Option.bind_eq_bind, Option.bind_eq_some_iff, Option.some.injEq,
      Prod.mk.injEq] at hrun
    obtain ⟨⟨first, h', mem'⟩, hadd, rfl, rfl⟩ := hrun
    obtain ⟨hvalid, hperm, hsame, hframe, hfirst⟩ := hexcept.add hself.2.2 hadd
    have hmem : ∀ x, x ∈ h'.timers ↔ x = t ∨ x ∈ m.heap (shardOf t) := fun x => by
      rw [hperm.mem_iff, List.mem_cons, heap]
    refine
      { step := shardStep_setShard hv _ _ mem' m.scheduled rfl rfl
          (fun x hx => (hframe x hx).trans (hother x (hne x hx))) hvalid
        capacity := by simp
        tasks := rfl
        timer := ⟨(hsame t).1.trans hself.1, (hsame t).2.1.trans hself.2.1,
          (hsame t).2.2.trans hself.2.2⟩
        same := fun x hx => (TimerSame.of_eq (hother x hx)).trans (hsame x)
        initShard := rfl
        initDeadline := rfl
        heap := fun x hx => ?_
        notFirst := fun hf _ => ?_
        urgent := fun _ => by simp [list] }
    · rw [heap, setShard_shards_self, hmem] at hx
      refine hx.imp_right fun hin => ⟨?_, hin⟩
      rintro rfl
      exact hexcept.notHeap hin
    · have hnot : ¬∀ root, (m.shards (shardOf t)).urgentTimers.top = some root →
          (mem t).deadline < (mem root).deadline := by
        rw [← hfirst, show first = false from hf]
        exact Bool.false_ne_true
      obtain ⟨root, hroot⟩ := not_forall.mp hnot
      rw [Classical.not_imp, not_lt, hself.1] at hroot
      have hin := TimerHeap.top_mem hroot.1
      refine ⟨root, hin, ?_⟩
      rw [← hother root fun heq => hexcept.notHeap (heq ▸ hin)]
      exact hroot.2
  · simp only [Option.some.injEq, Prod.mk.injEq] at hrun
    obtain ⟨rfl, rfl⟩ := hrun
    have hindex := TimerHeap.setHeapIndex_indexOnly (· = t) mem kInvalidIndex rfl
    have hsame := timerSame_of_indexOnly hindex
    refine
      { step := shardStep_setShard hv _ _ _ m.scheduled rfl rfl
          (fun x hx => (hindex.other x (hne x hx)).trans (hother x (hne x hx)))
          (hexcept.push hself.2.2)
        capacity := by simp
        tasks := rfl
        timer := ⟨(hsame t).1.trans hself.1, (hsame t).2.1.trans hself.2.1,
          (hsame t).2.2.trans hself.2.2⟩
        same := fun x hx => (TimerSame.of_eq (hother x hx)).trans (hsame x)
        initShard := rfl
        initDeadline := rfl
        heap := fun x hx => ?_
        notFirst := fun _ hin => ?_
        urgent := fun h => absurd h hcap }
    · rw [heap, setShard_shards_self] at hx
      refine Or.inr ⟨?_, hx⟩
      rintro rfl
      exact hexcept.notHeap hx
    · rw [heap, setShard_shards_self] at hin
      exact absurd hin hexcept.notHeap

/-! ### Cancelling a timer -/

/-- The pending flag of the timer is cleared, and nothing else. -/
structure PendingCleared (mem : Timers) (t : TimerPtr) (mem' : Timers) : Prop where
  pending : (mem' t).pending = false
  other : ∀ x, x ≠ t → mem' x = mem x
  deadline : ∀ x, (mem' x).deadline = (mem x).deadline
  closure : ∀ x, (mem' x).closure = (mem x).closure
  heapIndex : ∀ x, (mem' x).heapIndex = (mem x).heapIndex

theorem pendingCleared_update {mem mem' : Timers} {t : TimerPtr}
    (h : Function.update mem t { mem t with pending := false } = mem') :
    PendingCleared mem t mem' := by
  have hself : mem' t = { mem t with pending := false } := by
    rw [← h, Function.update_self]
  have hother : ∀ x, x ≠ t → mem' x = mem x := by
    intro x hx
    rw [← h, Function.update_of_ne hx]
  refine ⟨by rw [hself], hother, fun x => ?_, fun x => ?_, fun x => ?_⟩
  all_goals
    by_cases hx : x = t
    · subst hx
      rw [hself]
    · rw [hother x hx]

/-- What `TimerCancel` does. -/
structure Cancelled (m : TimerManager) (t : TimerPtr) (m' : TimerManager) : Prop where
  step : ShardStep m (shardOf t) m'
  capacity : (m'.shards (shardOf t)).heapCapacity = (m.shards (shardOf t)).heapCapacity
  tasks : m'.tasks = m.tasks
  timer : (m'.timers t).deadline = (m.timers t).deadline ∧
    (m'.timers t).closure = (m.timers t).closure ∧ (m'.timers t).pending = false
  same : ∀ x, x ≠ t → TimerSame m.timers m'.timers x
  heap : ∀ x ∈ m'.heap (shardOf t), x ∈ m.heap (shardOf t)
  list : ∀ x ∈ m'.list (shardOf t), x ∈ m.list (shardOf t)

theorem timerCancel_spec {m : TimerManager} (hv : m.Valid) (t : TimerPtr) :
    ∃ m', m.timerCancel t = some m' ∧ Cancelled m t m' := by
  by_cases hpending : (m.timers t).pending = true
  · generalize hset : Function.update m.timers t { m.timers t with pending := false } = mem
    have hcleared := pendingCleared_update hset
    have hne : ∀ x, shardOf x ≠ shardOf t → x ≠ t := fun x hx heq => hx (congrArg shardOf heq)
    have hwhere := ((hv (shardOf t)).pending t rfl).mp hpending
    simp only [timerCancel, hpending, Bool.not_true, Bool.false_eq_true, if_false, hset,
      hcleared.heapIndex]
    by_cases hindex : (m.timers t).heapIndex = kInvalidIndex
    · have hin : t ∈ (m.shards (shardOf t)).lessUrgentTimers :=
        hwhere.resolve_left fun hh => (hv _).heap.heapIndex_ne hh hindex
      have hvalid := (((hv (shardOf t)).erase hin).congr hcleared.other).valid hcleared.pending
      simp only [hindex, if_true, listRemove, hin, Option.bind_eq_bind, Option.bind_some]
      refine ⟨_, rfl,
        { step := shardStep_setShard hv _ _ mem _ rfl rfl (fun x hx => hcleared.other x (hne x hx)) hvalid
          capacity := by simp
          tasks := rfl
          timer := ⟨hcleared.deadline t, hcleared.closure t, hcleared.pending⟩
          same := fun x hx => TimerSame.of_eq (hcleared.other x hx)
          heap := fun x hx => ?_
          list := fun x hx => ?_ }⟩
      · simpa [heap] using hx
      · rw [list, setShard_shards_self] at hx
        exact List.mem_of_mem_erase hx
    · have hin : t ∈ (m.shards (shardOf t)).urgentTimers.timers :=
        hwhere.resolve_right fun hl => hindex ((hv _).listIndex t hl)
      obtain ⟨h', mem', hrun, hexcept, hperm, hsame, hframe⟩ :=
        (hv (shardOf t)).remove hin hcleared.other (hcleared.deadline t) (hcleared.heapIndex t)
      simp only [hindex, if_false, hrun, Option.bind_eq_bind, Option.bind_some]
      refine ⟨_, rfl,
        { step := shardStep_setShard hv _ _ mem' _ rfl rfl
            (fun x hx => (hframe x hx).trans (hcleared.other x (hne x hx)))
            (hexcept.valid ((hsame t).2.2.trans hcleared.pending))
          capacity := by simp
          tasks := rfl
          timer := ⟨(hsame t).1.trans (hcleared.deadline t), (hsame t).2.1.trans (hcleared.closure t),
            (hsame t).2.2.trans hcleared.pending⟩
          same := fun x hx => (TimerSame.of_eq (hcleared.other x hx)).trans (hsame x)
          heap := fun x hx => ?_
          list := fun x hx => ?_ }⟩
      · rw [heap, setShard_shards_self] at hx
        exact List.mem_of_mem_erase (hperm.mem_iff.mp hx)
      · simpa [list] using hx
  · have hidle : (m.timers t).pending = false := Bool.not_eq_true _ ▸ hpending
    refine ⟨m, by simp [timerCancel, hidle], ?_⟩
    exact ⟨ShardStep.refl hv _, rfl, rfl, ⟨rfl, rfl, hidle⟩, fun x _ => TimerSame.of_eq rfl,
      fun x hx => hx, fun x hx => hx⟩

/-! ### Expiring timers -/

/-- What taking the timers `ps` out of shard `i` as due at `now` does, in this order. -/
structure Expired (m : TimerManager) (i : ShardId) (now : Time) (ps : List TimerPtr)
    (m' : TimerManager) : Prop where
  step : ShardStep m i m'
  due : ∀ x ∈ ps, shardOf x = i ∧ (m.timers x).pending = true ∧ (m.timers x).deadline ≤ now
  nodup : ps.Nodup
  deadline : ∀ x, (m'.timers x).deadline = (m.timers x).deadline
  closure : ∀ x, (m'.timers x).closure = (m.timers x).closure
  pending : ∀ x, (m'.timers x).pending = true ↔ (m.timers x).pending = true ∧ x ∉ ps
  count : m'.count i + ps.length = m.count i
  window : now < (m.shards i).heapCapacity →
    (m'.shards i).heapCapacity = (m.shards i).heapCapacity ∧ m'.list i = m.list i

theorem Expired.refl {m : TimerManager} (hv : m.Valid) (i : ShardId) (now : Time) :
    Expired m i now [] m :=
  ⟨ShardStep.refl hv i, fun _ hx => absurd hx List.not_mem_nil, List.nodup_nil, fun _ => rfl,
    fun _ => rfl, fun _ => by simp, rfl, fun _ => ⟨rfl, rfl⟩⟩

theorem Expired.trans {m m' m'' : TimerManager} {i : ShardId} {now : Time} {ps qs : List TimerPtr}
    (h : Expired m i now ps m') (h' : Expired m' i now qs m'') :
    Expired m i now (ps ++ qs) m'' where
  step := h.step.trans h'.step
  due x hx := by
    rcases List.mem_append.mp hx with hx | hx
    · exact h.due x hx
    · obtain ⟨hshard, hpending, hdue⟩ := h'.due x hx
      exact ⟨hshard, ((h.pending x).mp hpending).1, (h.deadline x).symm.trans_le hdue⟩
  nodup := by
    refine h.nodup.append h'.nodup fun x hp hq => ?_
    exact ((h.pending x).mp (h'.due x hq).2.1).2 hp
  deadline x := (h'.deadline x).trans (h.deadline x)
  closure x := (h'.closure x).trans (h.closure x)
  pending x := by
    rw [h'.pending, h.pending, List.mem_append, not_or, and_assoc]
  count := by
    rw [← h.count, ← h'.count, List.length_append]
    omega
  window hcap := by
    obtain ⟨hc, hl⟩ := h.window hcap
    obtain ⟨hc', hl'⟩ := h'.window (hc.symm ▸ hcap)
    exact ⟨hc'.trans hc, hl'.trans hl⟩

/-- The loop of `RefillHeap` moves exactly the timers below the capacity. -/
theorem moveToHeap_partition (capacity : Time) (l : List TimerPtr) :
    ∀ (h : TimerHeap) (mem : Timers), h.Valid mem → (h.timers ++ l).Nodup →
      (h.timers.length + l.length ≤ TimerHeap.maxTimers →
        ∃ r, moveToHeap capacity l h mem = some r) ∧
      ∀ l' h' mem', moveToHeap capacity l h mem = some (l', h', mem') →
        h'.Valid mem' ∧ l' = l.filter (fun x => capacity ≤ (mem x).deadline) ∧
        h'.timers.Perm (h.timers ++ l.filter fun x => (mem x).deadline < capacity) ∧
        IndexOnly (· ∈ h.timers ++ l.filter fun x => (mem x).deadline < capacity) mem mem' := by
  induction l with
  | nil =>
      intro h mem hv _
      refine ⟨fun _ => ⟨_, rfl⟩, fun l' h' mem' hrun => ?_⟩
      cases hrun
      exact ⟨hv, rfl, by simp, IndexOnly.refl mem⟩
  | cons t rest ih =>
      intro h mem hv honce
      obtain ⟨hnew, honce'⟩ := List.nodup_cons.mp (List.nodup_middle.mp honce)
      have hnot : t ∉ h.timers := fun hin => hnew (List.mem_append_left _ hin)
      simp only [moveToHeap]
      split_ifs with hcap
      · -- the heap grows by the timer, the rest of the list is as it was
        have hfilter : (t :: rest).filter (fun x => (mem x).deadline < capacity) =
            t :: rest.filter fun x => (mem x).deadline < capacity := by
          simp [hcap]
        have hkeep : (t :: rest).filter (fun x => capacity ≤ (mem x).deadline) =
            rest.filter fun x => capacity ≤ (mem x).deadline := by
          simp [hcap]
        rw [hfilter, hkeep]
        refine ⟨fun hsize => ?_, fun l' h' mem' hrun => ?_⟩
        · rw [List.length_cons] at hsize
          obtain ⟨first, h1, mem1, hadd, hv1, hperm1, -⟩ :=
            TimerHeap.add_spec hv hnot (by omega)
          have hlen := hperm1.length_eq
          rw [List.length_cons] at hlen
          have honce1 : (h1.timers ++ rest).Nodup :=
            (hperm1.append_right rest).nodup_iff.mpr (List.nodup_cons.mpr ⟨hnew, honce'⟩)
          simp only [hadd, Option.bind_eq_bind, Option.bind_some]
          exact (ih h1 mem1 hv1 honce1).1 (by omega)
        · simp only [Option.bind_eq_bind, Option.bind_eq_some_iff] at hrun
          obtain ⟨⟨first, h1, mem1⟩, hadd, hrest⟩ := hrun
          obtain ⟨hv1, hperm1, hframe1, -⟩ := TimerHeap.add_of_some hv hnot hadd
          have honce1 : (h1.timers ++ rest).Nodup :=
            (hperm1.append_right rest).nodup_iff.mpr (List.nodup_cons.mpr ⟨hnew, honce'⟩)
          obtain ⟨hv', hlist, hperm, hframe⟩ := (ih h1 mem1 hv1 honce1).2 l' h' mem' hrest
          simp only [hframe1.deadline] at hlist hperm hframe
          have hmoved : (h1.timers ++ rest.filter fun x => (mem x).deadline < capacity).Perm
              (h.timers ++ t :: rest.filter fun x => (mem x).deadline < capacity) :=
            (hperm1.append_right _).trans List.perm_middle.symm
          have hfirst : ∀ x, x ∈ t :: h.timers →
              x ∈ h.timers ++ t :: rest.filter fun x => (mem x).deadline < capacity := by
            intro x hx
            rcases List.mem_cons.mp hx with rfl | hx
            · simp
            · exact List.mem_append_left _ hx
          exact ⟨hv', hlist, hperm.trans hmoved,
            (hframe1.mono hfirst).trans (hframe.mono fun x hx => hmoved.mem_iff.mp hx)⟩
      · have hfilter : (t :: rest).filter (fun x => (mem x).deadline < capacity) =
            rest.filter fun x => (mem x).deadline < capacity := by
          simp [not_lt.mp hcap]
        have hkeep : (t :: rest).filter (fun x => capacity ≤ (mem x).deadline) =
            t :: rest.filter fun x => capacity ≤ (mem x).deadline := by
          simp [not_lt.mp hcap]
        rw [hfilter, hkeep]
        obtain ⟨htotal, hspec⟩ := ih h mem hv honce'
        refine ⟨fun hsize => ?_, fun l' h' mem' hrun => ?_⟩
        · rw [List.length_cons] at hsize
          obtain ⟨r, hr⟩ := htotal (by omega)
          simp only [hr, Option.bind_eq_bind, Option.bind_some]
          exact ⟨_, rfl⟩
        · simp only [Option.bind_eq_bind, Option.bind_eq_some_iff, Option.some.injEq] at hrun
          obtain ⟨⟨kept, h1, mem1⟩, hrest, heq⟩ := hrun
          cases heq
          obtain ⟨hv', hlist, hperm, hframe⟩ := hspec kept h1 mem1 hrest
          exact ⟨hv', congrArg (t :: ·) hlist, hperm, hframe⟩

/-- What the loop moves and what stays in the list. -/
theorem moveToHeap_spec {capacity : Time} {h h' : TimerHeap} {l l' : List TimerPtr}
    {mem mem' : Timers} (hv : h.Valid mem) (honce : (h.timers ++ l).Nodup)
    (hmove : moveToHeap capacity l h mem = some (l', h', mem')) :
    h'.Valid mem' ∧ (h'.timers ++ l').Perm (h.timers ++ l) ∧
      (∀ x ∈ h'.timers, x ∈ h.timers ∨ (mem x).deadline < capacity) ∧
      (∀ x ∈ l', x ∈ l ∧ capacity ≤ (mem x).deadline ∧ mem' x = mem x) ∧
      IndexOnly (· ∈ h.timers ++ l) mem mem' := by
  obtain ⟨hvalid, rfl, hperm, hframe⟩ :=
    (moveToHeap_partition capacity l h mem hv honce).2 l' h' mem' hmove
  have hsplit : (l.filter (fun x => (mem x).deadline < capacity) ++
      l.filter fun x => capacity ≤ (mem x).deadline).Perm l := by
    simpa [← decide_not] using List.filter_append_perm (fun x => (mem x).deadline < capacity) l
  have hall : (h'.timers ++ l.filter fun x => capacity ≤ (mem x).deadline).Perm
      (h.timers ++ l) := by
    refine (hperm.append_right _).trans ?_
    rw [List.append_assoc]
    exact hsplit.append_left h.timers
  refine ⟨hvalid, hall, fun x hx => ?_, fun x hx => ⟨?_, ?_, ?_⟩, hframe.mono fun x hx => ?_⟩
  · rcases List.mem_append.mp (hperm.mem_iff.mp hx) with hx | hx
    · exact Or.inl hx
    · exact Or.inr (of_decide_eq_true (List.mem_filter.mp hx).2)
  · exact (List.mem_filter.mp hx).1
  · exact of_decide_eq_true (List.mem_filter.mp hx).2
  · refine hframe.other x fun hin => ?_
    exact (List.nodup_append.mp (hall.nodup_iff.mpr honce)).2.2 x (hperm.mem_iff.mpr hin) x hx rfl
  · exact hall.mem_iff.mp (List.mem_append_left _ (hperm.mem_iff.mpr hx))

/-- Moving timers of the list to the heap keeps the shard valid. -/
theorem moveToHeap_valid {i : ShardId} {capacity : Time} {h h' : TimerHeap} {l l' : List TimerPtr}
    {mem mem' : Timers} (hv : ShardValid i h l mem)
    (hmove : moveToHeap capacity l h mem = some (l', h', mem')) :
    ShardValid i h' l' mem' ∧ (∀ x, TimerSame mem mem' x) ∧
      (∀ x, shardOf x ≠ i → mem' x = mem x) ∧
      h'.timers.length + l'.length = h.timers.length + l.length := by
  obtain ⟨hvalid, hperm, -, hstays, hframe⟩ := moveToHeap_spec hv.heap hv.nodup hmove
  have hmem : ∀ x, (x ∈ h'.timers ∨ x ∈ l') ↔ (x ∈ h.timers ∨ x ∈ l) := by
    intro x
    rw [← List.mem_append, ← List.mem_append]
    exact hperm.mem_iff
  have hsame := timerSame_of_indexOnly hframe
  refine ⟨⟨hvalid, ?_, fun x hx => ?_, fun x hx => ?_, fun x hx => hv.shard x ((hmem x).mp hx)⟩, hsame,
    fun x hx => hframe.other x fun hin => ?_, ?_⟩
  · exact (List.nodup_append.mp (hperm.nodup_iff.mpr hv.nodup)).2.1
  · obtain ⟨hold, -, heq⟩ := hstays x hx
    rw [heq]
    exact hv.listIndex x hold
  · rw [(hsame x).2.2, hmem]
    exact hv.pending x hx
  · exact hx (hv.shard x (List.mem_append.mp hin))
  · rw [← List.length_append, ← List.length_append]
    exact hperm.length_eq

/-- A refill runs the loop with a new capacity. -/
theorem refillHeap_cases {m m' : TimerManager} {i : ShardId} {now : Time} {nonempty : Bool}
    (hrun : m.refillHeap i now = some (nonempty, m')) :
    ∃ l' h' mem', moveToHeap (newHeapCapacity (m.shards i) now) (m.shards i).lessUrgentTimers
        (m.shards i).urgentTimers m.timers = some (l', h', mem') ∧
      m' = { m with timers := mem' }.setShard i
        { m.shards i with
          stats := ((m.shards i).stats.updateAverageWith Binary64.round).2
          heapCapacity := newHeapCapacity (m.shards i) now
          urgentTimers := h'
          lessUrgentTimers := l' } ∧ (nonempty = true ↔ m'.heap i ≠ []) := by
  simp only [refillHeap, Option.bind_eq_bind, Option.bind_eq_some_iff, Option.some.injEq] at hrun
  obtain ⟨⟨l', h', mem'⟩, hmove, heq⟩ := hrun
  cases heq
  refine ⟨l', h', mem', hmove, rfl, ?_⟩
  simp [heap, TimerHeap.empty]

theorem refillHeap_total {m : TimerManager} {i : ShardId} (now : Time)
    (hv : (m.shards i).urgentTimers.Valid m.timers) (honce : (m.heap i ++ m.list i).Nodup)
    (hsize : m.count i ≤ TimerHeap.maxTimers) : ∃ r, m.refillHeap i now = some r := by
  obtain ⟨r, hr⟩ := (moveToHeap_partition (newHeapCapacity (m.shards i) now)
    (m.shards i).lessUrgentTimers (m.shards i).urgentTimers m.timers hv honce).1 hsize
  simp only [refillHeap, hr, Option.bind_eq_bind, Option.bind_some]
  exact ⟨_, rfl⟩

/-- A refill takes no timer out of the shard. -/
theorem refillHeap_spec {m : TimerManager} (hv : m.Valid) (i : ShardId) (now : Time) :
    (m.count i ≤ TimerHeap.maxTimers → ∃ r, m.refillHeap i now = some r) ∧
    ∀ nonempty m', m.refillHeap i now = some (nonempty, m') →
      (¬now < (m.shards i).heapCapacity → Expired m i now [] m') ∧ m'.tasks = m.tasks ∧
      (nonempty = true ↔ m'.heap i ≠ []) := by
  refine ⟨refillHeap_total now (hv i).heap (hv i).nodup, fun nonempty m' hrun => ?_⟩
  obtain ⟨l', h', mem', hmove, rfl, hnonempty⟩ := refillHeap_cases hrun
  obtain ⟨hvalid, hsame, hframe, hcount⟩ := moveToHeap_valid (hv i) hmove
  refine ⟨fun hwindow => ?_, rfl, hnonempty⟩
  refine
    { step := shardStep_setShard hv i _ mem' m.scheduled rfl rfl hframe (by simpa using hvalid)
      due := fun x hx => absurd hx List.not_mem_nil
      nodup := List.nodup_nil
      deadline := fun x => (hsame x).1
      closure := fun x => (hsame x).2.1
      pending := fun x => ?_
      count := ?_
      window := fun hcap => absurd hcap hwindow }
  · rw [setShard_timers, (hsame x).2.2]
    simp
  · simpa [count, heap, list] using hcount

/-- The end of `PopOne`: the top leaves the heap if it is due, and else no timer is due. -/
theorem popTop_spec {m : TimerManager} (hv : m.Valid) {i : ShardId} (now : Time)
    (hne : m.heap i ≠ []) :
    ∃ r m', m.popTop i now = some (r, m') ∧ Expired m i now r.toList m' ∧ m'.tasks = m.tasks ∧
      (r = none → ∀ x ∈ m'.heap i, now < (m'.timers x).deadline) := by
  obtain ⟨t, ht⟩ : ∃ t, (m.shards i).urgentTimers.top = some t :=
    Option.ne_none_iff_exists'.mp fun hnone => hne (TimerHeap.top_eq_none.mp hnone)
  have hin := TimerHeap.top_mem ht
  simp only [popTop, ht, Option.bind_eq_bind, Option.bind_some, gt_iff_lt]
  split_ifs with hlate
  · exact ⟨none, m, rfl, Expired.refl hv i now, rfl,
      fun _ x hx => lt_of_lt_of_le hlate ((hv i).heap.top_le ht hx)⟩
  · generalize hset : Function.update m.timers t { m.timers t with pending := false } = mem
    have hcleared := pendingCleared_update hset
    obtain rfl : shardOf t = i := (hv i).shard t (Or.inl hin)
    obtain ⟨h', mem', hrun, hexcept, hperm, hsame, hframe⟩ :=
      (hv (shardOf t)).remove hin hcleared.other (hcleared.deadline t) (hcleared.heapIndex t)
    have hpop : (m.shards (shardOf t)).urgentTimers.pop mem = some (h', mem') :=
      (TimerHeap.pop_eq_remove ht mem).trans hrun
    simp only [hpop, Option.bind_some]
    refine ⟨some t, _, rfl, ?_, rfl, fun h => absurd h (Option.some_ne_none t)⟩
    refine
      { step := shardStep_setShard hv _ _ mem' m.scheduled rfl rfl
          (fun x hx => (hframe x hx).trans (hcleared.other x fun heq => hx (congrArg shardOf heq)))
          (hexcept.valid ((hsame t).2.2.trans hcleared.pending))
        due := fun x hx => ?_
        nodup := List.nodup_singleton t
        deadline := fun x => (hsame x).1.trans (hcleared.deadline x)
        closure := fun x => (hsame x).2.1.trans (hcleared.closure x)
        pending := fun x => ?_
        count := ?_
        window := fun _ => by simp [list] }
    · obtain rfl := List.mem_singleton.mp hx
      exact ⟨rfl, ((hv _).pending x rfl).mpr (Or.inl hin), not_lt.mp hlate⟩
    · rw [setShard_timers, (hsame x).2.2, Option.toList_some, List.mem_singleton]
      by_cases hxt : x = t
      · subst hxt
        simp [hcleared.pending]
      · rw [hcleared.other x hxt]
        simp [hxt]
    · have hlen := hperm.length_eq
      rw [List.length_erase_of_mem hin] at hlen
      have hpos := List.length_pos_of_mem hin
      simp only [count, heap, list, setShard_shards_self, Option.toList_some, List.length_singleton]
      omega

theorem popOne_spec {m : TimerManager} (hv : m.Valid) (i : ShardId) (now : Time) :
    (now < (m.shards i).heapCapacity ∨ m.count i ≤ TimerHeap.maxTimers →
      ∃ r, m.popOne i now = some r) ∧
    ∀ r m', m.popOne i now = some (r, m') → Expired m i now r.toList m' ∧ m'.tasks = m.tasks ∧
      (r = none → ∀ x ∈ m'.heap i, now < (m'.timers x).deadline) := by
  have hnil : ∀ m' : TimerManager, m'.heap i = [] →
      ∀ x ∈ m'.heap i, now < (m'.timers x).deadline := fun m' hm' x hx => by
    rw [hm'] at hx
    exact absurd hx List.not_mem_nil
  simp only [popOne]
  split_ifs with hempty hwindow
  · refine ⟨fun _ => ⟨_, rfl⟩, fun r m' hrun => ?_⟩
    cases hrun
    exact ⟨Expired.refl hv i now, rfl, fun _ => hnil m (TimerHeap.empty_iff.mp hempty)⟩
  · obtain ⟨htotal, hspec⟩ := refillHeap_spec hv i now
    refine ⟨fun hsize => ?_, fun r m' hrun => ?_⟩
    · obtain ⟨⟨nonempty, m1⟩, hrefill⟩ := htotal (hsize.resolve_left hwindow)
      obtain ⟨hexp, -, hne⟩ := hspec nonempty m1 hrefill
      simp only [hrefill, Option.bind_eq_bind, Option.bind_some]
      split_ifs with htop
      · obtain ⟨r, m', hrun, -⟩ := popTop_spec (hexp hwindow).step.valid now (hne.mp htop)
        exact ⟨_, hrun⟩
      · exact ⟨_, rfl⟩
    · simp only [Option.bind_eq_bind, Option.bind_eq_some_iff] at hrun
      obtain ⟨⟨nonempty, m1⟩, hrefill, hrest⟩ := hrun
      obtain ⟨hexp, htasks, hne⟩ := hspec nonempty m1 hrefill
      dsimp only at hrest
      split_ifs at hrest with htop
      · obtain ⟨r', m'', hrun, hexp', htasks', hlater⟩ :=
          popTop_spec (hexp hwindow).step.valid now (hne.mp htop)
        rw [hrest] at hrun
        cases hrun
        exact ⟨(hexp hwindow).trans hexp', htasks'.trans htasks, hlater⟩
      · cases hrest
        exact ⟨hexp hwindow, htasks, fun _ => hnil m' (not_not.mp fun h => htop (hne.mpr h))⟩
  · obtain ⟨r', m'', hrun', hspec⟩ := popTop_spec hv now fun h => hempty (TimerHeap.empty_iff.mpr h)
    refine ⟨fun _ => ⟨_, hrun'⟩, fun r m' hrun => ?_⟩
    rw [hrun] at hrun'
    cases hrun'
    exact hspec

/-- Posting changes neither shards nor timers. -/
theorem Expired.postTimer {m m' : TimerManager} {i : ShardId} {now : Time} {ps : List TimerPtr}
    (h : Expired m i now ps m') (t : TimerPtr) : Expired m i now ps (m'.postTimer t) :=
  ⟨⟨h.step.valid, h.step.queue, h.step.minDeadline, h.step.queueIndex, h.step.shards,
    h.step.timers⟩, h.due, h.nodup, h.deadline, h.closure, h.pending, h.count, h.window⟩

/-- The loop of `PopTimers` posts the closures of the timers it takes out, in that order. -/
theorem popTimersLoop_spec (i : ShardId) (now : Time) (fuel : Nat) :
    ∀ m : TimerManager, m.Valid →
      (now < (m.shards i).heapCapacity ∨ m.count i ≤ TimerHeap.maxTimers → m.count i < fuel →
        ∃ r, popTimersLoop i now fuel m = some r) ∧
      ∀ n m', popTimersLoop i now fuel m = some (n, m') →
        ∃ ps, Expired m i now ps m' ∧ n = ps.length ∧
          m'.tasks = m.tasks ++ ps.map (fun x => (m.timers x).closure) ∧
          ∀ x ∈ m'.heap i, now < (m'.timers x).deadline := by
  induction fuel with
  | zero =>
      exact fun m _ => ⟨fun _ hfuel => absurd hfuel (Nat.not_lt_zero _),
        fun n m' hrun => nomatch hrun⟩
  | succ fuel ih =>
      intro m hv
      obtain ⟨htotal, hspec⟩ := popOne_spec hv i now
      refine ⟨fun hsize hfuel => ?_, fun n m' hrun => ?_⟩
      · obtain ⟨⟨r, m1⟩, hpop⟩ := htotal hsize
        obtain ⟨hexp, -, -⟩ := hspec r m1 hpop
        simp only [popTimersLoop, hpop, Option.bind_eq_bind, Option.bind_some]
        cases r with
        | none => exact ⟨_, rfl⟩
        | some t =>
            have hcount := hexp.count
            rw [Option.toList_some, List.length_singleton] at hcount
            have hsize' : now < (m1.shards i).heapCapacity ∨ m1.count i ≤ TimerHeap.maxTimers := by
              refine hsize.imp (fun hw => ?_) fun hc => by omega
              rw [(hexp.window hw).1]
              exact hw
            obtain ⟨r, hr⟩ := (ih (m1.postTimer t) hexp.step.valid).1 hsize'
              (show m1.count i < fuel by omega)
            simp only [hr, Option.bind_some]
            exact ⟨_, rfl⟩
      · simp only [popTimersLoop, Option.bind_eq_bind, Option.bind_eq_some_iff] at hrun
        obtain ⟨⟨r, m1⟩, hpop, hrest⟩ := hrun
        obtain ⟨hexp, htasks, hlater⟩ := hspec r m1 hpop
        cases r with
        | none =>
            cases hrest
            exact ⟨[], hexp, rfl, by simpa using htasks, hlater rfl⟩
        | some t =>
            simp only [Option.bind_eq_some_iff, Option.some.injEq, Prod.mk.injEq] at hrest
            obtain ⟨⟨n', m2⟩, hloop, rfl, rfl⟩ := hrest
            obtain ⟨ps, hexp', rfl, htasks', hlater'⟩ :=
              (ih (m1.postTimer t) hexp.step.valid).2 n' m2 hloop
            refine ⟨t :: ps, (hexp.postTimer t).trans hexp', rfl, ?_, hlater'⟩
            have hclosure : ps.map (fun x => ((m1.postTimer t).timers x).closure) =
                ps.map fun x => (m.timers x).closure :=
              List.map_congr_left fun x _ => hexp.closure x
            rw [htasks', hclosure]
            simp only [TimerManager.postTimer, htasks, hexp.closure, List.append_assoc,
              List.map_cons, List.singleton_append]

/-- The next deadline a shard reports is at or before that of every timer of its heap, and is one
of them unless the heap is empty. -/
theorem computeMinDeadline_spec {m : TimerManager} (hv : m.Valid) (i : ShardId) :
    (∀ x ∈ m.heap i, m.computeMinDeadline i ≤ (m.timers x).deadline) ∧
    (m.heap i = [] ∧ m.computeMinDeadline i = Time.infinite ∨
      ∃ x ∈ m.heap i, m.computeMinDeadline i = (m.timers x).deadline) := by
  unfold computeMinDeadline
  cases htop : (m.shards i).urgentTimers.top with
  | none =>
      have hnil : m.heap i = [] := TimerHeap.top_eq_none.mp htop
      refine ⟨fun x hx => ?_, Or.inl ⟨hnil, rfl⟩⟩
      rw [hnil] at hx
      exact absurd hx List.not_mem_nil
  | some t =>
      exact ⟨fun x hx => (hv i).heap.top_le htop hx, Or.inr ⟨t, TimerHeap.top_mem htop, rfl⟩⟩

/-- `PopTimers` as a whole. Its rounds are enough, so only a heap beyond its size limit has no
result. -/
theorem popTimers_spec {m : TimerManager} (hv : m.Valid) (i : ShardId) (now : Time) :
    (now < (m.shards i).heapCapacity ∨ m.count i ≤ TimerHeap.maxTimers →
      ∃ r, m.popTimers i now = some r) ∧
    ∀ n newMin m', m.popTimers i now = some (n, newMin, m') →
      ∃ ps, Expired m i now ps m' ∧ n = ps.length ∧ newMin = m'.computeMinDeadline i ∧
        m'.tasks = m.tasks ++ ps.map (fun x => (m.timers x).closure) ∧
        ∀ x ∈ m'.heap i, now < (m'.timers x).deadline := by
  obtain ⟨htotal, hspec⟩ := popTimersLoop_spec i now (m.count i + 1) m hv
  refine ⟨fun hsize => ?_, fun n newMin m' hrun => ?_⟩
  · obtain ⟨⟨n, m'⟩, hloop⟩ := htotal hsize (Nat.lt_succ_self _)
    exact ⟨(n, m'.computeMinDeadline i, m'), Option.bind_eq_some_iff.mpr ⟨(n, m'), hloop, rfl⟩⟩
  · obtain ⟨⟨n', m1⟩, hloop, heq⟩ := Option.bind_eq_some_iff.mp hrun
    cases heq
    obtain ⟨ps, hexp, hn, htasks, hlater⟩ := hspec n m' hloop
    exact ⟨ps, hexp, hn, rfl, htasks, hlater⟩

end Iomgr.TimerManager
