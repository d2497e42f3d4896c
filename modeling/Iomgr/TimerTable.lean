import Iomgr.DeadlineTable
import Iomgr.TimerCheck

/-!
The timer manager as a table of deadlines. Between calls the pending timers are the table; starting,
cancelling and checking do to it what the table's own operations do, whatever the shards and their
queue look like. Timers of one shard fire in the order of their deadlines: they all come from the top
of one heap.
-/

namespace Iomgr.TimerManager

open DeadlineTable (Table Label Firing)
open Refinement (Trace)

/-! ### The order of firing -/

/-- What `PopOne` takes is at or before every timer of the heap. -/
theorem popOne_least {m m' : TimerManager} (hv : m.Valid) {i : ShardId} {now : Time} {t : TimerPtr}
    (hrun : m.popOne i now = some (some t, m')) :
    ∀ x ∈ m.heap i, (m.timers t).deadline ≤ (m.timers x).deadline := by
  intro x hx
  have hne : ¬(m.shards i).urgentTimers.empty = true := by
    rw [TimerHeap.empty_iff]
    exact List.ne_nil_of_mem hx
  rw [popOne, if_neg hne] at hrun
  obtain ⟨top, htop, hrest⟩ := Option.bind_eq_some_iff.mp hrun
  split_ifs at hrest with hlate
  · cases hrest
  · obtain ⟨r, -, heq⟩ := Option.bind_eq_some_iff.mp hrest
    cases heq
    exact (hv i).heap.top_le htop hx

/-- The loop of `PopTimers` takes the timers of a shard in the order of their deadlines, when none
of those that are due is on the list. -/
theorem popTimersLoop_sorted (i : ShardId) (now : Time) (fuel : Nat) :
    ∀ m : TimerManager, m.Valid → now < (m.shards i).heapCapacity →
      (∀ x ∈ m.list i, now < (m.timers x).deadline) →
      ∀ n m', popTimersLoop i now fuel m = some (n, m') →
        ∃ ps, Expired m i now ps m' ∧
          m'.tasks = m.tasks ++ ps.map (fun x => (m.timers x).closure) ∧
          (∀ x ∈ m'.heap i, now < (m'.timers x).deadline) ∧
          ps.Pairwise fun x y => (m.timers x).deadline ≤ (m.timers y).deadline := by
  induction fuel with
  | zero => exact fun m _ _ _ n m' hrun => by cases hrun
  | succ fuel ih =>
      intro m hv hwindow hlist n m' hrun
      obtain ⟨⟨r, m1⟩, hpop, hrest⟩ := Option.bind_eq_some_iff.mp hrun
      obtain ⟨hexp, htasks, hlater⟩ := (popOne_spec hv i now).2 r m1 hpop
      cases r with
      | none =>
          cases hrest
          exact ⟨[], hexp, by simpa using htasks, hlater rfl, List.Pairwise.nil⟩
      | some t =>
          obtain ⟨⟨n', m2⟩, hloop, heq⟩ := Option.bind_eq_some_iff.mp hrest
          cases heq
          obtain ⟨hcapacity, hsamelist⟩ := hexp.window hwindow
          have hlist1 : ∀ x ∈ (m1.postTimer t).list i, now < ((m1.postTimer t).timers x).deadline := by
            intro x hx
            rw [show ((m1.postTimer t).timers x).deadline = (m.timers x).deadline from
              hexp.deadline x]
            refine hlist x ?_
            rw [← hsamelist]
            exact hx
          obtain ⟨ps, hexp', htasks', hlater', hsorted⟩ := ih (m1.postTimer t) hexp.step.valid
            (show now < (m1.shards i).heapCapacity from hcapacity ▸ hwindow) hlist1 n' m' hloop
          have hsame : ∀ x, ((m1.postTimer t).timers x).deadline = (m.timers x).deadline :=
            hexp.deadline
          refine ⟨t :: ps, (hexp.postTimer t).trans hexp', ?_, hlater', ?_⟩
          · have hclosure : ps.map (fun x => ((m1.postTimer t).timers x).closure) =
                ps.map fun x => (m.timers x).closure :=
              List.map_congr_left fun x _ => hexp.closure x
            rw [htasks', hclosure]
            simp only [TimerManager.postTimer, htasks, hexp.closure, List.append_assoc,
              List.map_cons, List.singleton_append]
          · refine List.pairwise_cons.mpr ⟨fun x hx => ?_, ?_⟩
            · -- a timer taken later was pending and due before, so it was in the heap
              obtain ⟨hshard, hpending, hdue⟩ := hexp'.due x hx
              have hpending' := ((hexp.pending x).mp hpending).1
              rw [hsame] at hdue
              have hin := (((hv i).pending x hshard).mp hpending').resolve_right fun hl =>
                absurd (hlist x hl) (not_lt.mpr hdue)
              exact popOne_least hv hpop x hin
            · simpa only [hsame] using hsorted

/-- A round of `TimerCheck` fires timers of one shard, in order, and leaves none of them due. -/
theorem Settled.round_sorted {m m1 m' : TimerManager} {now newMin : Time} {i : ShardId} {n : Nat}
    (h : Settled m) (hnow : now < Time.infinite) (hdue : (m.shards i).minDeadline ≤ now)
    (hpop : m.popTimers i now = some (n, newMin, m1))
    (hstore : (m1.setMinDeadline i newMin).onDeadlineChanged i = some m') :
    Settled m' ∧ ∃ ps, Fired m now ps m' ∧ (∀ x ∈ ps, shardOf x = i) ∧
      (ps.Pairwise fun x y => (m.timers x).deadline ≤ (m.timers y).deadline) ∧
      ∀ x, shardOf x = i → (m'.timers x).pending = true → now < (m'.timers x).deadline := by
  obtain ⟨n', newMin', m1', m'', -, hpop', hstore', hsettled, -, -⟩ := timerCheck_round h hnow hdue
  rw [hpop] at hpop'
  cases hpop'
  rw [hstore] at hstore'
  cases hstore'
  obtain ⟨⟨k, m2⟩, hloop, heq⟩ := Option.bind_eq_some_iff.mp hpop
  cases heq
  have hwindow : now < (m.shards i).heapCapacity := h.capacity i ▸ hnow
  obtain ⟨ps, hexp, htasks, hlater, hsorted⟩ := popTimersLoop_sorted i now _ m h.tracked.valid
    hwindow (fun x hx => absurd (h.list i ▸ hx) List.not_mem_nil) _ _ hloop
  have hre := onDeadlineChanged_reordered hstore
  have htimers : m'.timers = m1.timers := hre.timers
  refine ⟨hsettled, ps, ⟨fun x hx => (hexp.due x hx).2, hexp.nodup, fun x => ?_, fun x => ?_,
    fun x => ?_, hre.tasks.trans htasks⟩, fun x hx => (hexp.due x hx).1, hsorted,
    fun x hx hpending => ?_⟩
  · rw [htimers, hexp.deadline]
  · rw [htimers, hexp.closure]
  · rw [htimers, hexp.pending]
  · have hheap := hsettled.mem_heap hpending
    have hsame : m'.heap i = m1.heap i := by
      have hshard := hre.shards i
      rw [setMinDeadline_shards_self] at hshard
      rw [heap, hshard, heap]
    rw [hx, hsame] at hheap
    rw [htimers]
    exact hlater x hheap

/-- What `TimerCheck` fires, shard by shard in the order of the deadlines. -/
theorem timerCheckLoop_sorted {now : Time} (hnow : now < Time.infinite) (fuel : Nat) :
    ∀ m m' : TimerManager, Settled m → timerCheckLoop now fuel m = some m' →
      Settled m' ∧ (∀ i, now < (m'.shards i).minDeadline) ∧ ∃ ps, Fired m now ps m' ∧
        ps.Pairwise fun x y => shardOf x = shardOf y →
          (m.timers x).deadline ≤ (m.timers y).deadline := by
  induction fuel with
  | zero => exact fun m m' _ hrun => by cases hrun
  | succ fuel ih =>
      intro m m' h hrun
      obtain ⟨i, hi, hleast⟩ := h.tracked.queue.head_le
      simp only [timerCheckLoop, hi, Option.bind_eq_bind, Option.bind_some] at hrun
      split_ifs at hrun with hdue
      · obtain ⟨⟨n, newMin, m1⟩, hpop, hrest⟩ := Option.bind_eq_some_iff.mp hrun
        obtain ⟨m2, hstore, hloop⟩ := Option.bind_eq_some_iff.mp hrest
        obtain ⟨hsettled, ps, hfired, hshard, hsorted, hlater⟩ :=
          h.round_sorted hnow hdue hpop hstore
        obtain ⟨hsettled', hmin, qs, hfired', hsorted'⟩ := ih m2 m' hsettled hloop
        refine ⟨hsettled', hmin, ps ++ qs, hfired.trans hfired', List.pairwise_append.mpr
          ⟨?_, ?_, fun x hx y hy heq => ?_⟩⟩
        · exact hsorted.imp fun {x y} hle (_ : shardOf x = shardOf y) => hle
        · simpa only [hfired.deadline] using hsorted'
        · -- no timer of a shard that has had its round fires again
          obtain ⟨hpending, hdue'⟩ := hfired'.due y hy
          have hnot := hlater y (heq ▸ hshard x hx) hpending
          exact absurd hdue' (not_le.mpr hnot)
      · cases hrun
        exact ⟨h, fun j => (not_le.mp hdue).trans_le (hleast j), [], Fired.refl m now,
          List.Pairwise.nil⟩

/-! ### The table -/

/-- The pending timers. -/
def tableOf (m : TimerManager) : Table TimerPtr Time Closure := fun x =>
  if (m.timers x).pending then some ((m.timers x).deadline, (m.timers x).closure) else none

/-- Until when `TimerCheck` lets its caller wait. -/
def wakeTime (now : Time) (delta : Time.Delta) : Time :=
  if delta.isInfinite then Time.infinite else now.add delta

/-- Whole calls as they are meant to be made, with what their callers see: a timer is not started
while it is pending, its deadline does not overflow and is not infinite, and the clock is not
negative. -/
inductive Call : TimerManager → Label TimerPtr Time Closure → TimerManager → Prop
  | timerInit {m m' : TimerManager} {now : Time} {timeout : Time.Delta} {closure : Closure}
      {t : TimerPtr} (hidle : (m.timers t).pending = false)
      (hlow : -2 ^ 63 ≤ now.toInt + timeout.toInt)
      (hhigh : now.toInt + timeout.toInt < Time.infinite.toInt)
      (hrun : m.timerInit now timeout closure t = some m') :
      Call m (.start t (now.add timeout) closure) m'
  | timerCancel {m m' : TimerManager} {t : TimerPtr} (hrun : m.timerCancel t = some m') :
      Call m (.cancel t) m'
  | timerCheck {m m' : TimerManager} {now : Time} {fuel : Nat} {delta : Time.Delta}
      {posted : List Closure} (hclock : Time.zero ≤ now)
      (hrun : timerCheck fuel now m = some (delta, m')) (htasks : m'.tasks = m.tasks ++ posted) :
      Call m (.check now (wakeTime now delta) posted) m'

theorem tableOf_eq_some {m : TimerManager} {x : TimerPtr} {d : Time} {a : Closure} :
    tableOf m x = some (d, a) ↔
      (m.timers x).pending = true ∧ (m.timers x).deadline = d ∧ (m.timers x).closure = a := by
  unfold tableOf
  split_ifs with h
  · simp [h]
  · simp [h]

theorem tableOf_congr {m m' : TimerManager} {x : TimerPtr} (h : TimerSame m.timers m'.timers x) :
    tableOf m' x = tableOf m x := by
  rw [tableOf, tableOf, h.1, h.2.1, h.2.2]

theorem tableOf_of_timers {m m' : TimerManager} (h : m'.timers = m.timers) :
    tableOf m' = tableOf m := by
  funext x
  rw [tableOf, tableOf, h]

theorem timerInit_table {m m' : TimerManager} {now : Time} {timeout : Time.Delta}
    {closure : Closure} {t : TimerPtr} (h : Settled m) (hidle : (m.timers t).pending = false)
    (hrun : m.timerInit now timeout closure t = some m') :
    tableOf m' = Function.update (tableOf m) t (some (now.add timeout, closure)) := by
  obtain ⟨⟨m1, init⟩, hinsert, hpublish⟩ := Option.bind_eq_some_iff.mp hrun
  have hins := timerInitInsert_spec h.tracked.valid hidle hinsert
  have htimers : m'.timers = m1.timers := by
    have hin : ∀ p ∈ [init], p = init ∨ p ∈ ([] : List PendingInit) :=
      fun p hp => Or.inl (List.mem_singleton.mp hp)
    obtain ⟨m2, hrun2, -, hcases⟩ := (h.tracked.insert hins).publish hin
    have heq : m2 = m' := Option.some.inj (hrun2.symm.trans hpublish)
    subst heq
    rcases hcases with rfl | hre
    · rfl
    · exact hre.timers
  rw [tableOf_of_timers htimers]
  funext x
  by_cases hx : x = t
  · subst hx
    rw [Function.update_self, tableOf_eq_some]
    exact ⟨hins.timer.2.2, hins.timer.1, hins.timer.2.1⟩
  · rw [Function.update_of_ne hx]
    exact tableOf_congr (hins.same x hx)

theorem Cancelled.table {m m' : TimerManager} {t : TimerPtr} (h : Cancelled m t m') :
    tableOf m' = Function.update (tableOf m) t none := by
  funext x
  by_cases hx : x = t
  · subst hx
    rw [Function.update_self, tableOf, h.timer.2.2]
    rfl
  · rw [Function.update_of_ne hx]
    exact tableOf_congr (h.same x hx)

theorem Fired.table {m m' : TimerManager} {now : Time} {ps : List TimerPtr}
    (h : Fired m now ps m') : tableOf m' = fun x => if x ∈ ps then none else tableOf m x := by
  funext x
  have hpending := h.pending x
  unfold tableOf
  rw [h.deadline, h.closure]
  by_cases hx : x ∈ ps
  · simp only [hx, not_true, and_false, iff_false] at hpending
    simp [hx, hpending]
  · simp only [hx, not_false_eq_true, and_true] at hpending
    simp [hx, hpending]

/-- The closures posted for the timers `ps` are the payloads of their entries. -/
theorem filterMap_tableOf {m m' : TimerManager} {now : Time} {ps : List TimerPtr}
    (h : Fired m now ps m') :
    (ps.filterMap fun x => (tableOf m x).map Prod.snd) = ps.map fun x => (m.timers x).closure := by
  rw [← List.filterMap_eq_map]
  refine List.filterMap_congr fun x hx => ?_
  simp [tableOf, (h.due x hx).1]

/-- The manager and the table it stands for. -/
def Represents (m : TimerManager) (table : Table TimerPtr Time Closure) : Prop :=
  Settled m ∧ table = tableOf m

/-- The time that `TimerCheck` names is the least `min_deadline`. -/
theorem wakeTime_of_sub {now bound : Time} (hclock : Time.zero ≤ now) (hlater : now < bound) :
    wakeTime now (if !bound.isInfinite then bound.sub now else Time.Delta.infinite) = bound := by
  by_cases hinf : bound = Time.infinite
  · rw [hinf]
    rfl
  · have hfalse : bound.isInfinite = false := by
      rw [← Bool.not_eq_true, Time.isInfinite_iff]
      exact hinf
    have hsub := Time.toInt_sub_of_nonneg hclock hlater.le
    have hbound : bound < Time.infinite := lt_of_le_of_ne (Time.le_infinite _) hinf
    rw [Time.lt_iff] at hbound hlater
    rw [Time.le_iff, Time.toInt_zero] at hclock
    have hfinite : (bound.sub now).isInfinite = false := by
      rw [← Bool.not_eq_true, Time.Delta.isInfinite_iff]
      intro heq
      rw [heq, Time.Delta.toInt_infinite] at hsub
      rw [Time.toInt_infinite] at hbound
      omega
    rw [hfalse, Bool.not_false, if_pos rfl, wakeTime, hfinite, if_neg Bool.false_ne_true]
    apply Time.toInt_injective
    rw [Time.toInt_add_of_bounds, hsub]
    · omega
    · have := bound.le_toInt
      omega
    · have := bound.toInt_lt
      omega

theorem Represents.timerCheck {m m' : TimerManager} {now : Time} {fuel : Nat} {delta : Time.Delta}
    {posted : List Closure} (h : Settled m) (hclock : Time.zero ≤ now)
    (hrun : timerCheck fuel now m = some (delta, m')) (htasks : m'.tasks = m.tasks ++ posted) :
    DeadlineTable.Step shardOf (tableOf m) (.check now (wakeTime now delta) posted) (tableOf m') := by
  rcases eq_or_lt_of_le now.le_infinite with rfl | hnow
  · rw [timerCheck_infinite] at hrun
    cases hrun
  · obtain ⟨m1, hloop, hrest⟩ := Option.bind_eq_some_iff.mp hrun
    obtain ⟨i, hi, heq⟩ := Option.bind_eq_some_iff.mp hrest
    cases heq
    obtain ⟨hsettled, hmin, ps, hfired, hsorted⟩ := timerCheckLoop_sorted hnow fuel m m' h hloop
    obtain ⟨j, hj, hleast⟩ := hsettled.tracked.queue.head_le
    rw [hi] at hj
    cases hj
    have hposted : posted = ps.filterMap fun x => (tableOf m x).map Prod.snd := by
      rw [filterMap_tableOf hfired]
      exact List.append_cancel_left (htasks.symm.trans hfired.tasks)
    rw [wakeTime_of_sub hclock (hmin i), hfired.table, hposted]
    refine DeadlineTable.Step.check ⟨hfired.nodup, fun x => ?_, ?_⟩ (hmin i) fun x d a hx hlater => ?_
    · refine ⟨fun hx => ⟨_, _, tableOf_eq_some.mpr ⟨(hfired.due x hx).1, rfl, rfl⟩,
        (hfired.due x hx).2⟩, ?_⟩
      rintro ⟨d, a, hx, hdue⟩
      obtain ⟨hpending, rfl, -⟩ := tableOf_eq_some.mp hx
      -- were it left, it would be past the clock
      by_contra hnot
      have hstill := (hfired.pending x).mpr ⟨hpending, hnot⟩
      have hlate := (hmin (shardOf x)).trans_le (hsettled.minDeadline_le hstill)
      rw [hfired.deadline] at hlate
      exact absurd hdue (not_le.mpr hlate)
    · refine hsorted.imp fun {x y} hle hshard d a d' a' hx hy => ?_
      obtain ⟨-, rfl, -⟩ := tableOf_eq_some.mp hx
      obtain ⟨-, rfl, -⟩ := tableOf_eq_some.mp hy
      exact hle hshard
    · obtain ⟨hpending, rfl, -⟩ := tableOf_eq_some.mp hx
      have hnot : x ∉ ps := fun hin => absurd (hfired.due x hin).2 (not_le.mpr hlater)
      have hle := hsettled.minDeadline_le ((hfired.pending x).mpr ⟨hpending, hnot⟩)
      rw [hfired.deadline] at hle
      exact (hleast (shardOf x)).trans hle

theorem call_simulates : Refinement.Simulates Call (DeadlineTable.Step shardOf) Represents := by
  rintro m table l m' ⟨h, rfl⟩ hcall
  cases hcall with
  | @timerInit _ now timeout closure t hidle hlow hhigh hrun =>
      have hfinite : now.add timeout < Time.infinite := by
        rw [Time.lt_iff, Time.toInt_add_of_bounds hlow]
        · exact hhigh
        · rw [Time.toInt_infinite] at hhigh
          omega
      refine ⟨tableOf m', ?_, h.timerInit hidle hfinite hrun, rfl⟩
      rw [timerInit_table h hidle hrun]
      apply DeadlineTable.Step.start
      rw [tableOf, hidle]
      rfl
  | @timerCancel _ t hrun =>
      obtain ⟨m1, hrun1, hc⟩ := timerCancel_spec h.tracked.valid t
      rw [hrun] at hrun1
      cases hrun1
      refine ⟨tableOf m', ?_, h.timerCancel hrun, rfl⟩
      rw [hc.table]
      exact DeadlineTable.Step.cancel
  | timerCheck hclock hrun htasks =>
      exact ⟨tableOf m', Represents.timerCheck h hclock hrun htasks, h.timerCheck hrun, rfl⟩

theorem new_represents : Represents new fun _ => none := by
  refine ⟨new_settled, funext fun x => ?_⟩
  rfl

/-- The timer manager refines the table of deadlines: what the callers see of any sequence of calls
that starts no pending timer, with finite deadlines and a clock that is not negative, is what they
would see of a table that arms, disarms and fires keys, the keys of one shard in the order of their
deadlines; and the pending timers are the table's entries at every moment between calls. -/
theorem manager_refines_table {ls : List (Label TimerPtr Time Closure)} {m : TimerManager}
    (h : Trace Call new ls m) :
    ∃ table, Trace (DeadlineTable.Step shardOf) (fun _ => none) ls table ∧
      ∀ x d a, table x = some (d, a) ↔
        (m.timers x).pending = true ∧ (m.timers x).deadline = d ∧ (m.timers x).closure = a := by
  obtain ⟨table, htrace, -, rfl⟩ := call_simulates.trace new_represents h
  exact ⟨tableOf m, htrace, fun x d a => tableOf_eq_some⟩

/-- Two timers of one shard are started and one of them fires. -/
theorem manager_refines_table_two_timers :
    ∃ wake m table, Trace Call new [.start 4096 ⟨10⟩ (some 7), .start 4224 ⟨30⟩ (some 8),
        .check ⟨20⟩ wake [some 7]] m ∧
      Trace (DeadlineTable.Step shardOf) (fun _ => none) [.start 4096 ⟨10⟩ (some 7),
        .start 4224 ⟨30⟩ (some 8), .check ⟨20⟩ wake [some 7]] table ∧
      table 4096 = none ∧ table 4224 = some (⟨30⟩, some 8) := by
  obtain ⟨m1, hstart, m2, hsecond, m3, delta, hcheck, hidle, htasks, hpending⟩ :
      ∃ m1, new.timerInit Time.zero ⟨10⟩ (some 7) 4096 = some m1 ∧
        ∃ m2, m1.timerInit ⟨5⟩ ⟨25⟩ (some 8) 4224 = some m2 ∧
        ∃ m3 delta, timerCheck 9 ⟨20⟩ m2 = some (delta, m3) ∧ (m1.timers 4224).pending = false ∧
          m3.tasks = m2.tasks ++ [some 7] ∧ (m3.timers 4096).pending = false ∧
          (m3.timers 4224).pending = true ∧ (m3.timers 4224).deadline = ⟨30⟩ ∧
          (m3.timers 4224).closure = some 8 :=
    ⟨_, rfl, _, rfl, _, _, rfl, by decide +kernel, by decide +kernel, by decide +kernel⟩
  have htrace : Trace Call new [.start 4096 ⟨10⟩ (some 7), .start 4224 ⟨30⟩ (some 8),
      .check ⟨20⟩ (wakeTime ⟨20⟩ delta) [some 7]] m3 :=
    Trace.cons (Call.timerInit rfl (by decide) (by decide) hstart)
      (Trace.cons (Call.timerInit hidle (by decide) (by decide) hsecond)
        (Trace.cons (Call.timerCheck (by decide) hcheck htasks) (Trace.nil m3)))
  obtain ⟨table, htable, hentries⟩ := manager_refines_table htrace
  refine ⟨_, m3, table, htrace, htable, Option.eq_none_iff_forall_ne_some.mpr fun e he => ?_,
    (hentries 4224 ⟨30⟩ (some 8)).mpr hpending.2⟩
  have hstill := ((hentries 4096 e.1 e.2).mp he).1
  rw [hpending.1] at hstill
  cases hstill

theorem Call.tasks_count {m m' : TimerManager} {l : Label TimerPtr Time Closure} (h : Settled m)
    (hcall : Call m l m') (closure : Closure) :
    m'.tasks.countP (fun c => c = closure) =
      m.tasks.countP (fun c => c = closure) + DeadlineTable.posted closure [l] := by
  cases hcall with
  | @timerInit _ now timeout c t hidle hlow hhigh hrun =>
      obtain ⟨⟨m1, init⟩, hinsert, hpublish⟩ := Option.bind_eq_some_iff.mp hrun
      have hins := timerInitInsert_spec h.tracked.valid hidle hinsert
      have hin : ∀ p ∈ [init], p = init ∨ p ∈ ([] : List PendingInit) :=
        fun p hp => Or.inl (List.mem_singleton.mp hp)
      obtain ⟨m2, hrun2, -, hcases⟩ := (h.tracked.insert hins).publish hin
      have heq : m2 = m' := Option.some.inj (hrun2.symm.trans hpublish)
      subst heq
      have htasks : m2.tasks = m.tasks := by
        rcases hcases with rfl | hre
        · exact hins.tasks
        · exact hre.tasks.trans hins.tasks
      rw [htasks]
      rfl
  | @timerCancel _ t hrun =>
      obtain ⟨m1, hrun1, hc⟩ := timerCancel_spec h.tracked.valid t
      rw [hrun] at hrun1
      cases hrun1
      rw [hc.tasks]
      rfl
  | timerCheck hclock hrun htasks =>
      rw [htasks, List.countP_append, DeadlineTable.posted, DeadlineTable.posted, Nat.add_zero]

theorem trace_tasks_count {m m' : TimerManager} {ls : List (Label TimerPtr Time Closure)}
    (h : Settled m) (htrace : Trace Call m ls m') (closure : Closure) :
    m'.tasks.countP (fun c => c = closure) =
      m.tasks.countP (fun c => c = closure) + DeadlineTable.posted closure ls := by
  induction htrace with
  | nil m => rfl
  | cons first rest ih =>
      obtain ⟨-, -, hsettled, -⟩ := call_simulates _ _ _ _ ⟨h, rfl⟩ first
      rw [ih hsettled, first.tasks_count h, Nat.add_assoc, ← DeadlineTable.posted_cons]

/-- No closure is posted to the task runner more often than timers were started with it, when none
is started while it is pending. -/
theorem closure_posted_at_most_started {ls : List (Label TimerPtr Time Closure)} {m : TimerManager}
    (h : Trace Call new ls m) (closure : Closure) :
    m.tasks.countP (fun c => c = closure) ≤ DeadlineTable.started closure ls := by
  obtain ⟨table, htrace, -⟩ := call_simulates.trace new_represents h
  rw [trace_tasks_count new_settled h, show new.tasks = [] from rfl, List.countP_nil, Nat.zero_add]
  exact DeadlineTable.posted_le_started closure htrace

/-- A timer is started, fires, and is started with the same closure again. -/
theorem closure_posted_at_most_started_again :
    ∃ wake m, Trace Call new [.start 4096 ⟨10⟩ (some 7), .check ⟨10⟩ wake [some 7],
        .start 4096 ⟨30⟩ (some 7)] m ∧ m.tasks = [some 7] ∧
      m.tasks.countP (fun c => c = some 7) ≤ 2 := by
  obtain ⟨m1, hstart, m2, delta, hcheck, m3, hagain, htasks, hidle, hposted⟩ :
      ∃ m1, new.timerInit Time.zero ⟨10⟩ (some 7) 4096 = some m1 ∧
        ∃ m2 delta, timerCheck 9 ⟨10⟩ m1 = some (delta, m2) ∧
        ∃ m3, m2.timerInit ⟨10⟩ ⟨20⟩ (some 7) 4096 = some m3 ∧ m2.tasks = m1.tasks ++ [some 7] ∧
          (m2.timers 4096).pending = false ∧ m3.tasks = [some 7] :=
    ⟨_, rfl, _, _, rfl, _, rfl, by decide +kernel, by decide +kernel, by decide +kernel⟩
  have htrace : Trace Call new [.start 4096 ⟨10⟩ (some 7),
      .check ⟨10⟩ (wakeTime ⟨10⟩ delta) [some 7], .start 4096 ⟨30⟩ (some 7)] m3 :=
    Trace.cons (Call.timerInit rfl (by decide) (by decide) hstart)
      (Trace.cons (Call.timerCheck (by decide) hcheck htasks)
        (Trace.cons (Call.timerInit hidle (by decide) (by decide) hagain) (Trace.nil m3)))
  exact ⟨_, m3, htrace, hposted, closure_posted_at_most_started htrace (some 7)⟩

end Iomgr.TimerManager
