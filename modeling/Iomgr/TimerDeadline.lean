import Iomgr.ShardPartition
import Iomgr.TimerCheck
import Iomgr.TimerExecution

/-!
When a timer fires, measured against the delay it was started with. `TimerInit` adds the delay to
the clock in 64 bits. Every comparison afterwards is with that sum, so a sum that wraps is a
deadline long past and the next `TimerCheck` fires the timer at once.
-/

namespace Iomgr.TimerManager

open TimerExecution (step_frame)

/-- No action starts the timer. -/
def NeverStarts (t : TimerPtr) (as : List Action) : Prop :=
  ∀ now timeout closure, Action.timerInit t now timeout closure ∉ as

/-- The section of `TimerCheck` that takes timers out of a shard takes this one. -/
def Fires (t : TimerPtr) (s s' : System) : Prop :=
  step s .timerCheckPop = some s' ∧ (s.manager.timers t).pending = true ∧
    (s'.manager.timers t).pending = false

/-- What the section of `TimerCheck` under a shard's mutex does. -/
theorem timerCheckPop_expired {s s' : System} (h : Invariant s)
    (hstep : step s .timerCheckPop = some s') :
    ∃ reading i ps, s.check = .loop reading ∧ Expired s.manager i reading ps s'.manager := by
  simp only [step] at hstep
  split at hstep
  · next reading hcheck =>
      obtain ⟨i, -, hrest⟩ := Option.bind_eq_some_iff.mp hstep
      split_ifs at hrest
      obtain ⟨⟨n, newMin, m⟩, hrun, heq⟩ := Option.bind_eq_some_iff.mp hrest
      cases heq
      obtain ⟨ps, hexp, -⟩ := (popTimers_spec h.tracked.valid i reading).2 n newMin m hrun
      exact ⟨reading, i, ps, hcheck, hexp⟩
  · cases hstep

/-- Only starting a timer sets its deadline. -/
theorem step_deadline {s s' : System} {a : Action} {t : TimerPtr} (h : Invariant s)
    (ha : NeverStarts t [a]) (hstep : step s a = some s') :
    (s'.manager.timers t).deadline = (s.manager.timers t).deadline := by
  cases a with
  | timerInit x now timeout closure =>
      have hne : t ≠ x := by
        rintro rfl
        exact ha now timeout closure List.mem_cons_self
      simp only [step] at hstep
      split_ifs at hstep with hpending
      obtain ⟨⟨m, init⟩, hrun, heq⟩ := Option.bind_eq_some_iff.mp hstep
      cases heq
      have hins := timerInitInsert_spec h.tracked.valid (Bool.not_eq_true _ ▸ hpending) hrun
      exact (hins.same t hne).1
  | timerCancel x =>
      obtain ⟨m, hrun, hc⟩ := timerCancel_spec h.tracked.valid x
      simp only [step, hrun, Option.bind_eq_bind, Option.bind_some, Option.some.injEq] at hstep
      subst hstep
      by_cases hx : t = x
      · subst hx
        exact hc.timer.1
      · exact (hc.same t hx).1
  | timerCheckPop =>
      obtain ⟨reading, i, ps, -, hexp⟩ := timerCheckPop_expired h hstep
      exact hexp.deadline t
  | timerInitPublish k =>
      rw [(step_frame (Or.inl ⟨k, rfl⟩) h hstep).1]
  | timerCheckLock now =>
      rw [(step_frame (Or.inr (Or.inl ⟨now, rfl⟩)) h hstep).1]
  | timerCheckStore =>
      rw [(step_frame (Or.inr (Or.inr (Or.inl rfl))) h hstep).1]
  | timerCheckUnlock =>
      rw [(step_frame (Or.inr (Or.inr (Or.inr rfl))) h hstep).1]

theorem run_deadline {t : TimerPtr} {as : List Action} :
    ∀ {s s' : System}, Invariant s → NeverStarts t as → Transition.run step s as = some s' →
      Invariant s' ∧ (s'.manager.timers t).deadline = (s.manager.timers t).deadline := by
  induction as with
  | nil =>
      intro s s' h _ hrun
      cases hrun
      exact ⟨h, rfl⟩
  | cons a as ih =>
      intro s s' h hnever hrun
      obtain ⟨u, hu, hrest⟩ := Transition.run_cons.mp hrun
      have hhead : NeverStarts t [a] := fun now timeout closure hin =>
        hnever now timeout closure (List.mem_cons.mpr (Or.inl (List.mem_singleton.mp hin)))
      have htail : NeverStarts t as := fun now timeout closure hin =>
        hnever now timeout closure (List.mem_cons_of_mem a hin)
      obtain ⟨hinv, hdeadline⟩ := ih (step_invariant s a u h hu) htail hrest
      exact ⟨hinv, hdeadline.trans (step_deadline h hhead hu)⟩

/-- A timer fires only at or after the deadline it has. -/
theorem Fires.deadline_le {t : TimerPtr} {s s' : System} (hfires : Fires t s s')
    (h : Invariant s) : ∃ reading, s.check = .loop reading ∧
      (s.manager.timers t).deadline ≤ reading := by
  obtain ⟨hstep, hpending, hdone⟩ := hfires
  obtain ⟨reading, i, ps, hcheck, hexp⟩ := timerCheckPop_expired h hstep
  have hmem : t ∈ ps := by
    by_contra hnot
    rw [(hexp.pending t).mpr ⟨hpending, hnot⟩] at hdone
    cases hdone
  exact ⟨reading, hcheck, (hexp.due t hmem).2.2⟩

/-! ### A deadline that wraps -/

theorem new_partitioned (i : ShardId) : new.ShardPartitioned i where
  heap := TimerHeap.new_valid _
  below _ hx := absurd hx List.not_mem_nil
  above _ hx := absurd hx List.not_mem_nil
  listIndex _ hx := absurd hx List.not_mem_nil
  once := List.nodup_nil

theorem add_neg_of_overflow {now : Time} {d : Time.Delta} (hnow : Time.zero ≤ now)
    (hover : 2 ^ 63 ≤ now.toInt + d.toInt) : (now.add d).toInt < 0 := by
  have hadd : (now.add d).toInt = (now.toInt + d.toInt).bmod (2 ^ 64) := by
    simp only [Time.add, Time.Delta.toInt, Time.toInt, Int64.toInt_add]
  have hn := now.toInt_lt
  have hd : d.toInt < 2 ^ 63 := d.timeOffset.toInt_lt
  rw [Time.le_iff, Time.toInt_zero] at hnow
  rw [hadd, Int.bmod_def]
  split_ifs <;> omega

/-- A timer started in a new manager: it is pending in a settled manager, and the other shards wait
for nothing. -/
theorem start_alone {now : Time} {d : Time.Delta} (t : TimerPtr)
    (hfinite : now.add d < Time.infinite) :
    ∃ m', Transition.run step System.new
        [.timerInit t now d none, .timerInitPublish 0] = some ⟨m', [], .idle⟩ ∧ Settled m' ∧
      (m'.timers t).pending = true ∧ (m'.timers t).deadline = now.add d ∧
      ∀ j, j ≠ shardOf t → (m'.shards j).minDeadline = Time.infinite := by
  obtain ⟨⟨m, init⟩, hinsert⟩ := (timerInitInsert_partitioned now d none
    (new_partitioned (shardOf t)) List.not_mem_nil).1 (show 0 < TimerHeap.maxTimers by decide)
  have hins := timerInitInsert_spec new_valid rfl hinsert
  obtain ⟨m', hpublish, -, hcases⟩ : ∃ m', m.timerInitPublish init = some m' ∧ Tracked m' [] ∧
      (m' = m ∨ Reordered (m.setMinDeadline init.shard init.deadline) m') :=
    (new_tracked.insert hins).publish fun p hp => Or.inl (List.mem_singleton.mp hp)
  have hsettled : Settled m' := new_settled.timerInit rfl hfinite
    (Option.bind_eq_some_iff.mpr ⟨(m, init), hinsert, hpublish⟩)
  have htimers : m'.timers = m.timers := by
    rcases hcases with rfl | hre
    · rfl
    · exact hre.timers
  have hother : ∀ j, j ≠ shardOf t → (m'.shards j).minDeadline = Time.infinite := by
    intro j hj
    have hm : (m.shards j).minDeadline = Time.infinite := hins.step.minDeadline j
    rcases hcases with rfl | hre
    · exact hm
    · rw [hre.minDeadline, setMinDeadline_shards_of_ne m _ (hins.initShard ▸ hj), hm]
  have hstart : step System.new (.timerInit t now d none) = some ⟨m, [init], .idle⟩ := by
    have hidle : (System.new.manager.timers t).pending = false := rfl
    simp only [step, hidle, Bool.false_eq_true, if_false]
    exact Option.bind_eq_some_iff.mpr ⟨(m, init), hinsert, rfl⟩
  have hsecond : step ⟨m, [init], .idle⟩ (.timerInitPublish 0) = some ⟨m', [], .idle⟩ := by
    simp only [step, List.getElem?_cons_zero, Option.bind_eq_bind, Option.bind_some, hpublish,
      List.eraseIdx_cons_zero]
  refine ⟨m', ?_, hsettled, htimers ▸ hins.timer.2.2, htimers ▸ hins.timer.1, hother⟩
  exact Transition.run_cons.mpr ⟨_, hstart, Transition.run_cons.mpr ⟨_, hsecond, rfl⟩⟩

/-- The first round of a check pops a timer that is due, when no other shard waits for one. -/
theorem Settled.fires {m : TimerManager} {reading : Time} {t : TimerPtr} (hsettled : Settled m)
    (hpending : (m.timers t).pending = true) (hdue : (m.timers t).deadline ≤ reading)
    (hfinite : reading < Time.infinite)
    (hother : ∀ j, j ≠ shardOf t → (m.shards j).minDeadline = Time.infinite) :
    ∃ s', Fires t ⟨m, [], .loop reading⟩ s' := by
  -- the shard of the timer is the first of the queue
  obtain ⟨i, hi, hmin⟩ := hsettled.tracked.queue.head_le
  have hle : (m.shards i).minDeadline ≤ reading :=
    (hmin (shardOf t)).trans ((hsettled.minDeadline_le hpending).trans hdue)
  obtain rfl : i = shardOf t := by
    by_contra hne
    rw [hother i hne] at hle
    exact absurd hfinite (not_lt.mpr hle)
  have hwindow : reading < (m.shards (shardOf t)).heapCapacity := by
    rw [hsettled.capacity]
    exact hfinite
  obtain ⟨htotal, hspec⟩ := popTimers_spec hsettled.tracked.valid (shardOf t) reading
  obtain ⟨⟨n, newMin, m'⟩, hpop⟩ := htotal (Or.inl hwindow)
  obtain ⟨ps, hexp, -, -, -, hlater⟩ := hspec n newMin m' hpop
  have hdone : (m'.timers t).pending = false := by
    by_contra hnot
    rw [Bool.not_eq_false] at hnot
    rcases ((hexp.step.valid (shardOf t)).pending t rfl).mp hnot with hheap | hlist
    · have hlt := hlater t hheap
      rw [hexp.deadline] at hlt
      exact absurd hdue (not_le.mpr hlt)
    · have hnil : (m'.shards (shardOf t)).lessUrgentTimers = [] :=
        (hexp.window hwindow).2.trans (hsettled.list (shardOf t))
      rw [hnil] at hlist
      exact absurd hlist List.not_mem_nil
  refine ⟨⟨m', [], .popped reading newMin⟩, ?_, hpending, hdone⟩
  simp only [step, hi, Option.bind_eq_bind, Option.bind_some, hle, if_true, hpop]

/-- The only timer of a new manager fires in the first round of a check at or after its deadline. -/
theorem single_timer_fires {now reading : Time} {d : Time.Delta} (t : TimerPtr)
    (hdue : now.add d ≤ reading) (hfinite : reading < Time.infinite) :
    ∃ s s', Transition.run step System.new
        [.timerInit t now d none, .timerInitPublish 0, .timerCheckLock reading] = some s ∧
      s.check = .loop reading ∧ Fires t s s' := by
  obtain ⟨m, hrun, hsettled, hpending, hdeadline, hother⟩ :=
    start_alone t (hdue.trans_lt hfinite)
  obtain ⟨s', hfires⟩ := hsettled.fires hpending (hdeadline ▸ hdue) hfinite hother
  refine ⟨⟨m, [], .loop reading⟩, s', ?_, rfl, hfires⟩
  show Transition.run step System.new
    ([.timerInit t now d none, .timerInitPublish 0] ++ [.timerCheckLock reading]) = _
  rw [Transition.run_append]
  exact ⟨_, hrun, rfl⟩

/-- A timer started at `now` with delay `d` never fires before `now + d`, in any interleaving,
exactly when the sum is a 64-bit number. -/
theorem fires_on_time_iff {now : Time} {d : Time.Delta} (hnow : Time.zero ≤ now)
    (hd : Time.Delta.zero ≤ d) :
    (∀ t closure as bs s s' s'' reading, Transition.run step System.new as = some s →
      Transition.run step s (.timerInit t now d closure :: bs) = some s' → NeverStarts t bs →
      s'.check = .loop reading → Fires t s' s'' → now.toInt + d.toInt ≤ reading.toInt) ↔
    now.toInt + d.toInt < 2 ^ 63 := by
  constructor
  · intro hontime
    by_contra hover
    rw [not_lt] at hover
    have hneg := add_neg_of_overflow hnow hover
    have hlt := now.toInt_lt
    have hdlt : d.toInt < 2 ^ 63 := d.timeOffset.toInt_lt
    rw [Time.le_iff, Time.toInt_zero] at hnow
    -- the start time itself as reading, but when it is infinite
    obtain ⟨reading, hdue, hfinite, hearly⟩ : ∃ reading : Time, now.add d ≤ reading ∧
        reading < Time.infinite ∧ reading.toInt < now.toInt + d.toInt := by
      by_cases hinf : now < Time.infinite
      · refine ⟨now, ?_, hinf, by omega⟩
        rw [Time.le_iff]
        omega
      · refine ⟨Time.zero, ?_, by decide, ?_⟩
        · rw [Time.le_iff, Time.toInt_zero]
          exact hneg.le
        · rw [Time.toInt_zero]
          omega
    obtain ⟨s, s', hrun, hcheck, hfires⟩ := single_timer_fires 4096 hdue hfinite
    refine absurd (hontime 4096 none [] _ _ s s' reading rfl hrun ?_ hcheck hfires) (not_le.mpr hearly)
    intro now' timeout closure hin
    simp at hin
  · intro hfits t closure as bs s s' s'' reading has hrun hnever hcheck hfires
    obtain ⟨u, hu, hbs⟩ := Transition.run_cons.mp hrun
    have hinv : Invariant s := Transition.run_invariant step_invariant new_invariant has
    have hstart : (u.manager.timers t).deadline = now.add d := by
      simp only [step] at hu
      split_ifs at hu with hpending
      obtain ⟨⟨m, init⟩, hinsert, heq⟩ := Option.bind_eq_some_iff.mp hu
      cases heq
      exact (timerInitInsert_spec hinv.tracked.valid (Bool.not_eq_true _ ▸ hpending) hinsert).timer.1
    obtain ⟨hinv', hdeadline⟩ := run_deadline (step_invariant _ _ _ hinv hu) hnever hbs
    obtain ⟨reading', hcheck', hle⟩ := hfires.deadline_le hinv'
    rw [hcheck] at hcheck'
    cases hcheck'
    rw [Time.le_iff, Time.toInt_zero] at hnow
    rw [Time.Delta.le_iff, Time.Delta.toInt_zero] at hd
    rw [hdeadline, hstart, Time.le_iff, Time.toInt_add_of_bounds (by omega) hfits] at hle
    exact hle

/-- A delay of 10 ms, a second after the clock started. -/
theorem fires_on_time_ten_milliseconds :
    let now : Time := ⟨1000000⟩
    let d := Time.Delta.fromMilliseconds 10
    Time.zero ≤ now ∧ Time.Delta.zero ≤ d ∧
    ∀ t closure as bs s s' s'' reading, Transition.run step System.new as = some s →
      Transition.run step s (.timerInit t now d closure :: bs) = some s' → NeverStarts t bs →
      s'.check = .loop reading → Fires t s' s'' → now.toInt + d.toInt ≤ reading.toInt := by
  refine ⟨by decide, by decide, ?_⟩
  exact (fires_on_time_iff (by decide) (by decide)).mpr (by decide)

/-- Started at 1 µs with the infinite delay, checked at the same time. -/
theorem infinite_delay_fires_at_once :
    ∃ s s', Transition.run step System.new
        [.timerInit 4096 ⟨1⟩ Time.Delta.infinite (some 1), .timerInitPublish 0,
          .timerCheckLock ⟨1⟩] = some s ∧
      s.check = .loop ⟨1⟩ ∧ Fires 4096 s s' ∧ s'.manager.tasks = [some 1] ∧
      ¬(⟨1⟩ : Time).toInt + Time.Delta.infinite.toInt ≤ (⟨1⟩ : Time).toInt := by
  refine ⟨_, _, rfl, rfl, ⟨rfl, ?_, ?_⟩, ?_, ?_⟩
  · decide
  · decide
  · decide
  · decide

end Iomgr.TimerManager
