import Iomgr.Task
import Iomgr.TimerRearm

/-!
Timers and the task runner as one system: `Start` and `Cancel` of controllers, `TimerCheck` posting
the closures of due timers, and workers that take the posted tasks and run them. A `Cancel` reaches
a timer that is still in its shard. Once the closure is posted the timer is no longer pending, and
`Cancel` returns without a look at the task, whose handle is kept in the controller but never used
to cancel it. A timer that is started while it is pending is in its shard twice, and a `Cancel` takes
it out once.
-/

namespace Iomgr.TimerExecution

/-- Where a worker is with a task: it has taken it from the queue, has started it, or is in the
closure. -/
inductive WorkerPc
  | idle
  | dequeued (id : Nat)
  | started (id : Nat)
  | running (id : Nat)
  deriving DecidableEq

/-- A `Start` is named by its position in `starts`, which holds its controller, and its closure by
the same number; a task is named by its position among the posted ones. `cancelled` records the
starts of a controller made before a `Cancel` of it that has returned, `late` that the closure of
one of these began afterwards. -/
structure System (Worker : Type) where
  timer : TimerManager.System
  starts : List TimerPtr
  taskState : Nat → TaskState
  dequeued : Nat
  workers : Worker → WorkerPc
  cancelled : List Nat
  late : Bool

inductive Action (Worker : Type)
  | start (t : TimerPtr) (now : Time) (timeout : Time.Delta)
  | startPublish (k : Nat)
  | cancel (t : TimerPtr)
  | checkLock (now : Time)
  | checkPop
  | checkStore
  | checkUnlock
  | dequeue (w : Worker)
  | run (w : Worker)
  | enter (w : Worker)
  | finish (w : Worker)
  deriving DecidableEq

variable {Worker : Type}

def System.new : System Worker where
  timer := TimerManager.System.new
  starts := []
  taskState _ := .kPending
  dequeued := 0
  workers _ := .idle
  cancelled := []
  late := false

/-- The closures posted so far, in order. -/
def System.tasks (s : System Worker) : List Closure := s.timer.manager.tasks

/-- The starts of a controller so far. -/
def System.startsOf (s : System Worker) (t : TimerPtr) : List Nat :=
  (List.range s.starts.length).filter fun k => s.starts[k]? == some t

/-- The task runs the closure of a cancelled start. -/
def System.runsCancelled (s : System Worker) (id : Nat) : Bool :=
  match s.tasks[id]? with
  | some (some k) => k ∈ s.cancelled
  | _ => false

section Step

variable [DecidableEq Worker]

def System.goto (s : System Worker) (w : Worker) (pc : WorkerPc) : System Worker :=
  { s with workers := Function.update s.workers w pc }

/-- A worker's step: `RunTasks` and `Task::Run`. -/
def stepWorker (s : System Worker) : Action Worker → Option (System Worker)
  | .dequeue w =>
      if s.workers w = .idle ∧ s.dequeued < s.tasks.length then
        some ({ s with dequeued := s.dequeued + 1 }.goto w (.dequeued s.dequeued))
      else none
  | .run w =>
      match s.workers w with
      | .dequeued id =>
          if s.taskState id = .kPending then
            some ({ s with taskState := Function.update s.taskState id .kRunning }.goto w (.started id))
          else some (s.goto w .idle)
      | _ => none
  | .enter w =>
      match s.workers w with
      | .started id => some { s.goto w (.running id) with late := s.late || s.runsCancelled id }
      | _ => none
  | .finish w =>
      match s.workers w with
      | .running id =>
          some ({ s with taskState := Function.update s.taskState id .kCompleted }.goto w .idle)
      | _ => none
  | _ => none

/-- A critical section of the timer manager. -/
def stepTimer (s : System Worker) : Action Worker → Option (System Worker)
  | .start t now timeout => do
      let timer ← TimerManager.startStep s.timer (.timerInit t now timeout (some s.starts.length))
      some { s with timer := timer, starts := s.starts ++ [t] }
  | .startPublish k => do
      let timer ← TimerManager.step s.timer (.timerInitPublish k)
      some { s with timer := timer }
  | .cancel t => do
      let timer ← TimerManager.step s.timer (.timerCancel t)
      some { s with timer := timer, cancelled := s.cancelled ++ s.startsOf t }
  | .checkLock now => do
      let timer ← TimerManager.step s.timer (.timerCheckLock now)
      some { s with timer := timer }
  | .checkPop => do
      let timer ← TimerManager.step s.timer .timerCheckPop
      some { s with timer := timer }
  | .checkStore => do
      let timer ← TimerManager.step s.timer .timerCheckStore
      some { s with timer := timer }
  | .checkUnlock => do
      let timer ← TimerManager.step s.timer .timerCheckUnlock
      some { s with timer := timer }
  | _ => none

def step (s : System Worker) (a : Action Worker) : Option (System Worker) :=
  match a with
  | .dequeue _ | .run _ | .enter _ | .finish _ => stepWorker s a
  | _ => stepTimer s a

end Step

/-- No closure of a start before a `Cancel` of its controller has begun after the `Cancel`. -/
def NoLateClosure (s : System Worker) : Prop := s.late = false

/-- The task can no more begin its closure. -/
def Begun (s : System Worker) (id : Nat) : Prop :=
  s.taskState id ≠ .kPending ∧ ∀ w, s.workers w ≠ .started id

/-- The controller whose start posted the task. -/
def System.controllerOf (s : System Worker) (id : Nat) : Option TimerPtr := do
  let closure ← s.tasks[id]?
  let k ← closure
  s.starts[k]?

/-- The condition on a run: `Start` is called on a controller whose timer is not pending, and at a
`Cancel` every task posted for the controller has begun its closure. -/
def NoneOutstanding (s : System Worker) : Action Worker → Prop
  | .start t _ _ => (s.timer.manager.timers t).pending = false
  | .cancel t => ∀ id ∈ List.range s.tasks.length, s.controllerOf id = some t → Begun s id
  | _ => True

instance [Fintype Worker] (s : System Worker) (id : Nat) : Decidable (Begun s id) :=
  inferInstanceAs (Decidable (_ ∧ ∀ _, _))

instance [Fintype Worker] (s : System Worker) (a : Action Worker) :
    Decidable (NoneOutstanding s a) :=
  match a with
  | .start _ _ _ => inferInstanceAs (Decidable (_ = _))
  | .cancel _ => inferInstanceAs (Decidable (∀ _ ∈ _, _ → _))
  | .startPublish _ | .checkLock _ | .checkPop | .checkStore | .checkUnlock
  | .dequeue _ | .run _ | .enter _ | .finish _ => isTrue trivial

/-! ### The invariant -/

/-- A pending timer holds the closure of a start of its own that is not cancelled, and what is
cancelled is in no task that has yet to begin. -/
structure Inv (s : System Worker) : Prop where
  timer : TimerManager.Invariant s.timer
  pending : ∀ x, (s.timer.manager.timers x).pending = true →
    ∃ k, (s.timer.manager.timers x).closure = some k ∧ s.starts[k]? = some x ∧ k ∉ s.cancelled
  known : ∀ (id k : Nat), s.tasks[id]? = some (some k) → k < s.starts.length
  posted : ∀ (id k : Nat), s.tasks[id]? = some (some k) → k ∈ s.cancelled → Begun s id
  cancelled : ∀ k ∈ s.cancelled, k < s.starts.length
  late : s.late = false

theorem new_inv : Inv (System.new : System Worker) where
  timer := TimerManager.new_invariant
  pending x hx := by simp [System.new, TimerManager.System.new, TimerManager.new, Timer.new] at hx
  known id k h := by simp [System.new, System.tasks, TimerManager.System.new, TimerManager.new] at h
  posted id k h := by simp [System.new, System.tasks, TimerManager.System.new, TimerManager.new] at h
  cancelled k hk := absurd hk List.not_mem_nil
  late := rfl

theorem mem_startsOf {s : System Worker} {t : TimerPtr} {k : Nat} :
    k ∈ s.startsOf t ↔ s.starts[k]? = some t := by
  rw [System.startsOf, List.mem_filter, List.mem_range, beq_iff_eq]
  exact and_iff_right_of_imp fun h => (List.getElem?_eq_some_iff.mp h).1

theorem runsCancelled_iff {s : System Worker} {id : Nat} :
    s.runsCancelled id = true ↔ ∃ k, s.tasks[id]? = some (some k) ∧ k ∈ s.cancelled := by
  unfold System.runsCancelled
  split
  · next k hk =>
      rw [decide_eq_true_eq]
      refine ⟨fun hin => ⟨k, hk, hin⟩, ?_⟩
      rintro ⟨k', hk', hin⟩
      cases hk.symm.trans hk'
      exact hin
  · next hnone =>
      refine iff_of_false Bool.false_ne_true ?_
      rintro ⟨k, hk, -⟩
      exact hnone k hk

/-! ### Steps of the timer manager -/

/-- A section that leaves the timers and the posted closures alone. -/
theorem Inv.frame {s : System Worker} (h : Inv s) {timer : TimerManager.System}
    (hinv : TimerManager.Invariant timer) (htimers : timer.manager.timers = s.timer.manager.timers)
    (htasks : timer.manager.tasks = s.timer.manager.tasks) : Inv { s with timer := timer } where
  timer := hinv
  pending x hx := by
    rw [htimers] at hx ⊢
    exact h.pending x hx
  known id k hk := h.known id k ((congrArg (·[id]?) htasks.symm).trans hk)
  posted id k hk := h.posted id k ((congrArg (·[id]?) htasks.symm).trans hk)
  cancelled := h.cancelled
  late := h.late

theorem Inv.start {s : System Worker} (h : Inv s) {t : TimerPtr} {now : Time}
    {timeout : Time.Delta} {timer : TimerManager.System}
    (hstep : TimerManager.step s.timer (.timerInit t now timeout (some s.starts.length)) =
      some timer) : Inv { s with timer := timer, starts := s.starts ++ [t] } := by
  have hinv := TimerManager.step_invariant _ _ _ h.timer hstep
  simp only [TimerManager.step] at hstep
  split_ifs at hstep with hpending
  obtain ⟨⟨m, init⟩, hrun, heq⟩ := Option.bind_eq_some_iff.mp hstep
  cases heq
  have hins := TimerManager.timerInitInsert_spec h.timer.tracked.valid
    (Bool.not_eq_true _ ▸ hpending) hrun
  have hlength : (s.starts ++ [t]).length = s.starts.length + 1 := by simp
  refine ⟨hinv, fun x hx => ?_, fun id k hk => ?_, fun id k hk => ?_, fun k hk => ?_, h.late⟩
  · by_cases hxt : x = t
    · subst hxt
      refine ⟨s.starts.length, hins.timer.2.1, by simp, fun hin => ?_⟩
      exact absurd (h.cancelled _ hin) (Nat.lt_irrefl _)
    · obtain ⟨-, hclosure, hsame⟩ := hins.same x hxt
      obtain ⟨k, hk, hstart, hnot⟩ := h.pending x (hsame.symm.trans hx)
      refine ⟨k, hclosure.trans hk, ?_, hnot⟩
      rwa [List.getElem?_append_left (List.getElem?_eq_some_iff.mp hstart).1]
  · have hold := h.known id k ((congrArg (·[id]?) hins.tasks.symm).trans hk)
    dsimp only
    omega
  · exact h.posted id k ((congrArg (·[id]?) hins.tasks.symm).trans hk)
  · have hold := h.cancelled k hk
    dsimp only
    omega

theorem Inv.cancel {s : System Worker} (h : Inv s) {t : TimerPtr} {timer : TimerManager.System}
    (hcond : NoneOutstanding s (.cancel t))
    (hstep : TimerManager.step s.timer (.timerCancel t) = some timer) :
    Inv { s with timer := timer, cancelled := s.cancelled ++ s.startsOf t } := by
  have hinv := TimerManager.step_invariant _ _ _ h.timer hstep
  obtain ⟨m, hrun, hc⟩ := TimerManager.timerCancel_spec h.timer.tracked.valid t
  simp only [TimerManager.step, hrun, Option.bind_eq_bind, Option.bind_some,
    Option.some.injEq] at hstep
  subst hstep
  refine ⟨hinv, fun x hx => ?_, fun id k hk => ?_, fun id k hk hin => ?_, fun k hk => ?_, h.late⟩
  · have hxt : x ≠ t := by
      rintro rfl
      exact Bool.false_ne_true (hc.timer.2.2.symm.trans hx)
    obtain ⟨-, hclosure, hsame⟩ := hc.same x hxt
    obtain ⟨k, hk, hstart, hnot⟩ := h.pending x (hsame.symm.trans hx)
    refine ⟨k, hclosure.trans hk, hstart, fun hin => ?_⟩
    rcases List.mem_append.mp hin with hold | hnew
    · exact hnot hold
    · rw [mem_startsOf, hstart] at hnew
      exact hxt (Option.some.inj hnew)
  · exact h.known id k ((congrArg (·[id]?) hc.tasks.symm).trans hk)
  · have htask : s.tasks[id]? = some (some k) := (congrArg (·[id]?) hc.tasks.symm).trans hk
    rcases List.mem_append.mp hin with hold | hnew
    · exact h.posted id k htask hold
    · refine hcond id (List.mem_range.mpr (List.getElem?_eq_some_iff.mp htask).1) ?_
      simp only [System.controllerOf, htask, Option.bind_eq_bind, Option.bind_some]
      exact mem_startsOf.mp hnew
  · rcases List.mem_append.mp hk with hold | hnew
    · exact h.cancelled k hold
    · exact (List.getElem?_eq_some_iff.mp (mem_startsOf.mp hnew)).1

/-- `PopTimers` posts the closures of timers that were pending. -/
theorem Inv.checkPop {s : System Worker} (h : Inv s) {timer : TimerManager.System}
    (hstep : TimerManager.step s.timer .timerCheckPop = some timer) :
    Inv { s with timer := timer } := by
  have hinv := TimerManager.step_invariant _ _ _ h.timer hstep
  simp only [TimerManager.step] at hstep
  split at hstep
  · next now hcheck =>
      obtain ⟨i, -, hrest⟩ := Option.bind_eq_some_iff.mp hstep
      split_ifs at hrest with hdue
      obtain ⟨⟨n, newMin, m⟩, hrun, heq⟩ := Option.bind_eq_some_iff.mp hrest
      cases heq
      obtain ⟨ps, hexp, -, -, htasks, -⟩ :=
        (TimerManager.popTimers_spec h.timer.tracked.valid i now).2 n newMin m hrun
      -- a task is an old one, or the closure of a timer that was pending
      have hcases : ∀ (id k : Nat), m.tasks[id]? = some (some k) → s.tasks[id]? = some (some k) ∨
          k < s.starts.length ∧ k ∉ s.cancelled := by
        intro id k hk
        rw [htasks] at hk
        rcases Nat.lt_or_ge id s.timer.manager.tasks.length with hlt | hge
        · rw [List.getElem?_append_left hlt] at hk
          exact Or.inl hk
        · rw [List.getElem?_append_right hge] at hk
          obtain ⟨x, hx, hclosure⟩ := List.mem_map.mp (List.mem_of_getElem? hk)
          obtain ⟨k', hk', hstart, hnot⟩ := h.pending x (hexp.due x hx).2.1
          rw [hk'] at hclosure
          cases hclosure
          exact Or.inr ⟨(List.getElem?_eq_some_iff.mp hstart).1, hnot⟩
      refine ⟨hinv, fun x hx => ?_, fun id k hk => ?_, fun id k hk hin => ?_, h.cancelled, h.late⟩
      · obtain ⟨k, hk, hrest⟩ := h.pending x ((hexp.pending x).mp hx).1
        exact ⟨k, (hexp.closure x).trans hk, hrest⟩
      · rcases hcases id k hk with hold | hnew
        · exact h.known id k hold
        · exact hnew.1
      · rcases hcases id k hk with hold | hnew
        · exact h.posted id k hold hin
        · exact absurd hin hnew.2
  · cases hstep

/-- The other sections move only the queue of the shards. -/
theorem step_frame {s s' : TimerManager.System} {a : TimerManager.Action}
    (ha : (∃ k, a = .timerInitPublish k) ∨ (∃ now, a = .timerCheckLock now) ∨
      a = .timerCheckStore ∨ a = .timerCheckUnlock) (h : TimerManager.Invariant s)
    (hstep : TimerManager.step s a = some s') :
    s'.manager.timers = s.manager.timers ∧ s'.manager.tasks = s.manager.tasks := by
  rcases ha with ⟨k, rfl⟩ | ⟨now, rfl⟩ | rfl | rfl
  all_goals
    simp only [TimerManager.step] at hstep
    split at hstep
  · obtain ⟨init, -, hrest⟩ := Option.bind_eq_some_iff.mp hstep
    obtain ⟨m, hrun, heq⟩ := Option.bind_eq_some_iff.mp hrest
    cases heq
    obtain ⟨m', hrun', -, hcases⟩ := h.tracked.publish fun p hp => Or.inr hp
    cases hrun.symm.trans hrun'
    rcases hcases with rfl | hre
    · exact ⟨rfl, rfl⟩
    · exact ⟨hre.timers, hre.tasks⟩
  · cases hstep
  · cases hstep
    exact ⟨rfl, rfl⟩
  · cases hstep
  · obtain ⟨i, -, hrest⟩ := Option.bind_eq_some_iff.mp hstep
    obtain ⟨m, hrun, heq⟩ := Option.bind_eq_some_iff.mp hrest
    cases heq
    have hre := TimerManager.onDeadlineChanged_reordered hrun
    exact ⟨hre.timers, hre.tasks⟩
  · cases hstep
  · obtain ⟨i, -, hrest⟩ := Option.bind_eq_some_iff.mp hstep
    split_ifs at hrest
    cases hrest
    exact ⟨rfl, rfl⟩
  · cases hstep

theorem Inv.section {s : System Worker} (h : Inv s) {a : TimerManager.Action}
    {timer : TimerManager.System}
    (ha : (∃ k, a = .timerInitPublish k) ∨ (∃ now, a = .timerCheckLock now) ∨
      a = .timerCheckStore ∨ a = .timerCheckUnlock)
    (hstep : TimerManager.step s.timer a = some timer) : Inv { s with timer := timer } := by
  obtain ⟨htimers, htasks⟩ := step_frame ha h.timer hstep
  exact h.frame (TimerManager.step_invariant _ _ _ h.timer hstep) htimers htasks

theorem stepTimer_inv [DecidableEq Worker] {s s' : System Worker} {a : Action Worker} (h : Inv s)
    (hcond : NoneOutstanding s a) (hstep : stepTimer s a = some s') : Inv s' := by
  cases a with
  | start t now timeout =>
      obtain ⟨timer, hrun, heq⟩ := Option.bind_eq_some_iff.mp hstep
      cases heq
      have hidle : TimerManager.StartsIdle s.timer
          (.timerInit t now timeout (some s.starts.length)) := hcond
      rw [TimerManager.startStep_of_startsIdle hidle] at hrun
      exact h.start hrun
  | cancel t =>
      obtain ⟨timer, hrun, heq⟩ := Option.bind_eq_some_iff.mp hstep
      cases heq
      exact h.cancel hcond hrun
  | checkPop =>
      obtain ⟨timer, hrun, heq⟩ := Option.bind_eq_some_iff.mp hstep
      cases heq
      exact h.checkPop hrun
  | startPublish k =>
      obtain ⟨timer, hrun, heq⟩ := Option.bind_eq_some_iff.mp hstep
      cases heq
      exact h.section (Or.inl ⟨k, rfl⟩) hrun
  | checkLock now =>
      obtain ⟨timer, hrun, heq⟩ := Option.bind_eq_some_iff.mp hstep
      cases heq
      exact h.section (Or.inr (Or.inl ⟨now, rfl⟩)) hrun
  | checkStore =>
      obtain ⟨timer, hrun, heq⟩ := Option.bind_eq_some_iff.mp hstep
      cases heq
      exact h.section (Or.inr (Or.inr (Or.inl rfl))) hrun
  | checkUnlock =>
      obtain ⟨timer, hrun, heq⟩ := Option.bind_eq_some_iff.mp hstep
      cases heq
      exact h.section (Or.inr (Or.inr (Or.inr rfl))) hrun
  | dequeue w => cases hstep
  | run w => cases hstep
  | enter w => cases hstep
  | finish w => cases hstep

/-! ### Steps of a worker -/

/-- A worker moves; what can no more begin stays so. -/
theorem Inv.worker {s s' : System Worker} (h : Inv s) (htimer : s'.timer = s.timer)
    (hstarts : s'.starts = s.starts) (hcancelled : s'.cancelled = s.cancelled)
    (hlate : s'.late = false)
    (hbegun : ∀ id, Begun s id → Begun s' id) : Inv s' := by
  refine ⟨htimer ▸ h.timer, fun x hx => ?_, fun id k hk => ?_, fun id k hk hin => ?_, fun k hk => ?_,
    hlate⟩
  · rw [htimer] at hx ⊢
    rw [hstarts, hcancelled]
    exact h.pending x hx
  · rw [System.tasks, htimer] at hk
    rw [hstarts]
    exact h.known id k hk
  · rw [System.tasks, htimer] at hk
    rw [hcancelled] at hin
    exact hbegun id (h.posted id k hk hin)
  · rw [hstarts]
    exact h.cancelled k (hcancelled ▸ hk)

/-- A worker that does not go on to begin the task leaves what can no more begin. -/
theorem Begun.move [DecidableEq Worker] {s s' : System Worker} {w : Worker} {pc : WorkerPc} {id : Nat}
    (h : Begun s id) (hworkers : s'.workers = Function.update s.workers w pc)
    (hpc : pc ≠ .started id) (hstate : s'.taskState id ≠ .kPending) : Begun s' id := by
  refine ⟨hstate, fun u => ?_⟩
  rw [hworkers]
  by_cases hu : u = w
  · subst hu
    rw [Function.update_self]
    exact hpc
  · rw [Function.update_of_ne hu]
    exact h.2 u

theorem stepWorker_inv [DecidableEq Worker] {s s' : System Worker} {a : Action Worker} (h : Inv s)
    (hstep : stepWorker s a = some s') : Inv s' := by
  cases a with
  | dequeue w =>
      simp only [stepWorker] at hstep
      split_ifs at hstep
      cases hstep
      exact h.worker rfl rfl rfl h.late fun id hid => hid.move rfl (by simp) hid.1
  | run w =>
      simp only [stepWorker] at hstep
      split at hstep
      · next id hw =>
          split_ifs at hstep with hpending
          · cases hstep
            refine h.worker rfl rfl rfl h.late fun id' hid => ?_
            have hne : id' ≠ id := by
              rintro rfl
              exact hid.1 hpending
            refine hid.move rfl (by simpa using hne.symm) ?_
            simp only [System.goto, Function.update_of_ne hne]
            exact hid.1
          · cases hstep
            exact h.worker rfl rfl rfl h.late fun id' hid => hid.move rfl (by simp) hid.1
      · cases hstep
  | enter w =>
      simp only [stepWorker] at hstep
      split at hstep
      · next id hw =>
          cases hstep
          have hnot : s.runsCancelled id = false := by
            rw [← Bool.not_eq_true, runsCancelled_iff]
            rintro ⟨k, hk, hin⟩
            exact (h.posted id k hk hin).2 w hw
          refine h.worker rfl rfl rfl ?_ fun id' hid => hid.move rfl (by simp) hid.1
          show (s.late || s.runsCancelled id) = false
          rw [h.late, hnot]
          rfl
      · cases hstep
  | finish w =>
      simp only [stepWorker] at hstep
      split at hstep
      · next id hw =>
          cases hstep
          refine h.worker rfl rfl rfl h.late fun id' hid => hid.move rfl (by simp) ?_
          by_cases hne : id' = id
          · subst hne
            simp [System.goto]
          · simp only [System.goto, Function.update_of_ne hne]
            exact hid.1
      · cases hstep
  | start t now timeout => cases hstep
  | startPublish k => cases hstep
  | cancel t => cases hstep
  | checkLock now => cases hstep
  | checkPop => cases hstep
  | checkStore => cases hstep
  | checkUnlock => cases hstep

/-! ### Every interleaving -/

theorem step_inv [DecidableEq Worker] (s : System Worker) (a : Action Worker) (s' : System Worker)
    (h : Inv s) (hcond : NoneOutstanding s a) (hstep : step s a = some s') : Inv s' := by
  unfold step at hstep
  split at hstep
  · exact stepWorker_inv h hstep
  · exact stepWorker_inv h hstep
  · exact stepWorker_inv h hstep
  · exact stepWorker_inv h hstep
  · exact stepTimer_inv h hcond hstep

/-- In every interleaving in which no pending timer is started and a `Cancel` finds no task of its
controller that has yet to begin, no closure of an earlier start begins after the `Cancel`. -/
theorem cancelled_timer_never_runs [DecidableEq Worker] (actions : List (Action Worker))
    (hmeets : Transition.Meets step NoneOutstanding System.new actions) :
    Transition.Along step NoLateClosure System.new actions :=
  Transition.along_of_meets step_inv (fun _ h => h.late) new_inv hmeets

/-- The timer is cancelled in its shard, is started again, runs, and is cancelled once more; another
one of the same shard expires in between. -/
theorem cancelled_timer_never_runs_restart :
    Transition.Along step NoLateClosure (System.new : System Bool)
      [.start 4096 ⟨0⟩ ⟨10⟩, .startPublish 0, .start 4224 ⟨0⟩ ⟨12⟩, .startPublish 0, .cancel 4096,
        .start 4096 ⟨5⟩ ⟨10⟩, .startPublish 0, .checkLock ⟨15⟩, .checkPop, .checkStore, .checkUnlock,
        .dequeue true, .dequeue false, .run false, .enter false, .cancel 4096, .run true, .enter true,
        .cancel 4224, .finish false, .finish true] :=
  cancelled_timer_never_runs _ (Transition.meets_of_check (by decide))

/-- The timer expires and its closure is posted; `Cancel` returns, and then a worker runs the
closure. -/
theorem cancelled_timer_runs_after_expiry :
    ∃ s, Transition.run step (System.new : System Bool)
        [.start 4096 ⟨0⟩ ⟨10⟩, .startPublish 0, .checkLock ⟨10⟩, .checkPop, .checkStore, .checkUnlock,
          .cancel 4096, .dequeue true, .run true, .enter true] = some s ∧
      s.cancelled = [0] ∧ ¬NoLateClosure s := by
  refine ⟨_, rfl, rfl, ?_⟩
  unfold NoLateClosure
  decide

/-- A timer started again while it is pending stays in its shard after the `Cancel`, behind another
timer's first place in the heap, expires and runs. -/
example : (Transition.run step (System.new : System Bool)
    [.start 4224 ⟨0⟩ ⟨15⟩, .startPublish 0, .start 4096 ⟨0⟩ ⟨20⟩, .startPublish 0,
      .start 4096 ⟨0⟩ ⟨10⟩, .startPublish 0, .cancel 4096, .checkLock ⟨10⟩, .checkPop,
      .dequeue true, .run true, .enter true]).map System.late = some true := rfl

end Iomgr.TimerExecution
