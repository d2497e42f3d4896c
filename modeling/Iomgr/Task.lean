import Iomgr.TransitionSystem
import Mathlib.Data.Fintype.Basic

/-!
A task of the task runner, with any number of threads on it. Each thread runs `Task::Run`, or
`CancelTask` followed by `WaitIfRunning` as a watch is stopped; every load, store and
compare-exchange is one step. `CancelTask` also takes a running task to `kCanceled`, and then
`WaitIfRunning` no longer sees that it runs.
-/

namespace Iomgr

inductive TaskState
  | kPending
  | kRunning
  | kCanceled
  | kCompleted
  deriving DecidableEq, Repr

/-- The fields of a `TaskRunner::Task`: whether `functor_` holds code, the atomic state, whether
`task_completed_` is notified, and the atomic runner id, `none` for `Thread::invalid_id`. -/
structure Task (Thread : Type) where
  functor : Bool
  taskState : TaskState
  taskCompleted : Bool
  taskRunner : Option Thread

def Task.new {Thread : Type} (functor : Bool) : Task Thread where
  functor := functor
  taskState := .kPending
  taskCompleted := false
  taskRunner := none

namespace Task

/-- The next atomic step of a thread. `runFunctor` tests `functor_`; `inFunctor` is in its code. -/
inductive Pc
  | idle
  | runCas
  | runStoreRunner
  | runFunctor
  | inFunctor
  | runStoreCompleted
  | runNotify
  | runClearRunner
  | cancelLoad
  | cancelCas (state : TaskState)
  | waitLoadRunner
  | waitLoadState
  | waitNotification
  deriving DecidableEq, Repr

inductive Call
  | run
  | cancelAndWait
  deriving DecidableEq, Repr

inductive Action (Thread : Type)
  | call (t : Thread) (c : Call)
  | step (t : Thread)
  deriving DecidableEq, Repr

/-- One task and the threads on it; `waited` records that a `WaitIfRunning` after a `CancelTask`
has returned. -/
structure System (Thread : Type) where
  task : Task Thread
  pc : Thread → Pc
  waited : Bool

variable {Thread : Type}

def System.new (functor : Bool) : System Thread := ⟨Task.new functor, fun _ => .idle, false⟩

def Call.entry : Call → Pc
  | .run => .runCas
  | .cancelAndWait => .cancelLoad

section Step

variable [DecidableEq Thread]

def System.goto (s : System Thread) (t : Thread) (pc : Pc) : System Thread :=
  { s with pc := Function.update s.pc t pc }

/-- `WaitIfRunning` returns. -/
def System.returned (s : System Thread) (t : Thread) : System Thread :=
  { s.goto t .idle with waited := true }

def stepThread (s : System Thread) (t : Thread) : Option (System Thread) :=
  match s.pc t with
  | .idle => none
  | .runCas =>
      if s.task.taskState = .kPending then
        some ({ s with task := { s.task with taskState := .kRunning } }.goto t .runStoreRunner)
      else some (s.goto t .idle)
  | .runStoreRunner =>
      some ({ s with task := { s.task with taskRunner := some t } }.goto t .runFunctor)
  | .runFunctor => some (s.goto t (if s.task.functor then .inFunctor else .runStoreCompleted))
  | .inFunctor => some (s.goto t .runStoreCompleted)
  | .runStoreCompleted =>
      some ({ s with task := { s.task with taskState := .kCompleted } }.goto t .runNotify)
  | .runNotify =>
      some ({ s with task := { s.task with taskCompleted := true } }.goto t .runClearRunner)
  | .runClearRunner => some ({ s with task := { s.task with taskRunner := none } }.goto t .idle)
  | .cancelLoad =>
      match s.task.taskState with
      | .kPending => some (s.goto t (.cancelCas .kPending))
      | .kRunning => some (s.goto t (.cancelCas .kRunning))
      | .kCompleted => some (s.goto t .waitLoadRunner)
      -- the assertion of the default branch, and another round
      | .kCanceled => some (s.goto t .cancelLoad)
  | .cancelCas state =>
      if s.task.taskState = state then
        some ({ s with task := { s.task with taskState := .kCanceled } }.goto t .waitLoadRunner)
      else some (s.goto t .cancelLoad)
  | .waitLoadRunner =>
      if s.task.taskRunner = some t then some (s.returned t) else some (s.goto t .waitLoadState)
  | .waitLoadState =>
      if s.task.taskState = .kRunning then some (s.goto t .waitNotification)
      else some (s.returned t)
  | .waitNotification => if s.task.taskCompleted then some (s.returned t) else none

def step (s : System Thread) : Action Thread → Option (System Thread)
  | .call t c => if s.pc t = .idle then some (s.goto t c.entry) else none
  | .step t => stepThread s t

end Step

/-- Once a `WaitIfRunning` after a `CancelTask` has returned, the functor is not executing. As a
property of every state it also says that the functor never starts afterwards. -/
def Quiescent (s : System Thread) : Prop := s.waited = true → ∀ t, s.pc t ≠ .inFunctor

/-! ### Where a thread can be -/

/-- Between the successful compare-exchange of `Run` and its end. -/
def Pc.inRun : Pc → Bool
  | .runStoreRunner | .runFunctor | .inFunctor | .runStoreCompleted | .runNotify
  | .runClearRunner => true
  | _ => false

/-- Between the successful compare-exchange of `Run` and the end of the functor. -/
def Pc.beforeEnd : Pc → Bool
  | .runStoreRunner | .runFunctor | .inFunctor => true
  | _ => false

/-- After `CancelTask`. -/
def Pc.inWait : Pc → Bool
  | .waitLoadRunner | .waitLoadState | .waitNotification => true
  | _ => false

theorem Pc.inRun_of_beforeEnd {pc : Pc} (h : pc.beforeEnd = true) : pc.inRun = true := by
  cases pc <;> simp_all [Pc.beforeEnd, Pc.inRun]

/-- The thread has started the task; it has yet to enter the functor, or is in it. -/
def Unfinished (s : System Thread) (t : Thread) : Prop :=
  s.task.functor = true ∧ (s.pc t).beforeEnd = true

/-- The condition on a run: no compare-exchange of `CancelTask` takes the task from `kRunning` to
`kCanceled` while its functor is to be entered or executing. -/
def CancelsNoRunning (s : System Thread) : Action Thread → Prop
  | .call _ _ => True
  | .step t => s.pc t = .cancelCas .kRunning → s.task.taskState = .kRunning → ∀ u, ¬Unfinished s u

instance [Fintype Thread] (s : System Thread) (a : Action Thread) :
    Decidable (CancelsNoRunning s a) :=
  match a with
  | .call _ _ => isTrue trivial
  | .step _ => inferInstanceAs (Decidable (_ → _ → ∀ _, ¬(_ ∧ _)))

/-- What a thread knows of the task at its place: a started task is not pending, an unfinished one
is seen as running, and nobody has waited for it. -/
structure ThreadOk (task : Task Thread) (waited : Bool) (t : Thread) (pc : Pc) : Prop where
  started : pc.inRun = true → task.taskState ≠ .kPending
  running : task.functor = true → pc.beforeEnd = true →
    task.taskState = .kRunning ∧ task.taskCompleted = false ∧ waited = false
  inWait : pc.inWait = true → task.taskState ≠ .kPending
  runner : task.taskRunner = some t → pc.inRun = true
  functor : pc = .inFunctor → task.functor = true

structure Inv (s : System Thread) : Prop where
  thread : ∀ t, ThreadOk s.task s.waited t (s.pc t)
  unique : ∀ t u, (s.pc t).inRun = true → (s.pc u).inRun = true → t = u
  begun : s.task.taskCompleted = true ∨ s.waited = true → s.task.taskState ≠ .kPending

theorem Inv.quiescent {s : System Thread} (h : Inv s) : Quiescent s := by
  intro hwaited t hpc
  have hrunning := (h.thread t).running ((h.thread t).functor hpc) (by rw [hpc]; rfl)
  rw [hrunning.2.2] at hwaited
  exact Bool.false_ne_true hwaited

theorem Inv.quiet_of_inRun {s : System Thread} (h : Inv s) {t : Thread}
    (ht : (s.pc t).inRun = true) {u : Thread} (hu : u ≠ t) : ¬Unfinished s u :=
  fun hunf => hu (h.unique u t (Pc.inRun_of_beforeEnd hunf.2) ht)

theorem Inv.quiet_of_state {s : System Thread} (h : Inv s) (hstate : s.task.taskState ≠ .kRunning)
    (u : Thread) : ¬Unfinished s u :=
  fun hunf => hstate ((h.thread u).running hunf.1 hunf.2).1

theorem Inv.quiet_of_completed {s : System Thread} (h : Inv s)
    (hcompleted : s.task.taskCompleted = true) (u : Thread) : ¬Unfinished s u := by
  intro hunf
  rw [((h.thread u).running hunf.1 hunf.2).2.1] at hcompleted
  exact Bool.false_ne_true hcompleted

theorem Inv.not_inRun_of_pending {s : System Thread} (h : Inv s)
    (hstate : s.task.taskState = .kPending) (u : Thread) : (s.pc u).inRun = false := by
  by_contra hin
  exact (h.thread u).started (Bool.not_eq_false _ ▸ hin) hstate

/-- One thread moves. The others keep what they know when the task does not become pending or
theirs, and when none of them is unfinished or nothing they see of it changes. -/
theorem Inv.move {s s' : System Thread} (h : Inv s) (t : Thread)
    (hpc : ∀ u, u ≠ t → s'.pc u = s.pc u) (hown : ThreadOk s'.task s'.waited t (s'.pc t))
    (hstate : s'.task.taskState = .kPending → s.task.taskState = .kPending)
    (hrunner : ∀ u, u ≠ t → s'.task.taskRunner = some u → s.task.taskRunner = some u)
    (hfunctor : s'.task.functor = s.task.functor)
    (hunique : (s'.pc t).inRun = true →
      (s.pc t).inRun = true ∨ ∀ u, (s.pc u).inRun = false)
    (hover : s'.task.taskCompleted = true ∨ s'.waited = true → s'.task.taskState ≠ .kPending)
    (hquiet : (∀ u, u ≠ t → ¬Unfinished s u) ∨ s'.task.taskState = s.task.taskState ∧
      s'.task.taskCompleted = s.task.taskCompleted ∧ s'.waited = s.waited) : Inv s' := by
  have halone : (s'.pc t).inRun = true → ∀ u, u ≠ t → (s.pc u).inRun = false := by
    intro hin u hu
    rcases hunique hin with hold | hnone
    · by_contra hother
      exact hu (h.unique u t (Bool.not_eq_false _ ▸ hother) hold)
    · exact hnone u
  refine ⟨fun u => ?_, fun u v hu hv => ?_, hover⟩
  · by_cases hut : u = t
    · subst hut
      exact hown
    · have hold := h.thread u
      rw [hpc u hut]
      refine ⟨fun hin hp => hold.started hin (hstate hp), fun hf hb => ?_,
        fun hin hp => hold.inWait hin (hstate hp), fun hr => hold.runner (hrunner u hut hr),
        fun hin => hfunctor.trans (hold.functor hin)⟩
      rw [hfunctor] at hf
      rcases hquiet with hnone | ⟨h1, h2, h3⟩
      · exact absurd ⟨hf, hb⟩ (hnone u hut)
      · rw [h1, h2, h3]
        exact hold.running hf hb
  · by_cases hut : u = t <;> by_cases hvt : v = t
    · exact hut.trans hvt.symm
    · rw [hpc v hvt] at hv
      rw [halone (hut ▸ hu) v hvt] at hv
      exact absurd hv Bool.false_ne_true
    · rw [hpc u hut] at hu
      rw [halone (hvt ▸ hv) u hut] at hu
      exact absurd hu Bool.false_ne_true
    · rw [hpc u hut] at hu
      rw [hpc v hvt] at hv
      exact h.unique u v hu hv

/-- A thread outside `Run` is not the recorded runner. -/
theorem Inv.runner_ne {s : System Thread} (h : Inv s) {t : Thread}
    (ht : (s.pc t).inRun = false) : s.task.taskRunner ≠ some t := by
  intro hr
  rw [(h.thread t).runner hr] at ht
  exact Bool.false_ne_true ht.symm

theorem new_inv (functor : Bool) : Inv (System.new functor : System Thread) where
  thread _ := ⟨nofun, fun _ => nofun, nofun, nofun, nofun⟩
  unique _ _ := nofun
  begun := nofun

/-! ### Every interleaving -/

variable [DecidableEq Thread]

theorem goto_pc_self (s : System Thread) (t : Thread) (pc : Pc) : (s.goto t pc).pc t = pc := by
  simp [System.goto]

theorem goto_pc_other (s : System Thread) {t u : Thread} (pc : Pc) (h : u ≠ t) :
    (s.goto t pc).pc u = s.pc u := by
  simp [System.goto, h]

/-- A thread moves and leaves the task alone. -/
theorem Inv.goto {s : System Thread} (h : Inv s) (t : Thread) {pc : Pc}
    (hrun : pc.inRun = true → (s.pc t).inRun = true)
    (hend : pc.beforeEnd = true → (s.pc t).beforeEnd = true)
    (hwait : pc.inWait = true → s.task.taskState ≠ .kPending)
    (hrunner : s.task.taskRunner = some t → pc.inRun = true)
    (hfunctor : pc = .inFunctor → s.task.functor = true) : Inv (s.goto t pc) := by
  have hold := h.thread t
  refine h.move t (fun u hu => goto_pc_other s pc hu) ?_ id (fun u _ hr => hr) rfl
    (fun hin => Or.inl (hrun (by rwa [goto_pc_self] at hin))) h.begun (Or.inr ⟨rfl, rfl, rfl⟩)
  rw [goto_pc_self]
  exact ⟨fun hin => hold.started (hrun hin), fun hf hb => hold.running hf (hend hb), hwait, hrunner,
    hfunctor⟩

/-- A thread outside `Run` moves on outside of it. -/
theorem Inv.goto_outside {s : System Thread} (h : Inv s) {t : Thread} {pc : Pc}
    (ht : (s.pc t).inRun = false) (hpc : pc.inRun = false)
    (hwait : pc.inWait = true → s.task.taskState ≠ .kPending) : Inv (s.goto t pc) := by
  have hnot : pc.inRun ≠ true := Bool.eq_false_iff.mp hpc
  refine h.goto t (fun hin => absurd hin hnot)
    (fun hend => absurd (Pc.inRun_of_beforeEnd hend) hnot) hwait
    (fun hr => absurd hr (h.runner_ne ht)) ?_
  rintro rfl
  exact absurd rfl hnot

/-- `WaitIfRunning` returns when no functor is unfinished. -/
theorem Inv.returned {s : System Thread} (h : Inv s) {t : Thread}
    (ht : (s.pc t).inWait = true) (hquiet : ∀ u, ¬Unfinished s u) : Inv (s.returned t) := by
  have hrun : (s.pc t).inRun = false := by
    cases hpc : s.pc t <;> simp_all [Pc.inRun, Pc.inWait]
  have hstate := (h.thread t).inWait ht
  refine h.move t (fun u hu => goto_pc_other s .idle hu) ?_ id (fun u _ hr => hr) rfl ?_
    (fun _ => hstate) (Or.inl fun u _ => hquiet u)
  all_goals simp only [System.returned, goto_pc_self]
  · exact ⟨nofun, fun _ => nofun, nofun, fun hr => absurd hr (h.runner_ne hrun), nofun⟩
  · exact nofun

/-- `Run` starts the task. -/
theorem Inv.start {s : System Thread} (h : Inv s) (t : Thread)
    (hpending : s.task.taskState = .kPending) :
    Inv ({ s with task := { s.task with taskState := .kRunning } }.goto t .runStoreRunner) := by
  have hfresh : s.task.taskCompleted = false ∧ s.waited = false := by
    have hover := mt h.begun (not_not.mpr hpending)
    rw [not_or, Bool.not_eq_true, Bool.not_eq_true] at hover
    exact hover
  refine h.move t (fun u hu => goto_pc_other _ _ hu) ?_ nofun (fun u _ hr => hr) rfl
    (fun _ => Or.inr (h.not_inRun_of_pending hpending)) (fun _ => nofun)
    (Or.inl fun u _ => h.quiet_of_state (by rw [hpending]; nofun) u)
  rw [goto_pc_self]
  exact ⟨fun _ => nofun, fun _ _ => ⟨rfl, hfresh⟩, nofun, fun _ => rfl, nofun⟩

/-- A step of `Run` after its compare-exchange, on the fields only the runner writes. -/
theorem Inv.runStep {s s' : System Thread} (h : Inv s) {t : Thread} {pc : Pc}
    (ht : (s.pc t).inRun = true) (hpc : s'.pc = Function.update s.pc t pc)
    (hown : ThreadOk s'.task s'.waited t pc)
    (hstate : s'.task.taskState = s.task.taskState ∨ s'.task.taskState = .kCompleted)
    (hrunner : ∀ u, u ≠ t → s'.task.taskRunner = some u → s.task.taskRunner = some u)
    (hfunctor : s'.task.functor = s.task.functor) : Inv s' := by
  have hpending : s'.task.taskState ≠ .kPending := by
    rcases hstate with hsame | hdone
    · rw [hsame]
      exact (h.thread t).started ht
    · rw [hdone]
      exact nofun
  refine h.move t (fun u hu => by rw [hpc, Function.update_of_ne hu]) ?_
    (fun hp => absurd hp hpending) hrunner hfunctor (fun _ => Or.inl ht) (fun _ => hpending)
    (Or.inl fun u hu => h.quiet_of_inRun ht hu)
  rw [hpc, Function.update_self]
  exact hown

/-- `CancelTask` takes the task to `kCanceled`. -/
theorem Inv.cancel {s : System Thread} (h : Inv s) {t : Thread} (ht : (s.pc t).inRun = false)
    (hquiet : ∀ u, ¬Unfinished s u) :
    Inv ({ s with task := { s.task with taskState := .kCanceled } }.goto t .waitLoadRunner) := by
  refine h.move t (fun u hu => goto_pc_other _ _ hu) ?_ nofun (fun u _ hr => hr) rfl ?_
    (fun _ => nofun) (Or.inl fun u _ => hquiet u)
  all_goals rw [goto_pc_self]
  · exact ⟨nofun, fun _ => nofun, fun _ => nofun, fun hr => absurd hr (h.runner_ne ht), nofun⟩
  · exact nofun

theorem stepThread_inv {s s' : System Thread} {t : Thread} (h : Inv s)
    (hcond : CancelsNoRunning s (.step t)) (hstep : stepThread s t = some s') : Inv s' := by
  have hthread := h.thread t
  unfold CancelsNoRunning at hcond
  cases hpc : s.pc t with
  | idle =>
      simp only [stepThread, hpc] at hstep
      cases hstep
  | runCas =>
      have hrun : (s.pc t).inRun = false := by rw [hpc]; rfl
      simp only [stepThread, hpc] at hstep
      split_ifs at hstep with hpending
      · cases hstep
        exact h.start t hpending
      · cases hstep
        exact h.goto_outside hrun rfl nofun
  | runStoreRunner =>
      simp only [stepThread, hpc] at hstep
      cases hstep
      have ht : (s.pc t).inRun = true := by rw [hpc]; rfl
      refine h.runStep ht rfl ⟨fun _ => hthread.started ht, fun hf _ => ?_, nofun, fun _ => rfl, nofun⟩
        (Or.inl rfl) (fun u hu hr => absurd (Option.some.inj hr).symm hu) rfl
      exact hthread.running hf (by rw [hpc]; rfl)
  | runFunctor =>
      simp only [stepThread, hpc] at hstep
      cases hstep
      have ht : (s.pc t).inRun = true := by rw [hpc]; rfl
      split_ifs with hf
      · exact h.goto t (fun _ => ht) (fun _ => by rw [hpc]; rfl) nofun (fun _ => rfl) fun _ => hf
      · exact h.goto t (fun _ => ht) nofun nofun (fun _ => rfl) nofun
  | inFunctor =>
      simp only [stepThread, hpc] at hstep
      cases hstep
      exact h.goto t (fun _ => by rw [hpc]; rfl) nofun nofun (fun _ => rfl) nofun
  | runStoreCompleted =>
      simp only [stepThread, hpc] at hstep
      cases hstep
      exact h.runStep (by rw [hpc]; rfl) rfl
        ⟨fun _ => nofun, fun _ => nofun, nofun, fun _ => rfl, nofun⟩ (Or.inr rfl) (fun u _ hr => hr) rfl
  | runNotify =>
      simp only [stepThread, hpc] at hstep
      cases hstep
      have ht : (s.pc t).inRun = true := by rw [hpc]; rfl
      exact h.runStep ht rfl
        ⟨fun _ => hthread.started ht, fun _ => nofun, nofun, fun _ => rfl, nofun⟩ (Or.inl rfl)
        (fun u _ hr => hr) rfl
  | runClearRunner =>
      simp only [stepThread, hpc] at hstep
      cases hstep
      exact h.runStep (by rw [hpc]; rfl) rfl ⟨nofun, fun _ => nofun, nofun, nofun, nofun⟩
        (Or.inl rfl) (fun u _ => nofun) rfl
  | cancelLoad =>
      have hrun : (s.pc t).inRun = false := by rw [hpc]; rfl
      simp only [stepThread, hpc] at hstep
      split at hstep
      · cases hstep
        exact h.goto_outside hrun rfl nofun
      · cases hstep
        exact h.goto_outside hrun rfl nofun
      · next hstate =>
          cases hstep
          exact h.goto_outside hrun rfl fun _ => by rw [hstate]; nofun
      · cases hstep
        exact h.goto_outside hrun rfl nofun
  | cancelCas state =>
      have hrun : (s.pc t).inRun = false := by rw [hpc]; rfl
      simp only [stepThread, hpc] at hstep
      split_ifs at hstep with hstate
      · cases hstep
        refine h.cancel hrun fun u => ?_
        by_cases hrunning : s.task.taskState = .kRunning
        · exact hcond (by rw [hpc, ← hstate, hrunning]) hrunning u
        · exact h.quiet_of_state hrunning u
      · cases hstep
        exact h.goto_outside hrun rfl nofun
  | waitLoadRunner =>
      have hrun : (s.pc t).inRun = false := by rw [hpc]; rfl
      simp only [stepThread, hpc, if_neg (h.runner_ne hrun)] at hstep
      cases hstep
      exact h.goto_outside hrun rfl fun _ => hthread.inWait (by rw [hpc]; rfl)
  | waitLoadState =>
      have hrun : (s.pc t).inRun = false := by rw [hpc]; rfl
      have hwait : (s.pc t).inWait = true := by rw [hpc]; rfl
      simp only [stepThread, hpc] at hstep
      split_ifs at hstep with hstate
      · cases hstep
        exact h.goto_outside hrun rfl fun _ => hthread.inWait hwait
      · cases hstep
        exact h.returned hwait (h.quiet_of_state hstate)
  | waitNotification =>
      simp only [stepThread, hpc] at hstep
      split_ifs at hstep with hcompleted
      cases hstep
      exact h.returned (by rw [hpc]; rfl) (h.quiet_of_completed hcompleted)

theorem step_inv (s : System Thread) (a : Action Thread) (s' : System Thread) (h : Inv s)
    (hcond : CancelsNoRunning s a) (hstep : step s a = some s') : Inv s' := by
  cases a with
  | call t c =>
      simp only [step] at hstep
      split_ifs at hstep with hidle
      cases hstep
      have hrun : (s.pc t).inRun = false := by rw [hidle]; rfl
      cases c with
      | run => exact h.goto_outside hrun rfl nofun
      | cancelAndWait => exact h.goto_outside hrun rfl nofun
  | step t => exact stepThread_inv h hcond hstep

/-! ### The condition is sharp -/

/-- A runner before the end of its functor can be brought into it, alone. -/
theorem exists_run_inFunctor {s : System Thread} {u : Thread} (h : Unfinished s u) :
    ∃ (actions : List (Action Thread)) (s' : System Thread),
      Transition.run step s actions = some s' ∧ s'.pc u = .inFunctor ∧
      (∀ v, v ≠ u → s'.pc v = s.pc v) ∧ s'.task.taskState = s.task.taskState ∧
      (s'.task.taskRunner = s.task.taskRunner ∨ s'.task.taskRunner = some u) := by
  obtain ⟨hf, hend⟩ := h
  have henter : ∀ s : System Thread, s.task.functor = true → s.pc u = .runFunctor →
      step s (.step u) = some (s.goto u .inFunctor) := fun s hf hpc => by
    simp only [step, stepThread, hpc, hf, if_true]
  cases hpc : s.pc u with
  | runStoreRunner =>
      have hstore : step s (.step u) =
          some ({ s with task := { s.task with taskRunner := some u } }.goto u .runFunctor) := by
        simp only [step, stepThread, hpc]
      refine ⟨[.step u, .step u], _, Transition.run_cons.mpr ⟨_, hstore,
        Transition.run_cons.mpr ⟨_, henter _ hf (goto_pc_self _ _ _), rfl⟩⟩, goto_pc_self _ _ _,
        fun v hv => ?_, rfl, Or.inr rfl⟩
      rw [goto_pc_other _ _ hv, goto_pc_other _ _ hv]
  | runFunctor =>
      exact ⟨[.step u], _, Transition.run_cons.mpr ⟨_, henter s hf hpc, rfl⟩, goto_pc_self _ _ _,
        fun v hv => goto_pc_other _ _ hv, rfl, Or.inl rfl⟩
  | inFunctor => exact ⟨[], s, rfl, hpc, fun _ _ => rfl, rfl, Or.inl rfl⟩
  | _ =>
      rw [hpc] at hend
      exact absurd hend nofun

/-- After the cancel the wait sees neither itself as the runner nor a running task. -/
theorem run_wait {s : System Thread} {t : Thread} (hpc : s.pc t = .waitLoadRunner)
    (hrunner : s.task.taskRunner ≠ some t) (hstate : s.task.taskState = .kCanceled) :
    Transition.run step s [.step t, .step t] = some ((s.goto t .waitLoadState).returned t) := by
  have hload : step s (.step t) = some (s.goto t .waitLoadState) := by
    simp only [step, stepThread, hpc, if_neg hrunner]
  have hreturn : step (s.goto t .waitLoadState) (.step t) =
      some ((s.goto t .waitLoadState).returned t) := by
    simp only [step, stepThread, goto_pc_self]
    exact if_neg (show s.task.taskState ≠ .kRunning by rw [hstate]; nofun)
  exact Transition.run_cons.mpr ⟨_, hload, Transition.run_cons.mpr ⟨_, hreturn, rfl⟩⟩

/-- A cancel that hits a running task can always go on to a wait that returns while the functor
executes. -/
theorem exists_run_not_quiescent {s : System Thread} {a : Action Thread} (h : Inv s)
    (hmiss : ¬CancelsNoRunning s a) :
    ∃ (rest : List (Action Thread)) (s' : System Thread),
      Transition.run step s (a :: rest) = some s' ∧ ¬Quiescent s' := by
  cases a with
  | call t c => exact absurd trivial hmiss
  | step t =>
      simp only [CancelsNoRunning, Classical.not_imp, not_forall, not_not] at hmiss
      obtain ⟨hpc, hstate, u, hunf⟩ := hmiss
      have hut : u ≠ t := by
        rintro rfl
        have hend := hunf.2
        rw [hpc] at hend
        exact absurd hend nofun
      have hrunner : s.task.taskRunner ≠ some t := h.runner_ne (by rw [hpc]; rfl)
      generalize hs1 : ({ s with task := { s.task with taskState := .kCanceled } } :
        System Thread).goto t .waitLoadRunner = s1
      have hcancel : step s (.step t) = some s1 := by
        simp only [step, stepThread, hpc, hstate, if_true]
        rw [← hs1]
      have hunf1 : Unfinished s1 u := by
        rw [← hs1]
        exact ⟨hunf.1, by rw [goto_pc_other _ _ hut]; exact hunf.2⟩
      obtain ⟨actions, s2, hrun2, hin, hother, hstate2, hrunner2⟩ := exists_run_inFunctor hunf1
      have hpc2 : s2.pc t = .waitLoadRunner := by
        rw [hother t hut.symm, ← hs1, goto_pc_self]
      have hstate2' : s2.task.taskState = .kCanceled := by
        rw [hstate2, ← hs1]
        rfl
      have hrunner2' : s2.task.taskRunner ≠ some t := by
        rcases hrunner2 with hsame | hu
        · rw [hsame, ← hs1]
          exact hrunner
        · rw [hu]
          exact fun heq => hut (Option.some.inj heq)
      refine ⟨actions ++ [.step t, .step t], _, Transition.run_cons.mpr ⟨s1, hcancel,
        Transition.run_append.mpr ⟨s2, hrun2, run_wait hpc2 hrunner2' hstate2'⟩⟩, fun hq => ?_⟩
      refine hq rfl u ?_
      rw [System.returned, goto_pc_other _ _ hut, goto_pc_other _ _ hut]
      exact hin

/-- Cancel-then-wait quiesces the task in every run in which no cancel hits a task that is running
its functor or about to; and the first cancel that does can always be continued to a state in which
the wait has returned and the functor executes. -/
theorem cancel_then_wait_quiesces (functor : Bool) (actions : List (Action Thread))
    (hmeets : Transition.Meets step CancelsNoRunning (System.new functor) actions) :
    Transition.Along step Quiescent (System.new functor) actions ∧
    ∀ (s : System Thread) (a : Action Thread),
      Transition.run step (System.new functor) actions = some s → ¬CancelsNoRunning s a →
      ∃ (rest : List (Action Thread)) (s' : System Thread),
        Transition.run step s (a :: rest) = some s' ∧ ¬Quiescent s' :=
  ⟨Transition.along_of_meets step_inv (fun _ h => h.quiescent) (new_inv functor) hmeets,
    fun _ _ hrun hmiss => exists_run_not_quiescent
      (Transition.run_invariant_of_meets step_inv (new_inv functor) hmeets hrun) hmiss⟩

/-- The task runs to its end before it is cancelled. -/
theorem cancel_then_wait_quiesces_completed :
    Transition.Along step Quiescent (System.new true : System Bool)
      [.call false .run, .step false, .step false, .step false, .step false, .step false,
        .call true .cancelAndWait, .step true, .step true, .step true] :=
  (cancel_then_wait_quiesces true _ (Transition.meets_of_check (by decide))).1

/-- The cancel hits the running functor, and the wait returns while it executes. -/
theorem cancel_then_wait_misses_running :
    ∃ s, Transition.run step (System.new true : System Bool)
        [.call false .run, .step false, .step false, .step false, .call true .cancelAndWait,
          .step true, .step true, .step true, .step true] = some s ∧
      s.waited = true ∧ s.pc false = .inFunctor := by
  refine ⟨_, rfl, ?_⟩
  decide

end Task

end Iomgr
