import Iomgr.IOManager
import Iomgr.Task
import Iomgr.TransitionSystem

/-!
The poll loop, the task runner and the calls that change a watch, as one system. Under the
manager's mutex the poll loop takes an event and posts one task for each matching controller of the
descriptor, keeping the handle in the controller; a stop cancels the task of that handle, takes the
controller out of the table, waits and returns. The workers take tasks from the queue, start them
with a compare-exchange and run `HandleIO`.
-/

namespace Iomgr.IODispatch

/-- A posted `HandleIO(fd, watcher, ready)`, with the controller it was posted for. -/
structure PostedTask where
  controller : ControllerPtr
  fd : Int
  watcher : Option WatcherPtr
  ready : Mode
  deriving DecidableEq

/-- Where a worker is with a task: it has taken it from the queue, has started it, or is in
`HandleIO`. -/
inductive WorkerPc
  | idle
  | dequeued (id : Nat)
  | started (id : Nat)
  | handling (id : Nat)
  deriving DecidableEq

/-- A task is named by its position in `tasks`. The manager's mutex is held while `poll` holds the
event being dispatched, or `stopping` a stop that has yet to return. `revoked` records the tasks
posted for a controller before a stop of it that returned true, `late` that one of these was
entered afterwards. -/
structure System (Worker : Type) where
  manager : IOManager
  tasks : List PostedTask
  taskState : Nat → TaskState
  queue : List Nat
  workers : Worker → WorkerPc
  poll : Option (Mode × List ControllerPtr)
  stopping : Option (ControllerPtr × Option Nat)
  revoked : List Nat
  late : Bool

inductive Action (Worker : Type)
  | event (fd : Int) (ready : Mode)
  | dispatch
  | eventEnd
  | watch (okStop ok : Bool) (fd : Int) (mode : Mode) (watcher : WatcherPtr) (c : ControllerPtr)
  | stop (ok : Bool) (c : ControllerPtr)
  | stopReturn
  | dequeue (w : Worker)
  | start (w : Worker)
  | enter (w : Worker)
  | finish (w : Worker)
  deriving DecidableEq

variable {Worker : Type}

def System.new : System Worker where
  manager := IOManager.new
  tasks := []
  taskState _ := .kPending
  queue := []
  workers _ := .idle
  poll := none
  stopping := none
  revoked := []
  late := false

/-- The manager's mutex is free. -/
def System.unlocked (s : System Worker) : Bool := s.poll.isNone && s.stopping.isNone

/-- `PostTask` for a controller, the handle stored in it. -/
def System.post (s : System Worker) (c : ControllerPtr) (ready : Mode) : System Worker :=
  let controller := s.manager.controllers c
  { s with
    manager := s.manager.setController c { controller with task := some s.tasks.length }
    tasks := s.tasks ++ [⟨c, controller.fd, controller.watcher, ready &&& controller.mode⟩]
    taskState := Function.update s.taskState s.tasks.length .kPending
    queue := s.queue ++ [s.tasks.length] }

/-- `CancelTask` of a handle, if there is one; on a task already cancelled it does not return. -/
def System.cancelTask (s : System Worker) : Option Nat → Option (System Worker)
  | none => some s
  | some id =>
      match s.taskState id with
      | .kPending | .kRunning =>
          some { s with taskState := Function.update s.taskState id .kCanceled }
      | .kCompleted => some s
      | .kCanceled => none

/-- The handle a stop takes out of the controller; a controller that watches nothing is not asked
for it. -/
def System.handleOf (s : System Worker) (c : ControllerPtr) : Option Nat :=
  if (s.manager.controllers c).fd = -1 then none else (s.manager.controllers c).task

/-- The tasks posted for a controller so far. -/
def System.tasksOf (s : System Worker) (c : ControllerPtr) : List Nat :=
  (List.range s.tasks.length).filter fun id => (s.tasks[id]?).any fun task => task.controller == c

/-- The controller the next dispatch posts a task for. -/
def System.postsFor (s : System Worker) : Option ControllerPtr :=
  match s.poll with
  | some (ready, c :: _) => if ready &&& (s.manager.controllers c).mode ≠ 0 then some c else none
  | _ => none

section Step

variable [DecidableEq Worker]

def System.goto (s : System Worker) (w : Worker) (pc : WorkerPc) : System Worker :=
  { s with workers := Function.update s.workers w pc }

/-- A worker's step: `RunTasks` and `Task::Run`. -/
def stepWorker (s : System Worker) : Action Worker → Option (System Worker)
  | .dequeue w =>
      match s.workers w, s.queue with
      | .idle, id :: rest => some ({ s with queue := rest }.goto w (.dequeued id))
      | _, _ => none
  | .start w =>
      match s.workers w with
      | .dequeued id =>
          if s.taskState id = .kPending then
            some ({ s with taskState := Function.update s.taskState id .kRunning }.goto w (.started id))
          else some (s.goto w .idle)
      | _ => none
  | .enter w =>
      match s.workers w with
      | .started id => some { s.goto w (.handling id) with late := s.late || id ∈ s.revoked }
      | _ => none
  | .finish w =>
      match s.workers w with
      | .handling id =>
          some ({ s with taskState := Function.update s.taskState id .kCompleted }.goto w .idle)
      | _ => none
  | _ => none

/-- A step under the manager's mutex. -/
def stepManager (s : System Worker) : Action Worker → Option (System Worker)
  | .event fd ready =>
      if s.unlocked then do
        let entry ← s.manager.fdControllers fd
        some { s with poll := some (ready, entry.controllers) }
      else none
  | .dispatch =>
      match s.poll with
      | some (ready, c :: rest) =>
          let s := if ready &&& (s.manager.controllers c).mode ≠ 0 then s.post c ready else s
          some { s with poll := some (ready, rest) }
      | _ => none
  | .eventEnd =>
      match s.poll with
      | some (_, []) => some { s with poll := none }
      | _ => none
  | .watch okStop ok fd mode watcher c =>
      if s.unlocked then
        if (s.manager.controllers c).fd ≠ -1 ∧ (s.manager.controllers c).fd ≠ fd then some s
        else do
          let s ← s.cancelTask (s.handleOf c)
          let (_, m) ← s.manager.watchFileDescriptor okStop ok fd mode watcher c
          some { s with manager := m }
      else none
  | .stop ok c =>
      if s.unlocked then do
        let task := s.handleOf c
        let s ← s.cancelTask task
        let (stopped, m) ← s.manager.stopWatchingFileDescriptorNoLock ok c
        some { s with manager := m, stopping := if stopped then some (c, task) else none }
      else none
  | .stopReturn =>
      match s.stopping with
      | some (c, task) =>
          -- `WaitIfRunning` returns at once unless it reads `kRunning`
          if task.all fun id => s.taskState id ≠ .kRunning then
            some { s with stopping := none, revoked := s.revoked ++ s.tasksOf c }
          else none
      | none => none
  | _ => none

def step (s : System Worker) (a : Action Worker) : Option (System Worker) :=
  match a with
  | .dequeue _ | .start _ | .enter _ | .finish _ => stepWorker s a
  | _ => stepManager s a

end Step

/-! ### What a step can do -/

/-- Cancelling changes only states, and those only to `kCanceled`. -/
theorem cancelTask_spec {s s' : System Worker} {task : Option Nat}
    (h : s.cancelTask task = some s') :
    s' = { s with taskState := s'.taskState } ∧
      (∀ id, s'.taskState id = s.taskState id ∨ s'.taskState id = .kCanceled) ∧
      ∀ id, task = some id → s'.taskState id ≠ .kPending := by
  cases task with
  | none =>
      cases h
      exact ⟨rfl, fun _ => Or.inl rfl, nofun⟩
  | some id =>
      have hcancel : s' = { s with taskState := Function.update s.taskState id .kCanceled } →
          s' = { s with taskState := s'.taskState } ∧
          (∀ id, s'.taskState id = s.taskState id ∨ s'.taskState id = .kCanceled) ∧
          ∀ id', some id = some id' → s'.taskState id' ≠ .kPending := by
        rintro rfl
        refine ⟨rfl, fun id' => ?_, fun id' hid => ?_⟩
        · by_cases hid : id' = id
          · subst hid
            exact Or.inr (Function.update_self _ _ _)
          · exact Or.inl (Function.update_of_ne hid _ _)
        · cases hid
          simp
      simp only [System.cancelTask] at h
      split at h
      · exact hcancel (Option.some.inj h).symm
      · exact hcancel (Option.some.inj h).symm
      · next hstate =>
          cases h
          refine ⟨rfl, fun _ => Or.inl rfl, fun id' hid => ?_⟩
          cases hid
          rw [hstate]
          exact nofun
      · cases h

/-- A step under the mutex leaves the workers alone. It posts a task, or at most cancels some. -/
theorem stepManager_cases {s s' : System Worker} {a : Action Worker}
    (h : stepManager s a = some s') :
    s'.workers = s.workers ∧ s'.late = s.late ∧
      ((s'.tasks = s.tasks ∧ s'.queue = s.queue ∧
          ∀ id, s'.taskState id = s.taskState id ∨ s'.taskState id = .kCanceled) ∨
        ∃ ready c rest, a = .dispatch ∧ s.postsFor = some c ∧
          s' = { s.post c ready with poll := some (ready, rest) }) := by
  cases a with
  | event fd ready =>
      simp only [stepManager] at h
      split_ifs at h
      obtain ⟨entry, -, heq⟩ := Option.bind_eq_some_iff.mp h
      cases heq
      exact ⟨rfl, rfl, Or.inl ⟨rfl, rfl, fun _ => Or.inl rfl⟩⟩
  | dispatch =>
      simp only [stepManager] at h
      split at h
      · next ready c rest hpoll =>
          split_ifs at h with hmatch
          · cases h
            refine ⟨rfl, rfl, Or.inr ⟨ready, c, rest, rfl, ?_, rfl⟩⟩
            simp only [System.postsFor, hpoll, if_pos hmatch]
          · cases h
            exact ⟨rfl, rfl, Or.inl ⟨rfl, rfl, fun _ => Or.inl rfl⟩⟩
      · cases h
  | eventEnd =>
      simp only [stepManager] at h
      split at h
      · cases h
        exact ⟨rfl, rfl, Or.inl ⟨rfl, rfl, fun _ => Or.inl rfl⟩⟩
      · cases h
  | watch okStop ok fd mode watcher c =>
      simp only [stepManager] at h
      split_ifs at h
      · cases h
        exact ⟨rfl, rfl, Or.inl ⟨rfl, rfl, fun _ => Or.inl rfl⟩⟩
      · obtain ⟨s1, hcancel, hrest⟩ := Option.bind_eq_some_iff.mp h
        obtain ⟨⟨watched, m⟩, -, heq⟩ := Option.bind_eq_some_iff.mp hrest
        obtain ⟨hsame, hstate, -⟩ := cancelTask_spec hcancel
        cases heq
        rw [hsame]
        exact ⟨rfl, rfl, Or.inl ⟨rfl, rfl, hstate⟩⟩
  | stop ok c =>
      simp only [stepManager] at h
      split_ifs at h
      obtain ⟨s1, hcancel, hrest⟩ := Option.bind_eq_some_iff.mp h
      obtain ⟨⟨stopped, m⟩, -, heq⟩ := Option.bind_eq_some_iff.mp hrest
      obtain ⟨hsame, hstate, -⟩ := cancelTask_spec hcancel
      cases heq
      rw [hsame]
      exact ⟨rfl, rfl, Or.inl ⟨rfl, rfl, hstate⟩⟩
  | stopReturn =>
      simp only [stepManager] at h
      split at h
      · split_ifs at h
        cases h
        exact ⟨rfl, rfl, Or.inl ⟨rfl, rfl, fun _ => Or.inl rfl⟩⟩
      · cases h
  | dequeue w => cases h
  | start w => cases h
  | enter w => cases h
  | finish w => cases h

section Workers

variable [DecidableEq Worker]

theorem goto_workers_self (s : System Worker) (w : Worker) (pc : WorkerPc) :
    (s.goto w pc).workers w = pc := by
  simp [System.goto]

theorem goto_workers_other (s : System Worker) {w w' : Worker} (pc : WorkerPc) (h : w' ≠ w) :
    (s.goto w pc).workers w' = s.workers w' := by
  simp [System.goto, h]

/-- A step is a worker's or one under the mutex. -/
theorem step_cases {s s' : System Worker} {a : Action Worker} (h : step s a = some s') :
    stepManager s a = some s' ∨
    (∃ w id rest, a = .dequeue w ∧ s.workers w = .idle ∧ s.queue = id :: rest ∧
      s' = { s with queue := rest }.goto w (.dequeued id)) ∨
    (∃ w id, a = .start w ∧ s.workers w = .dequeued id ∧ s.taskState id = .kPending ∧
      s' = { s with taskState := Function.update s.taskState id .kRunning }.goto w (.started id)) ∨
    (∃ w id, a = .start w ∧ s.workers w = .dequeued id ∧ s' = s.goto w .idle) ∨
    (∃ w id, a = .enter w ∧ s.workers w = .started id ∧
      s' = { s.goto w (.handling id) with late := s.late || id ∈ s.revoked }) ∨
    ∃ w id, a = .finish w ∧ s.workers w = .handling id ∧
      s' = { s with taskState := Function.update s.taskState id .kCompleted }.goto w .idle := by
  cases a with
  | dequeue w =>
      simp only [step, stepWorker] at h
      split at h
      · next id rest hw hq =>
          cases h
          exact Or.inr (Or.inl ⟨w, id, rest, rfl, hw, hq, rfl⟩)
      · cases h
  | start w =>
      simp only [step, stepWorker] at h
      split at h
      · next id hw =>
          split_ifs at h with hstate
          · cases h
            exact Or.inr (Or.inr (Or.inl ⟨w, id, rfl, hw, hstate, rfl⟩))
          · cases h
            exact Or.inr (Or.inr (Or.inr (Or.inl ⟨w, id, rfl, hw, rfl⟩)))
      · cases h
  | enter w =>
      simp only [step, stepWorker] at h
      split at h
      · next id hw =>
          cases h
          exact Or.inr (Or.inr (Or.inr (Or.inr (Or.inl ⟨w, id, rfl, hw, rfl⟩))))
      · cases h
  | finish w =>
      simp only [step, stepWorker] at h
      split at h
      · next id hw =>
          cases h
          exact Or.inr (Or.inr (Or.inr (Or.inr (Or.inr ⟨w, id, rfl, hw, rfl⟩))))
      · cases h
  | event fd ready => exact Or.inl h
  | dispatch => exact Or.inl h
  | eventEnd => exact Or.inl h
  | watch okStop ok fd mode watcher c => exact Or.inl h
  | stop ok c => exact Or.inl h
  | stopReturn => exact Or.inl h

end Workers

theorem mem_tasksOf {s : System Worker} {c : ControllerPtr} {id : Nat} :
    id ∈ s.tasksOf c ↔ ∃ task, s.tasks[id]? = some task ∧ task.controller = c := by
  rw [System.tasksOf, List.mem_filter, List.mem_range]
  cases hid : s.tasks[id]? with
  | none => simp
  | some task =>
      have hlt := (List.getElem?_eq_some_iff.mp hid).1
      simp [hlt]

theorem lt_of_mem_tasksOf {s : System Worker} {c : ControllerPtr} {id : Nat}
    (h : id ∈ s.tasksOf c) : id < s.tasks.length := by
  obtain ⟨task, hid, -⟩ := mem_tasksOf.mp h
  exact (List.getElem?_eq_some_iff.mp hid).1

end Iomgr.IODispatch
