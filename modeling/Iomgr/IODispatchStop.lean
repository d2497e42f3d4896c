import Iomgr.IODispatch
import Mathlib.Data.Fintype.Basic

/-!
After a stop. A controller keeps the handle of one task only, the last one posted for it, and
`CancelTask` does not keep a task that has been started from going on to `HandleIO`. A stop that
returned true has revoked every task posted for its controller when the tasks of the controller
that are still pending are the one of that handle, and none stands between its start and
`HandleIO`.
-/

namespace Iomgr.IODispatch

variable {Worker : Type}

/-- The task can no more begin `HandleIO`. -/
def Dead (s : System Worker) (id : Nat) : Prop :=
  s.taskState id ≠ .kPending ∧ ∀ w, s.workers w ≠ .started id

/-- No task posted for a controller before a stop of it that returned true has begun `HandleIO`
after the stop. -/
def NoLateHandler (s : System Worker) : Prop := s.late = false

/-- The tasks of `c` that are pending are the one whose handle the stop takes, and none of its
tasks is between its start and `HandleIO`. -/
def Clean (s : System Worker) (c : ControllerPtr) : Prop :=
  ∀ id ∈ s.tasksOf c, (s.taskState id = .kPending → s.handleOf c = some id) ∧
    ∀ w, s.workers w ≠ .started id

instance [Fintype Worker] (s : System Worker) (c : ControllerPtr) : Decidable (Clean s c) :=
  inferInstanceAs (Decidable (∀ id ∈ _, _ ∧ ∀ _, _))

/-- The condition on a run: every stop that returns true finds its controller clean. -/
def StopsClean (s : System Worker) : Action Worker → Prop
  | .stop ok c => (s.manager.stopWatchingFileDescriptorNoLock ok c).any Prod.fst = true → Clean s c
  | _ => True

instance [Fintype Worker] (s : System Worker) (a : Action Worker) : Decidable (StopsClean s a) :=
  match a with
  | .stop _ c => inferInstanceAs (Decidable (_ → Clean s c))
  | .event _ _ | .dispatch | .eventEnd | .watch _ _ _ _ _ _ | .stopReturn | .dequeue _ | .start _
  | .enter _ | .finish _ => isTrue trivial

structure StopInv (s : System Worker) : Prop where
  late : s.late = false
  revoked : ∀ id ∈ s.revoked, id < s.tasks.length ∧ Dead s id
  stopping : ∀ c task, s.stopping = some (c, task) →
    s.poll = none ∧ ∀ id ∈ s.tasksOf c, Dead s id

theorem new_stopInv : StopInv (System.new : System Worker) :=
  ⟨rfl, fun _ h => absurd h List.not_mem_nil, nofun⟩

/-- Posting leaves the state of earlier tasks alone. -/
theorem post_taskState_of_lt {s : System Worker} (c : ControllerPtr) (ready : Mode) {id : Nat}
    (h : id < s.tasks.length) : (s.post c ready).taskState id = s.taskState id :=
  Function.update_of_ne (Nat.ne_of_lt h) _ _

/-- A step under the mutex keeps dead tasks dead. -/
theorem Dead.stepManager {s s' : System Worker} {a : Action Worker} {id : Nat} (h : Dead s id)
    (hlt : id < s.tasks.length) (hstep : stepManager s a = some s') : Dead s' id := by
  obtain ⟨hworkers, -, hcases⟩ := stepManager_cases hstep
  refine ⟨?_, hworkers ▸ h.2⟩
  rcases hcases with ⟨-, -, hstate⟩ | ⟨ready, c, rest, -, -, rfl⟩
  · rcases hstate id with hsame | hcancel
    · rw [hsame]
      exact h.1
    · rw [hcancel]
      exact nofun
  · exact (post_taskState_of_lt c ready hlt).symm ▸ h.1

theorem tasks_length_le {s s' : System Worker} {a : Action Worker}
    (hstep : stepManager s a = some s') : s.tasks.length ≤ s'.tasks.length := by
  obtain ⟨-, -, ⟨htasks, -, -⟩ | ⟨ready, c, rest, -, -, rfl⟩⟩ := stepManager_cases hstep
  · exact Nat.le_of_eq (congrArg List.length htasks.symm)
  · simp [System.post]

theorem Dead.setState {s : System Worker} {id : Nat} (h : Dead s id) (id' : Nat)
    (state : TaskState) (hstate : state ≠ .kPending) :
    Dead { s with taskState := Function.update s.taskState id' state } id := by
  refine ⟨?_, h.2⟩
  by_cases hid : id = id'
  · subst hid
    simpa using hstate
  · simpa [hid] using h.1

/-- A worker's step keeps dead tasks dead, and begins none of them. -/
theorem StopInv.worker {s s' : System Worker} (h : StopInv s) (htasks : s'.tasks = s.tasks)
    (hrevoked : s'.revoked = s.revoked) (hstopping : s'.stopping = s.stopping)
    (hpoll : s'.poll = s.poll) (hlate : s'.late = false)
    (hdead : ∀ id, Dead s id → Dead s' id) : StopInv s' := by
  have hof : ∀ c, s'.tasksOf c = s.tasksOf c := fun c => by rw [System.tasksOf, htasks]; rfl
  refine ⟨hlate, fun id hid => ?_, fun c task hst => ?_⟩
  · obtain ⟨hlt, hd⟩ := h.revoked id (hrevoked ▸ hid)
    exact ⟨htasks ▸ hlt, hdead id hd⟩
  · obtain ⟨hp, hd⟩ := h.stopping c task (hstopping ▸ hst)
    exact ⟨hpoll.trans hp, fun id hid => hdead id (hd id (hof c ▸ hid))⟩

/-- A step under the mutex that starts no stop. -/
theorem StopInv.manager {s s' : System Worker} {a : Action Worker} (h : StopInv s)
    (hstep : stepManager s a = some s') (hrevoked : s'.revoked = s.revoked)
    (hstopping : s'.stopping = none) : StopInv s' := by
  obtain ⟨-, hlate, -⟩ := stepManager_cases hstep
  refine ⟨hlate.trans h.late, fun id hid => ?_, fun c task hst => ?_⟩
  · obtain ⟨hlt, hd⟩ := h.revoked id (hrevoked ▸ hid)
    exact ⟨Nat.lt_of_lt_of_le hlt (tasks_length_le hstep), hd.stepManager hlt hstep⟩
  · rw [hstopping] at hst
    cases hst

theorem unlocked_iff {s : System Worker} :
    s.unlocked = true ↔ s.poll = none ∧ s.stopping = none := by
  simp [System.unlocked]

theorem StopInv.stop {s s' : System Worker} {ok : Bool} {c : ControllerPtr} (h : StopInv s)
    (hcond : StopsClean s (.stop ok c)) (hstep : stepManager s (.stop ok c) = some s') :
    StopInv s' := by
  obtain ⟨hworkers, hlate, -⟩ := stepManager_cases hstep
  have hdead : ∀ id ∈ s.revoked, id < s'.tasks.length ∧ Dead s' id := fun id hid => by
    obtain ⟨hlt, hd⟩ := h.revoked id hid
    exact ⟨Nat.lt_of_lt_of_le hlt (tasks_length_le hstep), hd.stepManager hlt hstep⟩
  simp only [stepManager] at hstep
  split_ifs at hstep with hunlocked
  obtain ⟨s1, hcancel, hrest⟩ := Option.bind_eq_some_iff.mp hstep
  obtain ⟨⟨stopped, m⟩, hstop, heq⟩ := Option.bind_eq_some_iff.mp hrest
  obtain ⟨hsame, hstate, hhandle⟩ := cancelTask_spec hcancel
  have hmanager : s1.manager = s.manager := by rw [hsame]
  have htasks : s1.tasks = s.tasks := by rw [hsame]
  have hrevoked : s1.revoked = s.revoked := by rw [hsame]
  have hpoll : s1.poll = s.poll := by rw [hsame]
  cases heq
  refine ⟨hlate.trans h.late, fun id hid => hdead id (hrevoked ▸ hid), fun c' task hst => ?_⟩
  dsimp only at hst
  split_ifs at hst with hstopped
  cases hst
  rw [hmanager, hstopped] at hstop
  refine ⟨hpoll.trans (unlocked_iff.mp hunlocked).1, fun id hid => ?_⟩
  have hid' : id ∈ s.tasksOf c := by
    have hof : s1.tasksOf c = s.tasksOf c := by rw [System.tasksOf, htasks]; rfl
    exact hof ▸ hid
  obtain ⟨hpending, hstarted⟩ := hcond (by rw [hstop]; rfl) id hid'
  refine ⟨fun hp => ?_, fun w => ?_⟩
  · rcases hstate id with heq | hcanceled
    · exact hhandle id (hpending (heq ▸ hp)) hp
    · rw [show s1.taskState id = .kPending from hp] at hcanceled
      cases hcanceled
  · rw [hworkers]
    exact hstarted w

theorem StopInv.stopReturn {s s' : System Worker} (h : StopInv s)
    (hstep : stepManager s .stopReturn = some s') : StopInv s' := by
  simp only [stepManager] at hstep
  split at hstep
  · next c task hst =>
      split_ifs at hstep
      cases hstep
      obtain ⟨-, hdead⟩ := h.stopping c task hst
      refine ⟨h.late, fun id hid => ?_, fun _ _ hnone => by cases hnone⟩
      rcases List.mem_append.mp hid with hid | hid
      · exact h.revoked id hid
      · exact ⟨lt_of_mem_tasksOf hid, hdead id hid⟩
  · cases hstep

theorem stepManager_stopInv {s s' : System Worker} {a : Action Worker} (h : StopInv s)
    (hcond : StopsClean s a) (hstep : stepManager s a = some s') : StopInv s' := by
  have hlocked : s.poll ≠ none → s.stopping = none := by
    intro hpoll
    cases hst : s.stopping with
    | none => rfl
    | some r => exact absurd (h.stopping r.1 r.2 hst).1 hpoll
  have hcopy := hstep
  cases a with
  | event fd ready =>
      simp only [stepManager] at hstep
      split_ifs at hstep with hunlocked
      obtain ⟨entry, -, heq⟩ := Option.bind_eq_some_iff.mp hstep
      cases heq
      exact h.manager hcopy rfl (unlocked_iff.mp hunlocked).2
  | dispatch =>
      simp only [stepManager] at hstep
      split at hstep
      · next ready c rest hpoll =>
          have hnone := hlocked (by rw [hpoll]; exact Option.some_ne_none _)
          split_ifs at hstep with hmatch
          · cases hstep
            exact h.manager hcopy rfl hnone
          · cases hstep
            exact h.manager hcopy rfl hnone
      · cases hstep
  | eventEnd =>
      simp only [stepManager] at hstep
      split at hstep
      · next ready hpoll =>
          cases hstep
          exact h.manager hcopy rfl (hlocked (by rw [hpoll]; exact Option.some_ne_none _))
      · cases hstep
  | watch okStop ok fd mode watcher c =>
      simp only [stepManager] at hstep
      split_ifs at hstep with hunlocked
      · cases hstep
        exact h
      · obtain ⟨s1, hcancel, hrest⟩ := Option.bind_eq_some_iff.mp hstep
        obtain ⟨⟨watched, m⟩, -, heq⟩ := Option.bind_eq_some_iff.mp hrest
        obtain ⟨hsame, -, -⟩ := cancelTask_spec hcancel
        cases heq
        refine h.manager hcopy ?_ ?_
        · rw [hsame]
        · rw [hsame]
          exact (unlocked_iff.mp hunlocked).2
  | stop ok c => exact h.stop hcond hstep
  | stopReturn => exact h.stopReturn hstep
  | dequeue w => cases hstep
  | start w => cases hstep
  | enter w => cases hstep
  | finish w => cases hstep

variable [DecidableEq Worker]

theorem Dead.goto {s : System Worker} {id : Nat} (h : Dead s id) (w : Worker) (pc : WorkerPc)
    (hpc : pc ≠ .started id) : Dead (s.goto w pc) id := by
  refine ⟨h.1, fun w' => ?_⟩
  by_cases hw : w' = w
  · subst hw
    rw [goto_workers_self]
    exact hpc
  · rw [goto_workers_other s pc hw]
    exact h.2 w'

theorem step_stopInv (s : System Worker) (a : Action Worker) (s' : System Worker) (h : StopInv s)
    (hcond : StopsClean s a) (hstep : step s a = some s') : StopInv s' := by
  rcases step_cases hstep with hmanager | ⟨w, id, rest, -, -, -, rfl⟩ | ⟨w, id, -, -, hstate, rfl⟩ |
    ⟨w, id, -, -, rfl⟩ | ⟨w, id, -, hw, rfl⟩ | ⟨w, id, -, -, rfl⟩
  · exact stepManager_stopInv h hcond hmanager
  · exact h.worker rfl rfl rfl rfl h.late fun _ hd => Dead.goto hd w _ nofun
  · refine h.worker rfl rfl rfl rfl h.late fun id' hd => ?_
    refine Dead.goto (hd.setState id .kRunning nofun) w _ fun heq => ?_
    cases heq
    exact hd.1 hstate
  · exact h.worker rfl rfl rfl rfl h.late fun _ hd => hd.goto w .idle nofun
  · have hnot : id ∉ s.revoked := fun hid => (h.revoked id hid).2.2 w hw
    refine h.worker rfl rfl rfl rfl ?_ fun _ hd => ?_
    · simp [h.late, hnot]
    · exact Dead.goto hd w (.handling id) nofun
  · exact h.worker rfl rfl rfl rfl h.late fun _ hd =>
      Dead.goto (hd.setState id .kCompleted nofun) w .idle nofun

/-- In every run whose stops that return true find their controller clean, no task posted for a
controller before such a stop begins `HandleIO` after it. -/
theorem no_handler_after_stop (actions : List (Action Worker))
    (hmeets : Transition.Meets step StopsClean System.new actions) :
    Transition.Along step NoLateHandler System.new actions :=
  Transition.along_of_meets step_stopInv (fun _ h => h.late) new_stopInv hmeets

/-- One event, and the stop cancels its task before a worker starts it. -/
theorem no_handler_after_stop_single_event :
    Transition.Along step NoLateHandler (System.new : System (Fin 4))
      [.watch true true 5 kWatchRead 0 1, .event 5 kWatchRead, .dispatch, .eventEnd,
        .stop true 1, .stopReturn, .dequeue 0, .start 0] :=
  no_handler_after_stop _ (Transition.meets_of_check (by decide))

/-- Two events are posted before a worker runs; the stop cancels the second task, and a worker
begins the first one after the stop has returned. -/
theorem handler_after_stop_two_events :
    ∃ s, Transition.run step (System.new : System (Fin 4))
        [.watch true true 5 kWatchRead 0 1, .event 5 kWatchRead, .dispatch, .eventEnd,
          .event 5 kWatchRead, .dispatch, .eventEnd, .stop true 1, .stopReturn, .dequeue 0,
          .start 0, .enter 0] = some s ∧
      s.workers 0 = .handling 0 ∧ 0 ∈ s.revoked ∧ s.late = true := by
  refine ⟨_, rfl, ?_⟩
  decide

end Iomgr.IODispatch
