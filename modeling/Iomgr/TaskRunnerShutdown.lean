import Iomgr.TaskHistory
import Iomgr.TaskRunner

/-!
The end of the task runner. Its destructor tells the workers to stop and then calls `CancelTask` on
every task that is still queued. The loop of `CancelTask` leaves from `kPending`, `kRunning` and
`kCompleted`; from `kCanceled` it reaches its assertion, and without assertions it goes round for
ever. Nothing but a cancel through a handle changes a task in the queue.
-/

namespace Iomgr

namespace Task

variable {Thread : Type} [DecidableEq Thread]

/-- The steps of a thread in `CancelTask`, alone, until the call returns: `none` when the steps are
not enough, or the assertion of the default branch fails in a build that checks it. -/
def cancelLoop (dcheck : Bool) (t : Thread) : Nat → System Thread → Option (System Thread)
  | 0, _ => none
  | fuel + 1, s =>
      if dcheck = true ∧ s.pc t = .cancelLoad ∧ s.task.taskState = .kCanceled then none
      else do
        let s ← stepThread s t
        if s.pc t = .waitLoadRunner then some (s.goto t .idle) else cancelLoop dcheck t fuel s

/-- A call of `CancelTask` with no other thread on the task. -/
def cancelTask (dcheck : Bool) (t : Thread) (fuel : Nat) (s : System Thread) :
    Option (System Thread) :=
  cancelLoop dcheck t fuel (s.goto t .cancelLoad)

/-- The state that `CancelTask` leaves. -/
def afterCancel : TaskState → TaskState
  | .kCompleted => .kCompleted
  | _ => .kCanceled

theorem cancelLoop_step {dcheck : Bool} {t : Thread} {s s' : System Thread} (fuel : Nat)
    (hcheck : ¬(dcheck = true ∧ s.pc t = .cancelLoad ∧ s.task.taskState = .kCanceled))
    (hstep : stepThread s t = some s') : cancelLoop dcheck t (fuel + 1) s =
      if s'.pc t = .waitLoadRunner then some (s'.goto t .idle) else cancelLoop dcheck t fuel s' := by
  rw [cancelLoop, if_neg hcheck, hstep, Option.bind_eq_bind, Option.bind_some]

/-- From `kCanceled` the loop does not end. -/
theorem cancelLoop_canceled (dcheck : Bool) {t : Thread} (fuel : Nat) :
    ∀ s : System Thread, s.pc t = .cancelLoad → s.task.taskState = .kCanceled →
      cancelLoop dcheck t fuel s = none := by
  induction fuel with
  | zero => exact fun _ _ _ => rfl
  | succ fuel ih =>
      intro s hpc hstate
      have hstep : stepThread s t = some (s.goto t .cancelLoad) := by
        simp only [stepThread, hpc, hstate]
      by_cases hcheck : dcheck = true ∧ s.pc t = .cancelLoad ∧ s.task.taskState = .kCanceled
      · rw [cancelLoop, if_pos hcheck]
      · rw [cancelLoop_step fuel hcheck hstep, goto_pc_self, if_neg (by simp)]
        exact ih _ (goto_pc_self _ _ _) hstate

theorem cancelLoop_mono (dcheck : Bool) {t : Thread} (fuel : Nat) :
    ∀ s s' : System Thread, cancelLoop dcheck t fuel s = some s' →
      cancelLoop dcheck t (fuel + 1) s = some s' := by
  induction fuel with
  | zero =>
      intro s s' h
      cases h
  | succ fuel ih =>
      intro s s' h
      rw [cancelLoop] at h ⊢
      split_ifs at h ⊢
      obtain ⟨u, hu, hrest⟩ := Option.bind_eq_some_iff.mp h
      rw [hu, Option.bind_eq_bind, Option.bind_some]
      split_ifs at hrest ⊢
      · exact hrest
      · exact ih u s' hrest

/-- The compare-exchange succeeds when nobody else is there. -/
theorem cancelLoop_cas (dcheck : Bool) {s : System Thread} {t : Thread} {state : TaskState}
    (hpc : s.pc t = .cancelCas state) (hstate : s.task.taskState = state) (fuel : Nat) :
    ∃ s', cancelLoop dcheck t (fuel + 1) s = some s' ∧ s'.task.taskState = .kCanceled := by
  have hstep : stepThread s t = some
      ({ s with task := { s.task with taskState := .kCanceled } }.goto t .waitLoadRunner) := by
    simp only [stepThread, hpc, hstate, if_true]
  have hcheck : ¬(dcheck = true ∧ s.pc t = .cancelLoad ∧ s.task.taskState = .kCanceled) := by
    rw [hpc]
    rintro ⟨-, heq, -⟩
    cases heq
  have hrun := cancelLoop_step fuel hcheck hstep
  rw [goto_pc_self, if_pos rfl] at hrun
  exact ⟨_, hrun, rfl⟩

/-- From any other state two rounds are enough. -/
theorem cancelTask_total (dcheck : Bool) (t : Thread) {s : System Thread}
    (hstate : s.task.taskState ≠ .kCanceled) (fuel : Nat) :
    ∃ s', cancelTask dcheck t (fuel + 2) s = some s' ∧
      s'.task.taskState = afterCancel s.task.taskState := by
  generalize hload : s.goto t .cancelLoad = s1
  have hpc : s1.pc t = .cancelLoad := hload ▸ goto_pc_self _ _ _
  have htask : s1.task = s.task := hload ▸ rfl
  have hcheck : ¬(dcheck = true ∧ s1.pc t = .cancelLoad ∧ s1.task.taskState = .kCanceled) :=
    fun h => hstate (htask ▸ h.2.2)
  -- a load of `kPending` or `kRunning` goes on to the compare-exchange
  have hcas : ∀ state, s1.task.taskState = state →
      stepThread s1 t = some (s1.goto t (.cancelCas state)) →
      ∃ s', cancelLoop dcheck t (fuel + 2) s1 = some s' ∧ s'.task.taskState = .kCanceled := by
    intro state hs hstep
    rw [cancelLoop_step (fuel + 1) hcheck hstep, goto_pc_self, if_neg (by simp)]
    have hpc' : (s1.goto t (.cancelCas state)).pc t = .cancelCas state := goto_pc_self _ _ _
    exact cancelLoop_cas dcheck hpc' hs fuel
  rw [cancelTask, hload]
  cases hs : s.task.taskState with
  | kPending =>
      have hs1 : s1.task.taskState = .kPending := htask ▸ hs
      exact hcas .kPending hs1 (by simp only [stepThread, hpc, hs1])
  | kRunning =>
      have hs1 : s1.task.taskState = .kRunning := htask ▸ hs
      exact hcas .kRunning hs1 (by simp only [stepThread, hpc, hs1])
  | kCanceled => exact absurd hs hstate
  | kCompleted =>
      have hs1 : s1.task.taskState = .kCompleted := htask ▸ hs
      have hstep : stepThread s1 t = some (s1.goto t .waitLoadRunner) := by
        simp only [stepThread, hpc, hs1]
      have hrun := cancelLoop_step (fuel + 1) hcheck hstep
      rw [goto_pc_self, if_pos rfl] at hrun
      exact ⟨_, hrun, hs1⟩

/-- A call that returns found the task not cancelled. -/
theorem cancelTask_of_some {dcheck : Bool} {t : Thread} {fuel : Nat} {s s' : System Thread}
    (h : cancelTask dcheck t fuel s = some s') :
    s.task.taskState ≠ .kCanceled ∧ s'.task.taskState = afterCancel s.task.taskState := by
  have hstate : s.task.taskState ≠ .kCanceled := by
    intro hstate
    rw [cancelTask, cancelLoop_canceled dcheck fuel _ (goto_pc_self _ _ _) hstate] at h
    cases h
  obtain ⟨s2, hrun, hs2⟩ := cancelTask_total dcheck t hstate fuel
  have hmore := cancelLoop_mono dcheck _ _ _ (cancelLoop_mono dcheck _ _ _ h)
  have heq : s2 = s' := Option.some.inj (hrun.symm.trans hmore)
  exact ⟨hstate, heq ▸ hs2⟩

/-- A call of `CancelTask` returns exactly when the task is not cancelled yet. -/
theorem cancelTask_returns_iff (dcheck : Bool) (t : Thread) (s : System Thread) :
    (∃ fuel s', cancelTask dcheck t fuel s = some s') ↔ s.task.taskState ≠ .kCanceled := by
  constructor
  · rintro ⟨fuel, s', h⟩
    exact (cancelTask_of_some h).1
  · intro hstate
    obtain ⟨s', h, -⟩ := cancelTask_total dcheck t hstate 0
    exact ⟨2, s', h⟩

/-- Two calls in a row return, the second without effect, exactly when the task is completed. -/
theorem cancelTask_twice_iff (dcheck : Bool) (t : Thread) (s : System Thread) :
    (∃ fuel s' s'', cancelTask dcheck t fuel s = some s' ∧ cancelTask dcheck t fuel s' = some s'' ∧
      s''.task.taskState = s'.task.taskState) ↔ s.task.taskState = .kCompleted := by
  constructor
  · rintro ⟨fuel, s', s'', hfirst, hsecond, -⟩
    obtain ⟨hstate, hs'⟩ := cancelTask_of_some hfirst
    have hnot := (cancelTask_of_some hsecond).1
    rw [hs'] at hnot
    cases hs : s.task.taskState with
    | kPending => exact absurd (by rw [hs]; rfl) hnot
    | kRunning => exact absurd (by rw [hs]; rfl) hnot
    | kCanceled => exact absurd hs hstate
    | kCompleted => rfl
  · intro hs
    obtain ⟨s', hfirst, hs'⟩ := cancelTask_total dcheck t (s := s) (by simp [hs]) 0
    rw [hs] at hs'
    have hs1 : s'.task.taskState = .kCompleted := hs'
    obtain ⟨s'', hsecond, hs''⟩ := cancelTask_total dcheck t (s := s') (by simp [hs1]) 0
    rw [hs1] at hs''
    exact ⟨2, s', s'', hfirst, hsecond, hs''.trans hs1.symm⟩

end Task

namespace TaskPool

open Iomgr.Task (History HistoryAction historyStep historyStep_effect cancelTask)

/-- Every task that was made, with its threads; the queue, by the tasks' numbers. -/
structure Pool (Thread : Type) where
  objects : List (History Thread)
  tasks : List Nat
  stopTriggered : Bool

/-- A post; a worker that takes the next task and calls `Run`; a step of a thread on a task, in `Run`
or through a handle; the section of the destructor under the mutex, with the number of workers. -/
inductive Action (Thread : Type)
  | postTask (functor : Bool)
  | runTasks (worker : Thread)
  | task (id : Nat) (a : HistoryAction Thread)
  | stop (workers : Nat)
  deriving DecidableEq, Repr

variable {Thread : Type}

def Pool.new : Pool Thread := ⟨[], [], false⟩

def Pool.push (p : Pool Thread) (functor : Bool) : Pool Thread :=
  { p with objects := p.objects ++ [History.new functor], tasks := p.tasks ++ [p.objects.length] }

/-- The empty tasks that the destructor pushes. -/
def Pool.pushEmpty : Nat → Pool Thread → Pool Thread
  | 0, p => p
  | n + 1, p => pushEmpty n (p.push false)

section Step

variable [DecidableEq Thread]

/-- A step on one task. -/
def Pool.stepTask (p : Pool Thread) (id : Nat) (a : HistoryAction Thread) : Option (Pool Thread) := do
  let h ← p.objects[id]?
  let h ← historyStep h a
  some { p with objects := p.objects.set id h }

def step (p : Pool Thread) : Action Thread → Option (Pool Thread)
  | .postTask functor => some (if p.stopTriggered then p else p.push functor)
  | .runTasks worker =>
      if p.stopTriggered then none
      else
        match p.tasks with
        | [] => none
        | id :: tasks => { p with tasks := tasks }.stepTask id (.task (.call worker .run))
  | .task id a =>
      match a with
      | .task (.call _ .run) => none
      | a => p.stepTask id a
  | .stop workers => some (Pool.pushEmpty workers { p with stopTriggered := true })

/-- The loop at the end of the destructor, when each call of `CancelTask` returns within `fuel`
steps. -/
def drain (dcheck : Bool) (d : Thread) (fuel : Nat) :
    List (History Thread) → List Nat → Option (List (History Thread))
  | objects, [] => some objects
  | objects, id :: tasks => do
      let h ← objects[id]?
      let s ← cancelTask dcheck d fuel h.system
      drain dcheck d fuel (objects.set id { h with system := s }) tasks

end Step

/-- A task that no worker has taken: nobody is in `Run`, and it is pending unless it was cancelled
through its handle. -/
structure Waiting (h : History Thread) : Prop where
  outside : ∀ t, (h.pc t).inRun = false ∧ h.pc t ≠ .runCas
  state : h.state = .kPending ∧ h.cancelledPending = false ∨
    h.state = .kCanceled ∧ h.cancelledPending = true

/-- What is queued waits, each task once. -/
structure Queued (p : Pool Thread) : Prop where
  nodup : p.tasks.Nodup
  waiting : ∀ id ∈ p.tasks, ∃ h, p.objects[id]? = some h ∧ Waiting h

theorem new_waiting (functor : Bool) : Waiting (History.new functor : History Thread) :=
  ⟨fun _ => ⟨rfl, nofun⟩, Or.inl ⟨rfl, rfl⟩⟩

theorem new_queued : Queued (Pool.new : Pool Thread) :=
  ⟨List.nodup_nil, fun _ hid => absurd hid List.not_mem_nil⟩

theorem Queued.push {p : Pool Thread} (h : Queued p) (functor : Bool) : Queued (p.push functor) := by
  have hlt : ∀ id ∈ p.tasks, id < p.objects.length := by
    intro id hid
    obtain ⟨object, hobject, -⟩ := h.waiting id hid
    exact (List.getElem?_eq_some_iff.mp hobject).1
  refine ⟨?_, fun id hid => ?_⟩
  · refine h.nodup.append (List.nodup_singleton _) fun id hid hnew => ?_
    have := hlt id hid
    rw [List.mem_singleton.mp hnew] at this
    exact Nat.lt_irrefl _ this
  · rcases List.mem_append.mp hid with hold | hnew
    · obtain ⟨object, hobject, hwaiting⟩ := h.waiting id hold
      refine ⟨object, ?_, hwaiting⟩
      rw [Pool.push, List.getElem?_append_left (hlt id hold), hobject]
    · obtain rfl := List.mem_singleton.mp hnew
      refine ⟨History.new functor, ?_, new_waiting functor⟩
      simp [Pool.push]

theorem Queued.pushEmpty (n : Nat) : ∀ {p : Pool Thread}, Queued p → Queued (p.pushEmpty n) := by
  induction n with
  | zero => exact fun h => h
  | succ n ih => exact fun h => ih (h.push false)

/-- The flag of the destructor is not looked at here. -/
theorem Queued.stop {p : Pool Thread} (h : Queued p) : Queued { p with stopTriggered := true } :=
  ⟨h.nodup, h.waiting⟩

/-- The tasks behind the first one are as they were when its turn is over. -/
theorem getElem?_set_of_notMem (objects : List (History Thread)) {tasks : List Nat} {id k : Nat}
    (hnot : id ∉ tasks) (hk : k ∈ tasks) (h : History Thread) :
    (objects.set id h)[k]? = objects[k]? := by
  apply List.getElem?_set_ne
  rintro rfl
  exact hnot hk

variable [DecidableEq Thread]

/-- Only a call of `Run` ends the waiting. -/
theorem Waiting.step {h h' : History Thread} {a : HistoryAction Thread} (hw : Waiting h)
    (hcall : ∀ t, a ≠ .task (.call t .run)) (hstep : historyStep h a = some h') : Waiting h' := by
  obtain ⟨t, heffect, hother, -, hcancelled, hruns⟩ := historyStep_effect hstep
  have houtside : (h'.pc t).inRun = false → ∀ u, (h'.pc u).inRun = false ∧ h'.pc u ≠ .runCas := by
    intro hout u
    by_cases hut : u = t
    · subst hut
      exact ⟨hout, fun hpc => hcall u (hruns hpc)⟩
    · rw [hother u hut]
      exact hw.outside u
  cases heffect with
  | start hpc hstate hstate' hpc' => exact absurd hpc (hw.outside t).2
  | run hpc hstate hentry hne =>
      have hout : (h.system.pc t).inRun = false := (hw.outside t).1
      rw [hpc] at hout
      cases hout
  | cancel state hpc hstate hstate' hpc' =>
      refine ⟨houtside ?_, Or.inr ⟨hstate', ?_⟩⟩
      · rw [History.pc, hpc']
        rfl
      · rw [hcancelled]
        rcases hw.state with ⟨hpending, -⟩ | ⟨-, hcan⟩
        · have hsame : state = .kPending := hstate.symm.trans hpending
          exact Or.inr ⟨hsame ▸ hpc, hpending⟩
        · exact Or.inl hcan
  | outside hpc hcas hstate hpc' hidle =>
      refine ⟨houtside hpc', ?_⟩
      have hsame : h'.state = h.state := hstate
      have hcan : h'.cancelledPending = h.cancelledPending := by
        rw [Bool.eq_iff_iff, hcancelled]
        refine or_iff_left fun hand => hcas ?_
        exact hand.1.trans (congrArg Task.Pc.cancelCas hand.2.symm)
      rw [hsame, hcan]
      exact hw.state

/-- A step on a task that is not queued, or one that leaves it waiting. -/
theorem Queued.stepTask {p p' : Pool Thread} (hq : Queued p) {id : Nat} {a : HistoryAction Thread}
    (hkeep : id ∈ p.tasks → ∀ t, a ≠ .task (.call t .run)) (hstep : p.stepTask id a = some p') :
    Queued p' := by
  obtain ⟨h, hh, hrest⟩ := Option.bind_eq_some_iff.mp hstep
  obtain ⟨h', hh', heq⟩ := Option.bind_eq_some_iff.mp hrest
  cases heq
  refine ⟨hq.nodup, fun k hk => ?_⟩
  obtain ⟨object, hobject, hwaiting⟩ := hq.waiting k hk
  by_cases hkid : k = id
  · subst hkid
    rw [hh] at hobject
    cases hobject
    refine ⟨h', ?_, hwaiting.step (hkeep hk) hh'⟩
    rw [List.getElem?_set_self (List.getElem?_eq_some_iff.mp hh).1]
  · refine ⟨object, ?_, hwaiting⟩
    rw [List.getElem?_set_ne (Ne.symm hkid), hobject]

theorem step_queued (p : Pool Thread) (a : Action Thread) (p' : Pool Thread) (hq : Queued p)
    (hstep : step p a = some p') : Queued p' := by
  cases a with
  | postTask functor =>
      simp only [step, Option.some.injEq] at hstep
      subst hstep
      split_ifs
      · exact hq
      · exact hq.push functor
  | runTasks worker =>
      simp only [step] at hstep
      split_ifs at hstep
      split at hstep
      · cases hstep
      · next id tasks htasks =>
          have hnodup := hq.nodup
          rw [htasks, List.nodup_cons] at hnodup
          have hrest : Queued { p with tasks := tasks } :=
            ⟨hnodup.2, fun k hk => hq.waiting k (htasks ▸ List.mem_cons_of_mem id hk)⟩
          exact hrest.stepTask (fun hin => absurd hin hnodup.1) hstep
  | task id a =>
      simp only [step] at hstep
      split at hstep
      · cases hstep
      · next hcall => exact hq.stepTask (fun _ t heq => hcall t heq) hstep
  | stop workers =>
      simp only [step, Option.some.injEq] at hstep
      subst hstep
      exact hq.stop.pushEmpty workers

theorem drain_of_some {dcheck : Bool} {d : Thread} {fuel : Nat} {tasks : List Nat} :
    ∀ {objects r : List (History Thread)}, tasks.Nodup →
      drain dcheck d fuel objects tasks = some r →
      ∀ id ∈ tasks, ∀ h, objects[id]? = some h → h.state ≠ .kCanceled := by
  induction tasks with
  | nil => exact fun _ _ _ hid => absurd hid List.not_mem_nil
  | cons id tasks ih =>
      intro objects r hnodup hrun k hk h hh
      obtain ⟨hnot, hrest⟩ := List.nodup_cons.mp hnodup
      obtain ⟨first, hfirst, hrun⟩ := Option.bind_eq_some_iff.mp hrun
      obtain ⟨s, hs, hrun⟩ := Option.bind_eq_some_iff.mp hrun
      rcases List.mem_cons.mp hk with rfl | hk
      · rw [hfirst] at hh
        cases hh
        exact (Task.cancelTask_of_some hs).1
      · refine ih hrest hrun k hk h ?_
        rw [getElem?_set_of_notMem objects hnot hk, hh]

theorem drain_total (dcheck : Bool) (d : Thread) {tasks : List Nat} :
    ∀ {objects : List (History Thread)}, tasks.Nodup →
      (∀ id ∈ tasks, ∃ h, objects[id]? = some h ∧ h.state ≠ .kCanceled) →
      ∃ r, drain dcheck d 2 objects tasks = some r := by
  induction tasks with
  | nil => exact fun _ _ => ⟨_, rfl⟩
  | cons id tasks ih =>
      intro objects hnodup hall
      obtain ⟨hnot, hrest⟩ := List.nodup_cons.mp hnodup
      obtain ⟨first, hfirst, hstate⟩ := hall id List.mem_cons_self
      obtain ⟨s, hs, -⟩ := Task.cancelTask_total dcheck d hstate 0
      have hothers : ∀ k ∈ tasks, ∃ h, (objects.set id { first with system := s })[k]? = some h ∧
          h.state ≠ .kCanceled := by
        intro k hk
        rw [getElem?_set_of_notMem objects hnot hk]
        exact hall k (List.mem_cons_of_mem id hk)
      obtain ⟨r, hr⟩ := ih hrest hothers
      refine ⟨r, Option.bind_eq_some_iff.mpr ⟨first, hfirst, ?_⟩⟩
      exact Option.bind_eq_some_iff.mpr ⟨s, hs, hr⟩

/-- The destructor, after any history of posts, dequeues, runs and cancels: its loop ends exactly when
no task left in the queue was cancelled through its handle. -/
theorem Queued.drain_iff {p : Pool Thread} (hq : Queued p) (dcheck : Bool) (d : Thread) :
    (∃ fuel r, drain dcheck d fuel p.objects p.tasks = some r) ↔
      ∀ id ∈ p.tasks, ∀ h, p.objects[id]? = some h → h.cancelledPending = false := by
  constructor
  · rintro ⟨fuel, r, hrun⟩ id hid h hh
    have hstate := drain_of_some hq.nodup hrun id hid h hh
    obtain ⟨object, hobject, hwaiting⟩ := hq.waiting id hid
    rw [hh] at hobject
    cases hobject
    exact (hwaiting.state.resolve_right fun hand => hstate hand.1).2
  · intro hnone
    have hall : ∀ id ∈ p.tasks, ∃ h, p.objects[id]? = some h ∧ h.state ≠ .kCanceled := by
      intro id hid
      obtain ⟨h, hh, hwaiting⟩ := hq.waiting id hid
      refine ⟨h, hh, ?_⟩
      rcases hwaiting.state with ⟨hpending, -⟩ | ⟨-, hcan⟩
      · rw [hpending]
        nofun
      · rw [hnone id hid h hh] at hcan
        cases hcan
    obtain ⟨r, hr⟩ := drain_total dcheck d hq.nodup hall
    exact ⟨2, r, hr⟩

/-- Cancelling. In every state that a task can reach, with no other thread on it: `CancelTask`
returns exactly when the task is not cancelled yet, and two calls in a row return, the second without
effect, exactly when it is completed. After every history of a task runner its destructor ends exactly
when no task left in the queue was cancelled through its handle. -/
theorem cancel_terminates_iff (dcheck : Bool) :
    (∀ functor actions (h : History Thread),
      Transition.run historyStep (History.new functor) actions = some h → ∀ t,
        ((∃ fuel s, cancelTask dcheck t fuel h.system = some s) ↔ h.state ≠ .kCanceled) ∧
        ((∃ fuel s s', cancelTask dcheck t fuel h.system = some s ∧
          cancelTask dcheck t fuel s = some s' ∧ s'.task.taskState = s.task.taskState) ↔
            h.state = .kCompleted)) ∧
    ∀ actions (p : Pool Thread), Transition.run step Pool.new actions = some p → ∀ d,
      ((∃ fuel r, drain dcheck d fuel p.objects p.tasks = some r) ↔
        ∀ id ∈ p.tasks, ∀ h, p.objects[id]? = some h → h.cancelledPending = false) := by
  refine ⟨fun _ _ h _ t => ⟨?_, ?_⟩, fun actions p hrun d => ?_⟩
  · exact Task.cancelTask_returns_iff dcheck t h.system
  · exact Task.cancelTask_twice_iff dcheck t h.system
  · have hq : Queued p := Transition.run_invariant step_queued new_queued hrun
    exact hq.drain_iff dcheck d

/-- A task that has run to its end, and a destructor with a task in the queue that nobody
cancelled. -/
theorem cancel_terminates_completed :
    (∃ h, Transition.run historyStep (History.new true : History Bool)
        [.task (.call true .run), .task (.step true), .task (.step true), .task (.step true),
          .task (.step true), .task (.step true)] = some h ∧
      ∃ fuel s s', cancelTask true false fuel h.system = some s ∧
        cancelTask true false fuel s = some s' ∧ s'.task.taskState = s.task.taskState) ∧
    ∃ p, Transition.run step (Pool.new : Pool Bool) [.postTask true, .stop 1] = some p ∧
      ∃ fuel r, drain true false fuel p.objects p.tasks = some r := by
  constructor
  · obtain ⟨h, hrun, hstate⟩ : ∃ h, Transition.run historyStep (History.new true : History Bool)
        [.task (.call true .run), .task (.step true), .task (.step true), .task (.step true),
          .task (.step true), .task (.step true)] = some h ∧ h.state = .kCompleted :=
      ⟨_, rfl, by decide⟩
    exact ⟨h, hrun, (((cancel_terminates_iff true).1 true _ h hrun false).2.mpr hstate)⟩
  · obtain ⟨p, hrun, hobjects⟩ : ∃ p, Transition.run step (Pool.new : Pool Bool)
        [.postTask true, .stop 1] = some p ∧ p.objects = [History.new true, History.new false] :=
      ⟨_, rfl, rfl⟩
    refine ⟨p, hrun, ((cancel_terminates_iff true).2 _ p hrun false).mpr fun id _ h hh => ?_⟩
    have hin := List.mem_of_getElem? hh
    rw [hobjects, List.mem_pair] at hin
    rcases hin with rfl | rfl
    · rfl
    · rfl

/-- A task is posted and cancelled through its handle, and the task runner is destroyed: neither the
loop of the destructor nor a second `CancelTask` returns. -/
theorem cancelled_task_blocks_destructor :
    ∃ (p : Pool Bool) (h : History Bool), Transition.run step Pool.new
        [.postTask true, .task 0 (.task (.call false .cancelAndWait)), .task 0 (.task (.step false)),
          .task 0 (.task (.step false)), .task 0 (.leave false), .stop 1] = some p ∧
      p.tasks = [0, 1] ∧ p.objects[0]? = some h ∧ h.state = .kCanceled ∧
      (∀ dcheck t fuel, cancelTask dcheck t fuel h.system = none) ∧
      ∀ dcheck fuel, drain dcheck true fuel p.objects p.tasks = none := by
  obtain ⟨p, h, hrun, htasks, hh, hstate⟩ : ∃ (p : Pool Bool) (h : History Bool),
      Transition.run step Pool.new
        [.postTask true, .task 0 (.task (.call false .cancelAndWait)), .task 0 (.task (.step false)),
          .task 0 (.task (.step false)), .task 0 (.leave false), .stop 1] = some p ∧
      p.tasks = [0, 1] ∧ p.objects[0]? = some h ∧ h.state = .kCanceled := ⟨_, _, rfl, rfl, rfl, rfl⟩
  have hnever : ∀ dcheck t fuel, cancelTask dcheck t fuel h.system = none :=
    fun dcheck t fuel => Task.cancelLoop_canceled dcheck fuel _ (Task.goto_pc_self _ _ _) hstate
  refine ⟨p, h, hrun, htasks, hh, hstate, hnever, fun dcheck fuel => ?_⟩
  rw [htasks, drain, hh, Option.bind_eq_bind, Option.bind_some, hnever]
  rfl

/-! ### The pool of workers -/

section Workers

open TaskRunner (poolStep PoolAction)

variable {Task : Type} [DecidableEq Task] {p p' : TaskRunner.Pool Task} {q : Pool Nat}

/-- The task objects of a pool of workers, numbered in the order in which they were pushed: those in
the queue are as they were made, with code exactly when they were posted. -/
structure Represents (p : TaskRunner.Pool Task) (q : Pool Nat) : Prop where
  stop : q.stopTriggered = p.stopTriggered
  tasks : q.tasks = List.range' p.taken.length p.tasks.length
  size : q.objects.length = p.taken.length + p.tasks.length
  object : ∀ k task, p.tasks[k]? = some task →
    q.objects[p.taken.length + k]? = some (History.new task.isSome)

omit [DecidableEq Task] in
/-- Where the workers are does not matter. -/
theorem Represents.congr (h : Represents p q) (hstop : p'.stopTriggered = p.stopTriggered)
    (htaken : p'.taken = p.taken) (htasks : p'.tasks = p.tasks) : Represents p' q := by
  refine ⟨h.stop.trans hstop.symm, ?_, ?_, ?_⟩
  · rw [htaken, htasks]
    exact h.tasks
  · rw [htaken, htasks]
    exact h.size
  · rw [htaken, htasks]
    exact h.object

omit [DecidableEq Task] in
theorem Represents.push (h : Represents p q) (task : Option Task) :
    Represents { p with tasks := p.tasks ++ [task] } (q.push task.isSome) where
  stop := h.stop
  tasks := by
    rw [Pool.push, h.tasks, h.size, List.length_append, List.length_singleton, List.range'_concat,
      Nat.one_mul]
  size := by
    simp only [Pool.push, List.length_append, List.length_singleton, h.size]
    exact Nat.add_assoc _ _ _
  object k x hk := by
    rw [Pool.push]
    rcases Nat.lt_or_ge k p.tasks.length with hlt | hge
    · rw [List.getElem?_append_left hlt] at hk
      rw [List.getElem?_append_left (h.size ▸ Nat.add_lt_add_left hlt _)]
      exact h.object k x hk
    · rw [List.getElem?_append_right hge] at hk
      have hzero : k - p.tasks.length < 1 := (List.getElem?_eq_some_iff.mp hk).1
      rw [Nat.lt_one_iff.mp hzero] at hk
      cases hk
      have hlast : p.taken.length + k = q.objects.length := by
        have := h.size
        omega
      rw [hlast]
      exact List.getElem?_concat_length

omit [DecidableEq Task] in
theorem Represents.pushEmpty (n : Nat) : ∀ {p : TaskRunner.Pool Task} {q : Pool Nat},
    Represents p q →
      Represents { p with tasks := p.tasks ++ List.replicate n none } (q.pushEmpty n) := by
  induction n with
  | zero =>
      intro p q h
      exact h.congr rfl rfl (List.append_nil _)
  | succ n ih =>
      intro p q h
      have hrest := ih (h.push none)
      exact hrest.congr rfl rfl (by simp [List.replicate_succ])

omit [DecidableEq Task] in
/-- A worker takes the front of the queue and calls `Run` on its object. -/
theorem Represents.take (h : Represents p q) {task : Option Task} {tasks : List (Option Task)}
    (hstop : p.stopTriggered = false) (htasks : p.tasks = task :: tasks) (i : Nat) :
    ∃ q', step q (.runTasks i) = some q' ∧
      Represents { p with tasks := tasks, taken := p.taken ++ [task] } q' := by
  have hobject : q.objects[p.taken.length]? = some (History.new task.isSome) :=
    h.object 0 task (by rw [htasks, List.getElem?_cons_zero])
  have hqueue : q.tasks = p.taken.length :: List.range' (p.taken.length + 1) tasks.length := by
    rw [h.tasks, htasks, List.length_cons, List.range'_succ]
  obtain ⟨h', hcall⟩ : ∃ h', historyStep (History.new task.isSome : History Nat)
      (.task (.call i .run)) = some h' := ⟨_, rfl⟩
  refine ⟨{ q with tasks := List.range' (p.taken.length + 1) tasks.length,
                   objects := q.objects.set p.taken.length h' }, ?_, h.stop, ?_, ?_, ?_⟩
  · simp only [step, h.stop, hstop, Bool.false_eq_true, if_false, hqueue, Pool.stepTask, hobject,
      hcall, Option.bind_eq_bind, Option.bind_some]
  · rw [List.length_append, List.length_singleton]
  · rw [List.length_set, h.size, htasks]
    simp only [List.length_append, List.length_cons, List.length_nil]
    omega
  · intro k x hk
    rw [List.length_append, List.length_singleton, List.getElem?_set_ne (by omega), Nat.add_assoc,
      Nat.add_comm 1 k]
    exact h.object (k + 1) x (by rw [htasks, List.getElem?_cons_succ, hk])

/-- A step of the pool, before the last loop of its destructor, is a history of its task objects. -/
theorem Represents.poolStep (h : Represents p q) {a : PoolAction Task} (ha : a ≠ .cancelFront)
    (hstep : poolStep p a = some p') :
    ∃ as q', Transition.run step q as = some q' ∧ Represents p' q' := by
  cases a with
  | postTask task woken =>
      obtain ⟨hstop, htaken, htasks⟩ := TaskRunner.postTask_queue hstep
      refine ⟨[.postTask true], _, Transition.run_cons.mpr ⟨_, rfl, rfl⟩, ?_⟩
      rw [h.stop]
      split_ifs at htasks ⊢
      · exact h.congr hstop htaken (htasks.trans (List.append_nil _))
      · exact (h.push (some task)).congr hstop htaken htasks
  | spurious i =>
      simp only [TaskRunner.poolStep] at hstep
      split_ifs at hstep
      cases hstep
      exact ⟨[], q, rfl, h.congr rfl rfl rfl⟩
  | check i =>
      simp only [TaskRunner.poolStep] at hstep
      split_ifs at hstep
      cases hstep
      unfold TaskRunner.Pool.check
      split
      · exact ⟨[], q, rfl, h.congr rfl rfl rfl⟩
      · next task tasks htasks =>
          split_ifs with hstop
          · exact ⟨[], q, rfl, h.congr rfl rfl rfl⟩
          · obtain ⟨q', hq', hrep⟩ := h.take (Bool.not_eq_true _ ▸ hstop) htasks i
            exact ⟨[.runTasks i], q', Transition.run_cons.mpr ⟨q', hq', rfl⟩, hrep.congr rfl rfl rfl⟩
  | complete i =>
      simp only [TaskRunner.poolStep] at hstep
      split at hstep
      · cases hstep
        exact ⟨[], q, rfl, h.congr rfl rfl rfl⟩
      · cases hstep
  | stop =>
      simp only [TaskRunner.poolStep] at hstep
      split_ifs at hstep
      cases hstep
      have hstopped : Represents { p with stopTriggered := true }
          { q with stopTriggered := true } := ⟨rfl, h.tasks, h.size, h.object⟩
      exact ⟨[.stop p.workers.length], _, Transition.run_cons.mpr ⟨_, rfl, rfl⟩,
        (hstopped.pushEmpty p.workers.length).congr rfl rfl rfl⟩
  | join =>
      simp only [TaskRunner.poolStep] at hstep
      split_ifs at hstep
      cases hstep
      exact ⟨[], q, rfl, h.congr rfl rfl rfl⟩
  | cancelFront => exact absurd rfl ha

/-- What the workers and the destructor of a pool do, up to its last loop, is a history of its task
objects with the same queue; and where no handle cancelled a task, the last loop ends. -/
theorem pool_run_is_history {n : Nat} {as : List (PoolAction Task)}
    (hrun : Transition.run poolStep (TaskRunner.Pool.start n) as = some p)
    (has : PoolAction.cancelFront ∉ as) :
    ∃ bs q, Transition.run step (Pool.new : Pool Nat) bs = some q ∧ Represents p q ∧
      ∀ dcheck d, ∃ fuel r, drain dcheck d fuel q.objects q.tasks = some r := by
  have hall : ∀ {as : List (PoolAction Task)} {p p' : TaskRunner.Pool Task} {q : Pool Nat},
      PoolAction.cancelFront ∉ as → Represents p q → Transition.run poolStep p as = some p' →
        ∃ bs q', Transition.run step q bs = some q' ∧ Represents p' q' := by
    intro as
    induction as with
    | nil =>
        intro p p' q _ h hrun
        cases hrun
        exact ⟨[], q, rfl, h⟩
    | cons a as ih =>
        intro p p' q hnot h hrun
        obtain ⟨u, hu, hrest⟩ := Transition.run_cons.mp hrun
        rw [List.mem_cons, not_or] at hnot
        obtain ⟨bs, q1, hq1, h1⟩ := h.poolStep (Ne.symm hnot.1) hu
        obtain ⟨cs, q2, hq2, h2⟩ := ih hnot.2 h1 hrest
        exact ⟨bs ++ cs, q2, Transition.run_append.mpr ⟨q1, hq1, hq2⟩, h2⟩
  have hstart : Represents (TaskRunner.Pool.start n : TaskRunner.Pool Task) Pool.new :=
    ⟨rfl, rfl, rfl, fun k task hk => by simp [TaskRunner.Pool.start] at hk⟩
  obtain ⟨bs, q, hq, hrep⟩ := hall has hstart hrun
  refine ⟨bs, q, hq, hrep, fun dcheck d => ?_⟩
  have hqueued : Queued q := Transition.run_invariant step_queued new_queued hq
  refine (hqueued.drain_iff dcheck d).mpr fun id hid h hh => ?_
  rw [hrep.tasks, List.mem_range'_1] at hid
  obtain ⟨k, rfl⟩ := Nat.exists_eq_add_of_le hid.1
  have hk : k < p.tasks.length := Nat.lt_of_add_lt_add_left hid.2
  rw [hrep.object k _ (List.getElem?_eq_getElem hk)] at hh
  cases hh
  rfl

end Workers

end TaskPool

end Iomgr
