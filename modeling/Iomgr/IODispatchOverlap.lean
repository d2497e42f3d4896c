import Iomgr.IODispatch
import Mathlib.Data.Fintype.Basic

/-!
Handlers of one controller. Every event posts a task of its own and any worker may take it, so two
events for one controller can be handled at the same time. The handlers of a controller follow one
another in every run in which a task is only posted for a controller when its earlier tasks are
over.
-/

namespace Iomgr.IODispatch

variable {Worker : Type}

/-- The task a worker has started and not finished. -/
def WorkerPc.task : WorkerPc → Option Nat
  | .started id | .handling id => some id
  | _ => none

/-- No two workers are in `HandleIO` for the same controller. -/
def Serialised (s : System Worker) : Prop :=
  ∀ w w' id id' task task', s.workers w = .handling id → s.workers w' = .handling id' →
    s.tasks[id]? = some task → s.tasks[id']? = some task' → task.controller = task'.controller →
    w = w'

/-- The task will not be, and is not being, handled. -/
def Over (s : System Worker) (id : Nat) : Prop :=
  s.taskState id ≠ .kPending ∧ ∀ w, (s.workers w).task ≠ some id

instance [Fintype Worker] (s : System Worker) (id : Nat) : Decidable (Over s id) :=
  inferInstanceAs (Decidable (_ ∧ ∀ _, _))

/-- The condition on a run: a task is posted only for a controller whose earlier tasks are over. -/
def PostsAlone (s : System Worker) : Action Worker → Prop
  | .dispatch => ∀ c ∈ s.postsFor, ∀ id ∈ s.tasksOf c, Over s id
  | _ => True

instance [Fintype Worker] (s : System Worker) (a : Action Worker) : Decidable (PostsAlone s a) :=
  match a with
  | .dispatch => inferInstanceAs (Decidable (∀ c ∈ s.postsFor, ∀ id ∈ s.tasksOf c, Over s id))
  | .event _ _ | .eventEnd | .watch _ _ _ _ _ _ | .stop _ _ | .stopReturn | .dequeue _ | .start _
  | .enter _ | .finish _ => isTrue trivial

structure OverlapInv (s : System Worker) : Prop where
  queue : ∀ id ∈ s.queue, id < s.tasks.length
  dequeued : ∀ w id, s.workers w = .dequeued id → id < s.tasks.length
  started : ∀ w id, (s.workers w).task = some id →
    id < s.tasks.length ∧ s.taskState id ≠ .kPending
  once : ∀ w w' id, (s.workers w).task = some id → (s.workers w').task = some id → w = w'
  alone : ∀ c, ∀ id ∈ s.tasksOf c, ∀ id' ∈ s.tasksOf c, ¬Over s id → ¬Over s id' → id = id'

theorem new_overlapInv : OverlapInv (System.new : System Worker) where
  queue _ h := absurd h List.not_mem_nil
  dequeued _ _ := nofun
  started _ _ := nofun
  once _ _ _ := nofun
  alone c id hid := by
    obtain ⟨task, hget, -⟩ := mem_tasksOf.mp hid
    simp [System.new] at hget

theorem OverlapInv.serialised {s : System Worker} (h : OverlapInv s) : Serialised s := by
  intro w w' id id' task task' hw hw' hid hid' hsame
  have hnot : ∀ v j, s.workers v = .handling j → ¬Over s j := fun v j hv hover =>
    hover.2 v (by rw [hv]; rfl)
  have heq : id = id' := h.alone task.controller id (mem_tasksOf.mpr ⟨task, hid, rfl⟩) id'
    (mem_tasksOf.mpr ⟨task', hid', hsame.symm⟩) (hnot w id hw) (hnot w' id' hw')
  subst heq
  exact h.once w w' id (by rw [hw]; rfl) (by rw [hw']; rfl)

/-- A step that posts nothing, and after which no task that was over is not. -/
theorem OverlapInv.keep {s s' : System Worker} (h : OverlapInv s) (htasks : s'.tasks = s.tasks)
    (hqueue : ∀ id ∈ s'.queue, id ∈ s.queue)
    (hdequeued : ∀ w id, s'.workers w = .dequeued id → s.workers w = .dequeued id ∨ id ∈ s.queue)
    (hstarted : ∀ w id, (s'.workers w).task = some id →
      id < s.tasks.length ∧ s'.taskState id ≠ .kPending)
    (honce : ∀ w w' id, (s'.workers w).task = some id → (s'.workers w').task = some id → w = w')
    (hover : ∀ id, Over s id → Over s' id) : OverlapInv s' := by
  have hof : ∀ c, s'.tasksOf c = s.tasksOf c := fun c => by rw [System.tasksOf, htasks]; rfl
  refine ⟨fun id hid => ?_, fun w id hw => ?_, fun w id hw => ?_, honce, fun c id hid id' hid' => ?_⟩
  · rw [htasks]
    exact h.queue id (hqueue id hid)
  · rw [htasks]
    exact (hdequeued w id hw).elim (h.dequeued w id) (h.queue id)
  · rw [htasks]
    exact hstarted w id hw
  · rw [hof] at hid hid'
    exact fun hn hn' => h.alone c id hid id' hid' (fun ho => hn (hover id ho))
      fun ho => hn' (hover id' ho)

theorem tasksOf_post {s : System Worker} {c c' : ControllerPtr} {ready : Mode} {id : Nat}
    (h : id ∈ (s.post c ready).tasksOf c') : id ∈ s.tasksOf c' ∨ id = s.tasks.length ∧ c' = c := by
  obtain ⟨task, hget, hc⟩ := mem_tasksOf.mp h
  rcases Nat.lt_or_ge id s.tasks.length with hlt | hge
  · rw [System.post, List.getElem?_append_left hlt] at hget
    exact Or.inl (mem_tasksOf.mpr ⟨task, hget, hc⟩)
  · right
    rw [System.post, List.getElem?_append_right hge] at hget
    rcases hk : id - s.tasks.length with _ | k
    · rw [hk] at hget
      cases hget
      exact ⟨by omega, hc.symm⟩
    · rw [hk] at hget
      cases hget

/-- A task is posted for a controller that has nothing else to handle. -/
theorem OverlapInv.post {s : System Worker} (h : OverlapInv s) {c : ControllerPtr} (ready : Mode)
    (halone : ∀ id ∈ s.tasksOf c, Over s id) : OverlapInv (s.post c ready) := by
  have hlen : (s.post c ready).tasks.length = s.tasks.length + 1 := by simp [System.post]
  have hstate : ∀ id, id < s.tasks.length → (s.post c ready).taskState id = s.taskState id :=
    fun id hlt => Function.update_of_ne (Nat.ne_of_lt hlt) _ _
  have hover : ∀ id, id < s.tasks.length → Over s id → Over (s.post c ready) id :=
    fun id hlt ho => ⟨(hstate id hlt).symm ▸ ho.1, ho.2⟩
  refine ⟨fun id hid => ?_, fun w id hw => ?_, fun w id hw => ?_, h.once,
    fun c' id hid id' hid' hn hn' => ?_⟩
  · rw [hlen]
    rcases List.mem_append.mp hid with hid | hid
    · exact Nat.lt_succ_of_lt (h.queue id hid)
    · rw [List.mem_singleton.mp hid]
      exact Nat.lt_succ_self _
  · rw [hlen]
    exact Nat.lt_succ_of_lt (h.dequeued w id hw)
  · obtain ⟨hlt, hp⟩ := h.started w id hw
    rw [hlen, hstate id hlt]
    exact ⟨Nat.lt_succ_of_lt hlt, hp⟩
  · rcases tasksOf_post hid with hold | ⟨rfl, rfl⟩ <;> rcases tasksOf_post hid' with hold' | ⟨rfl, hc⟩
    · exact h.alone c' id hold id' hold' (fun ho => hn (hover id (lt_of_mem_tasksOf hold) ho))
        fun ho => hn' (hover id' (lt_of_mem_tasksOf hold') ho)
    · subst hc
      exact absurd (hover id (lt_of_mem_tasksOf hold) (halone id hold)) hn
    · exact absurd (hover id' (lt_of_mem_tasksOf hold') (halone id' hold')) hn'
    · rfl

theorem stepManager_overlapInv {s s' : System Worker} {a : Action Worker} (h : OverlapInv s)
    (hcond : PostsAlone s a) (hstep : stepManager s a = some s') : OverlapInv s' := by
  obtain ⟨hworkers, -, hcases⟩ := stepManager_cases hstep
  rcases hcases with ⟨htasks, hqueue, hstate⟩ | ⟨ready, c, rest, rfl, hposts, rfl⟩
  · have hnot : ∀ id, s.taskState id ≠ .kPending → s'.taskState id ≠ .kPending := by
      intro id hp
      rcases hstate id with hsame | hcancel
      · rwa [hsame]
      · rw [hcancel]
        exact nofun
    refine h.keep htasks (fun id hid => hqueue ▸ hid) (fun w id hw => Or.inl (hworkers ▸ hw))
      (fun w id hw => ?_) (fun w w' id => by rw [hworkers]; exact h.once w w' id) fun id ho => ?_
    · rw [hworkers] at hw
      exact ⟨(h.started w id hw).1, hnot id (h.started w id hw).2⟩
    · exact ⟨hnot id ho.1, by rw [hworkers]; exact ho.2⟩
  · have hposted := h.post ready (hcond c hposts)
    exact ⟨hposted.queue, hposted.dequeued, hposted.started, hposted.once, hposted.alone⟩

/-- A started task changes its state to another that is not pending. -/
theorem OverlapInv.setState {s : System Worker} (h : OverlapInv s) (id : Nat) (state : TaskState)
    (hstate : state ≠ .kPending) :
    OverlapInv { s with taskState := Function.update s.taskState id state } := by
  have hnot : ∀ id', s.taskState id' ≠ .kPending →
      Function.update s.taskState id state id' ≠ .kPending := by
    intro id' hp
    by_cases hid : id' = id
    · subst hid
      rwa [Function.update_self]
    · rwa [Function.update_of_ne hid]
  exact h.keep rfl (fun _ hid => hid) (fun _ _ hw => Or.inl hw)
    (fun w id' hw => ⟨(h.started w id' hw).1, hnot id' (h.started w id' hw).2⟩) h.once
    fun id' ho => ⟨hnot id' ho.1, ho.2⟩

variable [DecidableEq Worker]

/-- A worker moves to `pc` without starting a task. -/
theorem OverlapInv.goto {s : System Worker} (h : OverlapInv s) (w : Worker) (pc : WorkerPc)
    (htask : ∀ id, pc.task = some id → (s.workers w).task = some id)
    (hdequeued : ∀ id, pc = .dequeued id → id ∈ s.queue) : OverlapInv (s.goto w pc) := by
  have hold : ∀ v id, ((s.goto w pc).workers v).task = some id → (s.workers v).task = some id := by
    intro v id hv
    by_cases hvw : v = w
    · subst hvw
      rw [goto_workers_self] at hv
      exact htask id hv
    · rwa [goto_workers_other s pc hvw] at hv
  refine h.keep rfl (fun id hid => hid) (fun v id hv => ?_) (fun v id hv => h.started v id (hold v id hv))
    (fun v v' id hv hv' => h.once v v' id (hold v id hv) (hold v' id hv'))
    fun id ho => ⟨ho.1, fun v hv => ho.2 v (hold v id hv)⟩
  by_cases hvw : v = w
  · subst hvw
    rw [goto_workers_self] at hv
    exact Or.inr (hdequeued id hv)
  · rw [goto_workers_other s pc hvw] at hv
    exact Or.inl hv

/-- A worker starts a pending task: no other worker has it, and it was not over. -/
theorem OverlapInv.start {s : System Worker} (h : OverlapInv s) {w : Worker} {id : Nat}
    (hw : s.workers w = .dequeued id) (hpending : s.taskState id = .kPending) :
    OverlapInv ({ s with taskState := Function.update s.taskState id .kRunning }.goto w
      (.started id)) := by
  have hnew := h.setState id .kRunning nofun
  have hfree : ∀ v, (s.workers v).task ≠ some id := fun v hv => (h.started v id hv).2 hpending
  refine h.keep rfl (fun _ hid => hid) (fun v id' hv => ?_) (fun v id' hv => ?_)
    (fun v v' id' hv hv' => ?_) fun id' ho => ?_
  · by_cases hvw : v = w
    · subst hvw
      rw [goto_workers_self] at hv
      cases hv
    · rw [goto_workers_other _ _ hvw] at hv
      exact Or.inl hv
  · by_cases hvw : v = w
    · subst hvw
      rw [goto_workers_self] at hv
      cases hv
      exact ⟨h.dequeued v id hw, by simp [System.goto]⟩
    · rw [goto_workers_other _ _ hvw] at hv
      exact hnew.started v id' hv
  · by_cases hvw : v = w <;> by_cases hvw' : v' = w
    · exact hvw.trans hvw'.symm
    · subst hvw
      rw [goto_workers_self] at hv
      cases hv
      rw [goto_workers_other _ _ hvw'] at hv'
      exact absurd hv' (hfree v')
    · subst hvw'
      rw [goto_workers_self] at hv'
      cases hv'
      rw [goto_workers_other _ _ hvw] at hv
      exact absurd hv (hfree v)
    · rw [goto_workers_other _ _ hvw] at hv
      rw [goto_workers_other _ _ hvw'] at hv'
      exact h.once v v' id' hv hv'
  · have hne : id' ≠ id := fun heq => ho.1 (heq ▸ hpending)
    refine ⟨?_, fun v hv => ?_⟩
    · simpa [System.goto, hne] using ho.1
    · by_cases hvw : v = w
      · subst hvw
        rw [goto_workers_self] at hv
        exact hne (Option.some.inj hv).symm
      · rw [goto_workers_other _ _ hvw] at hv
        exact ho.2 v hv

theorem step_overlapInv (s : System Worker) (a : Action Worker) (s' : System Worker)
    (h : OverlapInv s) (hcond : PostsAlone s a) (hstep : step s a = some s') : OverlapInv s' := by
  rcases step_cases hstep with hmanager | ⟨w, id, rest, -, -, hq, rfl⟩ | ⟨w, id, -, hw, hstate, rfl⟩ |
    ⟨w, id, -, -, rfl⟩ | ⟨w, id, -, hw, rfl⟩ | ⟨w, id, -, hw, rfl⟩
  · exact stepManager_overlapInv h hcond hmanager
  · have hin : ∀ id' ∈ rest, id' ∈ s.queue := fun id' hid => hq ▸ List.mem_cons_of_mem id hid
    have hgoto := h.goto w (.dequeued id) nofun fun id' heq => by
      cases heq
      exact hq ▸ List.mem_cons_self
    exact hgoto.keep rfl hin (fun _ _ hv => Or.inl hv) hgoto.started hgoto.once fun _ ho => ho
  · exact h.start hw hstate
  · exact h.goto w .idle nofun nofun
  · have hgoto := h.goto w (.handling id) (fun id' heq => by rw [hw]; exact heq) nofun
    exact ⟨hgoto.queue, hgoto.dequeued, hgoto.started, hgoto.once, hgoto.alone⟩
  · exact (h.setState id .kCompleted nofun).goto w .idle nofun nofun

/-- In every run that posts a task for a controller only when the controller's earlier tasks are
over, no two workers are in `HandleIO` for the same controller at once. -/
theorem handlers_serialised (actions : List (Action Worker))
    (hmeets : Transition.Meets step PostsAlone System.new actions) :
    Transition.Along step Serialised System.new actions :=
  Transition.along_of_meets step_overlapInv (fun _ h => h.serialised) new_overlapInv hmeets

/-- Two events, the second after the handler of the first has returned. -/
theorem handlers_serialised_in_turn :
    Transition.Along step Serialised (System.new : System (Fin 4))
      [.watch true true 5 kWatchRead 0 1, .event 5 kWatchRead, .dispatch, .eventEnd, .dequeue 0,
        .start 0, .enter 0, .finish 0, .event 5 kWatchRead, .dispatch] :=
  handlers_serialised _ (Transition.meets_of_check (by decide))

/-- Two events are posted one after the other and two workers handle them at the same time. -/
theorem handlers_overlap_two_events :
    ∃ s, Transition.run step (System.new : System (Fin 4))
        [.watch true true 5 kWatchRead 0 1, .event 5 kWatchRead, .dispatch, .eventEnd,
          .event 5 kWatchRead, .dispatch, .eventEnd, .dequeue 0, .start 0, .enter 0, .dequeue 1,
          .start 1, .enter 1] = some s ∧
      s.workers 0 = .handling 0 ∧ s.workers 1 = .handling 1 ∧
      s.tasks.map PostedTask.controller = [1, 1] := by
  refine ⟨_, rfl, ?_⟩
  decide

end Iomgr.IODispatch
