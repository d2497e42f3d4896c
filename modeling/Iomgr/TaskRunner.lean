import Iomgr.TransitionSystem
import Mathlib.Data.List.Basic

/-!
The task pool, from its construction to the end of its destructor. The sections under the mutex are
atomic, so that the mutex is free in every state. A post signals the condition variable only when it
finds the queue empty: tasks that are posted before the signalled worker has taken the first one wake
nobody. The destructor takes the mutex once, to set `stop_triggered_`, push one empty task for each
worker and notify all of them; then it joins the workers in their order, and cancels what is left in
the queue.
-/

namespace Iomgr.TaskRunner

/-- A worker in `RunTasks`: on its way to the mutex and the test of the queue, asleep in `Wait` and
not notified, or executing a task. -/
inductive Worker (Task : Type)
  | awake
  | asleep
  | executing (task : Task)
  deriving DecidableEq, Repr

/-- The pool with its history: the tasks that were posted, those that workers took and those that the
destructor's last loop cancelled, the oldest first. A worker is `none` once it has returned from
`RunTasks`, a task `none` when the destructor made it. -/
structure Pool (Task : Type) where
  tasks : List (Option Task)
  workers : List (Option (Worker (Option Task)))
  stopTriggered : Bool
  joined : Nat
  posted : List Task
  taken : List (Option Task)
  cancelled : List (Option Task)
  deriving DecidableEq

/-- A post, with the worker that its signal wakes if there is one; a wake-up without a signal; a
worker that takes the mutex; the end of a task; and of the destructor the section under the mutex, a
join, and a round of the last loop whose `CancelTask` returns. -/
inductive PoolAction (Task : Type)
  | postTask (task : Task) (woken : Option Nat)
  | spurious (i : Nat)
  | check (i : Nat)
  | complete (i : Nat)
  | stop
  | join
  | cancelFront
  deriving DecidableEq

variable {Task : Type}

namespace Pool

def start (n : Nat) : Pool Task := ⟨[], List.replicate n (some .awake), false, 0, [], [], []⟩

variable [DecidableEq Task]

/-- The workers that have been notified or are otherwise about to test the queue. -/
def awake (p : Pool Task) : Nat := p.workers.count (some .awake)

def asleep (p : Pool Task) : Nat := p.workers.count (some .asleep)

def setWorker (p : Pool Task) (i : Nat) (w : Option (Worker (Option Task))) : Pool Task :=
  { p with workers := p.workers.set i w }

/-- `Signal`: one of the workers that wait is woken, if there is one. -/
def signal (p : Pool Task) : Option Nat → Option (Pool Task)
  | some i => if p.workers[i]? = some (some .asleep) then some (p.setWorker i (some .awake)) else none
  | none => if p.asleep = 0 then some p else none

/-- Once the destructor has begun, a post is refused. -/
def postTask (p : Pool Task) (task : Task) (woken : Option Nat) : Option (Pool Task) :=
  let pushed := { p with tasks := p.tasks ++ [some task], posted := p.posted ++ [task] }
  if p.stopTriggered then some p
  else if p.tasks.isEmpty then pushed.signal woken
  else if woken = none then some pushed
  else none

/-- The section of `RunTasks` under the mutex. -/
def check (p : Pool Task) (i : Nat) : Pool Task :=
  match p.tasks with
  | [] => p.setWorker i (some .asleep)
  | task :: tasks =>
      if p.stopTriggered then p.setWorker i none
      else { p with tasks := tasks, taken := p.taken ++ [task] }.setWorker i (some (.executing task))

def wake : Option (Worker (Option Task)) → Option (Worker (Option Task))
  | some .asleep => some .awake
  | w => w

/-- The section of the destructor under the mutex. -/
def stop (p : Pool Task) : Pool Task :=
  { p with
    stopTriggered := true
    tasks := p.tasks ++ List.replicate p.workers.length none
    workers := p.workers.map wake }

end Pool

variable [DecidableEq Task]

def poolStep (p : Pool Task) : PoolAction Task → Option (Pool Task)
  | .postTask task woken => p.postTask task woken
  | .spurious i =>
      if p.workers[i]? = some (some .asleep) then some (p.setWorker i (some .awake)) else none
  | .check i => if p.workers[i]? = some (some .awake) then some (p.check i) else none
  | .complete i =>
      match p.workers[i]? with
      | some (some (.executing _)) => some (p.setWorker i (some .awake))
      | _ => none
  | .stop => if p.stopTriggered then none else some p.stop
  | .join =>
      if p.stopTriggered ∧ p.workers[p.joined]? = some none then some { p with joined := p.joined + 1 }
      else none
  | .cancelFront =>
      match p.tasks with
      | [] => none
      | task :: tasks =>
          if p.stopTriggered ∧ p.joined = p.workers.length then
            some { p with tasks := tasks, cancelled := p.cancelled ++ [task] }
          else none

/-! ### The invariant -/

/-- What holds in every state: the tasks taken, those cancelled at the end and the tasks queued are
the tasks posted, in their order, and behind them the empty ones; workers return once the destructor
has begun, and none of them sleeps then; and the last loop begins when all of them are joined. -/
structure PoolInv (n : Nat) (p : Pool Task) : Prop where
  size : p.workers.length = n
  order : p.taken ++ (p.cancelled ++ p.tasks) =
    p.posted.map some ++ if p.stopTriggered then List.replicate n none else []
  queued : p.stopTriggered = true → n ≤ (p.cancelled ++ p.tasks).length
  awake : p.stopTriggered = true → some .asleep ∉ p.workers
  running : p.stopTriggered = false → none ∉ p.workers ∧ p.joined = 0 ∧ p.cancelled = []
  joined : p.joined ≤ n
  uncancelled : p.joined < n → p.cancelled = []
  returned : ∀ i < p.joined, p.workers[i]? = some none

omit [DecidableEq Task] in
theorem start_poolInv (n : Nat) : PoolInv n (Pool.start n : Pool Task) where
  size := List.length_replicate
  order := rfl
  queued := by simp [Pool.start]
  awake := by simp [Pool.start]
  running _ := ⟨by simp [Pool.start, List.mem_replicate], rfl, rfl⟩
  joined := Nat.zero_le n
  uncancelled _ := rfl
  returned _ hi := absurd hi (Nat.not_lt_zero _)

omit [DecidableEq Task] in
/-- As long as a worker has not returned, nothing is cancelled. -/
theorem PoolInv.uncancelled_of_worker {n : Nat} {p : Pool Task} (h : PoolInv n p) {i : Nat}
    {v : Worker (Option Task)} (hi : p.workers[i]? = some (some v)) : p.cancelled = [] := by
  apply h.uncancelled
  by_contra hjoined
  have hlt := (List.getElem?_eq_some_iff.mp hi).1
  have hreturned := h.returned i (by have := h.size; omega)
  cases hi.symm.trans hreturned

omit [DecidableEq Task] in
/-- A worker that has not returned goes to another state, but neither asleep after the stop nor back
before it. -/
theorem PoolInv.setWorker {n : Nat} {p : Pool Task} (h : PoolInv n p) {i : Nat}
    {v : Worker (Option Task)} (hi : p.workers[i]? = some (some v))
    {w : Option (Worker (Option Task))} (hawake : p.stopTriggered = true → w ≠ some .asleep)
    (hrunning : p.stopTriggered = false → w ≠ none) : PoolInv n (p.setWorker i w) where
  size := (List.length_set).trans h.size
  order := h.order
  queued := h.queued
  awake hstop hin := (List.mem_or_eq_of_mem_set hin).elim (h.awake hstop)
    fun heq => hawake hstop heq.symm
  running hstop := ⟨fun hin => (List.mem_or_eq_of_mem_set hin).elim (h.running hstop).1
    fun heq => hrunning hstop heq.symm, (h.running hstop).2⟩
  joined := h.joined
  uncancelled := h.uncancelled
  returned j hj := by
    have hne : i ≠ j := by
      rintro rfl
      cases hi.symm.trans (h.returned i hj)
    exact (List.getElem?_set_ne hne).trans (h.returned j hj)

omit [DecidableEq Task] in
theorem PoolInv.push {n : Nat} {p : Pool Task} (h : PoolInv n p) (hstop : p.stopTriggered = false)
    (task : Task) :
    PoolInv n { p with tasks := p.tasks ++ [some task], posted := p.posted ++ [task] } where
  size := h.size
  order := by
    have horder := h.order
    rw [hstop, if_neg Bool.false_ne_true, List.append_nil] at horder
    simp [hstop, ← horder]
  queued h' := absurd (h'.symm.trans hstop) (by decide)
  awake := h.awake
  running := h.running
  joined := h.joined
  uncancelled := h.uncancelled
  returned := h.returned

theorem PoolInv.postTask {n : Nat} {p p' : Pool Task} {task : Task} {woken : Option Nat}
    (h : PoolInv n p) (hpost : p.postTask task woken = some p') : PoolInv n p' := by
  unfold Pool.postTask at hpost
  dsimp only at hpost
  split_ifs at hpost with hstop hempty hwoken
  · cases hpost
    exact h
  · have hpush := h.push (Bool.not_eq_true _ ▸ hstop) task
    cases woken with
    | none =>
        simp only [Pool.signal] at hpost
        split_ifs at hpost
        cases hpost
        exact hpush
    | some i =>
        simp only [Pool.signal] at hpost
        split_ifs at hpost with hi
        cases hpost
        exact hpush.setWorker hi (by simp) (by simp)
  · cases hpost
    exact h.push (Bool.not_eq_true _ ▸ hstop) task

omit [DecidableEq Task] in
theorem PoolInv.check {n : Nat} {p : Pool Task} (h : PoolInv n p) {i : Nat}
    (hi : p.workers[i]? = some (some .awake)) : PoolInv n (p.check i) := by
  obtain ⟨hlt, -⟩ := List.getElem?_eq_some_iff.mp hi
  have hnone : p.cancelled = [] := h.uncancelled_of_worker hi
  unfold Pool.check
  split
  · next hnil =>
      -- the queue of a pool with workers is never empty after the stop
      refine h.setWorker hi (fun hstop => absurd (h.queued hstop) ?_) fun _ => Option.some_ne_none _
      rw [hnone, hnil, List.nil_append, List.length_nil, ← h.size]
      omega
  · next task tasks htasks =>
      split_ifs with hstop
      · refine h.setWorker hi (fun _ => (Option.some_ne_none _).symm) fun hrunning => ?_
        rw [hstop] at hrunning
        cases hrunning
      · have hfalse : p.stopTriggered = false := Bool.not_eq_true _ ▸ hstop
        have htaken : PoolInv n { p with tasks := tasks, taken := p.taken ++ [task] } :=
          { size := h.size
            order := by
              rw [← h.order, hnone, htasks]
              simp
            queued := fun h' => absurd (h'.symm.trans hfalse) (by decide)
            awake := h.awake
            running := h.running
            joined := h.joined
            uncancelled := h.uncancelled
            returned := h.returned }
        exact htaken.setWorker hi (by simp) (by simp)

omit [DecidableEq Task] in
theorem mem_map_wake {l : List (Option (Worker (Option Task)))} :
    some .asleep ∉ l.map Pool.wake ∧ (none ∈ l.map Pool.wake → none ∈ l) := by
  simp only [List.mem_map]
  refine ⟨?_, ?_⟩
  · rintro ⟨w, -, hw⟩
    rcases w with - | w
    · cases hw
    · cases w <;> simp [Pool.wake] at hw
  · rintro ⟨w, hin, hw⟩
    rcases w with - | w
    · exact hin
    · cases w <;> simp [Pool.wake] at hw

omit [DecidableEq Task] in
theorem PoolInv.stop {n : Nat} {p : Pool Task} (h : PoolInv n p)
    (hstop : p.stopTriggered = false) : PoolInv n p.stop where
  size := (List.length_map _).trans h.size
  order := by
    have horder := h.order
    rw [hstop, if_neg Bool.false_ne_true, List.append_nil, (h.running hstop).2.2] at horder
    simp [Pool.stop, h.size, (h.running hstop).2.2, ← horder]
  queued _ := by
    simp only [Pool.stop, List.length_append, List.length_replicate, h.size]
    omega
  awake _ := mem_map_wake.1
  running h' := absurd h' (by simp [Pool.stop])
  joined := h.joined
  uncancelled := h.uncancelled
  returned i hi := absurd ((h.running hstop).2.1 ▸ hi) (Nat.not_lt_zero _)

omit [DecidableEq Task] in
theorem PoolInv.join {n : Nat} {p : Pool Task} (h : PoolInv n p) (hstop : p.stopTriggered = true)
    (hnone : p.workers[p.joined]? = some none) : PoolInv n { p with joined := p.joined + 1 } := by
  obtain ⟨hlt, -⟩ := List.getElem?_eq_some_iff.mp hnone
  exact
    { size := h.size
      order := h.order
      queued := h.queued
      awake := h.awake
      running := fun h' => absurd (hstop.symm.trans h') (by decide)
      joined := h.size ▸ hlt
      uncancelled := fun hj => h.uncancelled (Nat.lt_of_succ_lt hj)
      returned := fun i hi => (Nat.lt_succ_iff_lt_or_eq.mp hi).elim (h.returned i)
        fun heq => heq ▸ hnone }

omit [DecidableEq Task] in
/-- A round of the last loop moves the front of the queue behind what was cancelled. -/
theorem PoolInv.cancelFront {n : Nat} {p : Pool Task} (h : PoolInv n p) {task : Option Task}
    {tasks : List (Option Task)} (htasks : p.tasks = task :: tasks) (hstop : p.stopTriggered = true)
    (hjoined : p.joined = p.workers.length) :
    PoolInv n { p with tasks := tasks, cancelled := p.cancelled ++ [task] } where
  size := h.size
  order := by
    rw [← h.order, htasks]
    simp
  queued hstop := by
    have hqueued := h.queued hstop
    rw [htasks] at hqueued
    simpa using hqueued
  awake := h.awake
  running h' := absurd (hstop.symm.trans h') (by decide)
  joined := h.joined
  uncancelled hlt := absurd (hjoined.trans h.size) (Nat.ne_of_lt hlt)
  returned := h.returned

theorem poolStep_inv {n : Nat} (p : Pool Task) (a : PoolAction Task) (p' : Pool Task)
    (h : PoolInv n p) (hstep : poolStep p a = some p') : PoolInv n p' := by
  cases a with
  | postTask task woken => exact h.postTask hstep
  | spurious i =>
      simp only [poolStep] at hstep
      split_ifs at hstep with hi
      cases hstep
      exact h.setWorker hi (by simp) (by simp)
  | check i =>
      simp only [poolStep] at hstep
      split_ifs at hstep with hi
      cases hstep
      exact h.check hi
  | complete i =>
      simp only [poolStep] at hstep
      split at hstep
      · next hi =>
          cases hstep
          exact h.setWorker hi (by simp) (by simp)
      · cases hstep
  | stop =>
      simp only [poolStep] at hstep
      split_ifs at hstep with hstop
      cases hstep
      exact h.stop (Bool.not_eq_true _ ▸ hstop)
  | join =>
      simp only [poolStep] at hstep
      split_ifs at hstep with hcond
      cases hstep
      exact h.join hcond.1 hcond.2
  | cancelFront =>
      simp only [poolStep] at hstep
      split at hstep
      · cases hstep
      · next htasks =>
          split_ifs at hstep with hcond
          cases hstep
          exact h.cancelFront htasks hcond.1 hcond.2

/-! ### Who is woken for a task -/

/-- The workers about to test the queue are as many as the queued tasks, or as all workers that
execute no task. -/
def Served (p : Pool Task) : Prop :=
  min p.tasks.length (p.awake + p.asleep) ≤ p.awake

/-- A post finds the queue empty, nobody asleep, or more workers about to test the queue than tasks
in it. -/
def Reaches (p : Pool Task) : PoolAction Task → Prop
  | .postTask _ _ => p.tasks = [] ∨ p.asleep = 0 ∨ p.tasks.length < p.awake
  | _ => True

instance (p : Pool Task) (a : PoolAction Task) : Decidable (Reaches p a) :=
  match a with
  | .postTask _ _ => inferInstanceAs (Decidable (_ ∨ _ ∨ _))
  | .spurious _ | .check _ | .complete _ | .stop | .join | .cancelFront => isTrue trivial

theorem served_iff {p : Pool Task} : Served p ↔ p.tasks.length ≤ p.awake ∨ p.asleep = 0 := by
  unfold Served
  omega

/-- A worker goes from one state to another. -/
theorem count_set_of_getElem? {l : List (Option (Worker (Option Task)))} {i : Nat}
    {w : Option (Worker (Option Task))} (h : l[i]? = some w) (v x : Option (Worker (Option Task))) :
    (l.set i v).count x + (if w = x then 1 else 0) = l.count x + (if v = x then 1 else 0) := by
  obtain ⟨hi, rfl⟩ := List.getElem?_eq_some_iff.mp h
  have hpos : l[i] = x → 0 < l.count x := by
    rintro rfl
    exact List.count_pos_iff.mpr (List.getElem_mem hi)
  rw [List.count_set hi]
  simp only [beq_iff_eq]
  split_ifs with hold hnew hnew
  all_goals
    try have := hpos hold
    omega

section Moves

variable {p : Pool Task} {i : Nat}

/-- How many workers are awake and asleep after one of them has gone to another state. -/
theorem counts_set {w : Option (Worker (Option Task))} (h : p.workers[i]? = some w)
    (v : Option (Worker (Option Task))) :
    (p.setWorker i v).awake + (if w = some .awake then 1 else 0) =
        p.awake + (if v = some .awake then 1 else 0) ∧
      (p.setWorker i v).asleep + (if w = some .asleep then 1 else 0) =
        p.asleep + (if v = some .asleep then 1 else 0) :=
  ⟨count_set_of_getElem? h v (some .awake), count_set_of_getElem? h v (some .asleep)⟩

theorem counts_wake (h : p.workers[i]? = some (some .asleep)) :
    (p.setWorker i (some .awake)).awake = p.awake + 1 ∧
      (p.setWorker i (some .awake)).asleep + 1 = p.asleep := by
  simpa using counts_set h (some .awake)

theorem counts_execute (h : p.workers[i]? = some (some .awake)) (task : Option Task) :
    (p.setWorker i (some (.executing task))).awake + 1 = p.awake ∧
      (p.setWorker i (some (.executing task))).asleep = p.asleep := by
  simpa using counts_set h (some (.executing task))

theorem counts_complete {task : Option Task} (h : p.workers[i]? = some (some (.executing task))) :
    (p.setWorker i (some .awake)).awake = p.awake + 1 ∧
      (p.setWorker i (some .awake)).asleep = p.asleep := by
  simpa using counts_set h (some .awake)

end Moves

variable {n : Nat} {p p' : Pool Task} {a : PoolAction Task}

theorem served_start (n : Nat) : Served (Pool.start n : Pool Task) :=
  served_iff.mpr (Or.inl (Nat.zero_le _))

/-- After the stop nobody sleeps. -/
theorem PoolInv.served_of_stop (h : PoolInv n p) (hstop : p.stopTriggered = true) : Served p :=
  served_iff.mpr (Or.inr (List.count_eq_zero.mpr (h.awake hstop)))

/-- What a post can do: be refused, wake a worker, find nobody asleep, or find tasks in the queue. -/
theorem postTask_cases {task : Task} {woken : Option Nat} (h : p.postTask task woken = some p') :
    (p.stopTriggered = true ∧ p' = p) ∨
    (p.tasks = [] ∧ p'.tasks = p.tasks ++ [some task] ∧
      ∃ i, p.workers[i]? = some (some .asleep) ∧ p'.workers = p.workers.set i (some .awake)) ∨
    (p.tasks = [] ∧ p.asleep = 0 ∧ p'.tasks = p.tasks ++ [some task] ∧ p'.workers = p.workers) ∨
    (p.tasks ≠ [] ∧ p'.tasks = p.tasks ++ [some task] ∧ p'.workers = p.workers) := by
  unfold Pool.postTask at h
  dsimp only at h
  split_ifs at h with hstop hempty hwoken
  · cases h
    exact Or.inl ⟨hstop, rfl⟩
  · have hnil : p.tasks = [] := List.isEmpty_iff.mp hempty
    cases woken with
    | none =>
        simp only [Pool.signal] at h
        split_ifs at h with hasleep
        cases h
        exact Or.inr (Or.inr (Or.inl ⟨hnil, hasleep, rfl, rfl⟩))
    | some i =>
        simp only [Pool.signal] at h
        split_ifs at h with hasleep
        cases h
        exact Or.inr (Or.inl ⟨hnil, rfl, i, hasleep, rfl⟩)
  · cases h
    exact Or.inr (Or.inr (Or.inr ⟨fun hnil => hempty (List.isEmpty_iff.mpr hnil), rfl, rfl⟩))

/-- What a post does to the queue. -/
theorem postTask_queue {task : Task} {woken : Option Nat} (h : p.postTask task woken = some p') :
    p'.stopTriggered = p.stopTriggered ∧ p'.taken = p.taken ∧
      p'.tasks = p.tasks ++ if p.stopTriggered then [] else [some task] := by
  unfold Pool.postTask at h
  dsimp only at h
  split_ifs at h with hstop hempty hwoken
  · cases h
    exact ⟨rfl, rfl, by rw [if_pos hstop, List.append_nil]⟩
  · rw [if_neg hstop]
    cases woken with
    | none =>
        simp only [Pool.signal] at h
        split_ifs at h
        cases h
        exact ⟨rfl, rfl, rfl⟩
    | some i =>
        simp only [Pool.signal] at h
        split_ifs at h
        cases h
        exact ⟨rfl, rfl, rfl⟩
  · cases h
    exact ⟨rfl, rfl, by rw [if_neg hstop]⟩

theorem served_postTask {task : Task} {woken : Option Nat} (h : Served p)
    (hreaches : Reaches p (.postTask task woken)) (hpost : p.postTask task woken = some p') :
    Served p' := by
  obtain ⟨-, rfl⟩ | ⟨hnil, htasks, i, hi, hworkers⟩ | ⟨-, hasleep, -, hworkers⟩ |
    ⟨hne, htasks, hworkers⟩ := postTask_cases hpost
  · exact h
  · rw [served_iff]
    left
    rw [htasks, hnil, Pool.awake, hworkers]
    exact le_of_le_of_eq (Nat.le_add_left 1 _) (counts_wake hi).1.symm
  · rw [served_iff]
    right
    rw [Pool.asleep, hworkers]
    exact hasleep
  · rw [served_iff]
    rcases hreaches with hnil | hasleep | hlt
    · exact absurd hnil hne
    · right
      rw [Pool.asleep, hworkers]
      exact hasleep
    · left
      rw [htasks, List.length_append, List.length_singleton, Pool.awake, hworkers]
      exact hlt

theorem served_check {i : Nat} (hinv : PoolInv n (p.check i)) (h : Served p)
    (hi : p.workers[i]? = some (some .awake)) : Served (p.check i) := by
  by_cases hstop : (p.check i).stopTriggered = true
  · exact hinv.served_of_stop hstop
  · rw [served_iff] at h ⊢
    unfold Pool.check at hstop ⊢
    split
    · next hnil =>
        left
        change p.tasks.length ≤ _
        rw [hnil]
        exact Nat.zero_le _
    · next task tasks htasks =>
        obtain ⟨hawake, hasleep⟩ := counts_execute hi task
        split_ifs with hstopped
        · simp [htasks, hstopped, Pool.setWorker] at hstop
        · change tasks.length ≤ (p.setWorker i (some (.executing task))).awake ∨
            (p.setWorker i (some (.executing task))).asleep = 0
          rw [htasks, List.length_cons] at h
          omega

theorem served_step (hinv : PoolInv n p) (h : Served p) (hreaches : Reaches p a)
    (hstep : poolStep p a = some p') : Served p' := by
  have hinv' := poolStep_inv p a p' hinv hstep
  cases a with
  | postTask task woken => exact served_postTask h hreaches hstep
  | spurious i =>
      simp only [poolStep] at hstep
      split_ifs at hstep with hi
      cases hstep
      obtain ⟨hawake, hasleep⟩ := counts_wake hi
      rw [served_iff] at h ⊢
      change p.tasks.length ≤ _ ∨ _
      omega
  | check i =>
      simp only [poolStep] at hstep
      split_ifs at hstep with hi
      cases hstep
      exact served_check hinv' h hi
  | complete i =>
      simp only [poolStep] at hstep
      split at hstep
      · next task hi =>
          cases hstep
          obtain ⟨hawake, hasleep⟩ := counts_complete hi
          rw [served_iff] at h ⊢
          change p.tasks.length ≤ _ ∨ _
          omega
      · cases hstep
  | stop =>
      simp only [poolStep] at hstep
      split_ifs at hstep with hstop
      cases hstep
      exact hinv'.served_of_stop rfl
  | join =>
      simp only [poolStep] at hstep
      split_ifs at hstep with hcond
      cases hstep
      exact hinv'.served_of_stop hcond.1
  | cancelFront =>
      simp only [poolStep] at hstep
      split at hstep
      · cases hstep
      · split_ifs at hstep with hcond
        cases hstep
        exact hinv'.served_of_stop hcond.1

/-- A post that finds tasks in the queue wakes nobody for its own. -/
theorem not_served_step (hinv : PoolInv n p) (hreaches : ¬Reaches p a)
    (hstep : poolStep p a = some p') : ¬Served p' := by
  cases a with
  | postTask task woken =>
      simp only [Reaches, not_or, Nat.not_lt] at hreaches
      obtain ⟨hne, hasleep, hle⟩ := hreaches
      obtain ⟨hstop, -⟩ | ⟨hnil, -⟩ | ⟨hnil, -⟩ | ⟨-, htasks, hworkers⟩ := postTask_cases hstep
      · exact absurd (List.count_eq_zero.mpr (hinv.awake hstop)) hasleep
      · exact absurd hnil hne
      · exact absurd hnil hne
      · rw [served_iff, htasks, List.length_append, List.length_singleton, Pool.awake, Pool.asleep,
          hworkers]
        rintro (hqueued | hzero)
        · exact absurd (Nat.lt_of_succ_le hqueued) (Nat.not_lt.mpr hle)
        · exact hasleep hzero
  | spurious i => exact absurd trivial hreaches
  | check i => exact absurd trivial hreaches
  | complete i => exact absurd trivial hreaches
  | stop => exact absurd trivial hreaches
  | join => exact absurd trivial hreaches
  | cancelFront => exact absurd trivial hreaches

/-- For every number of workers and all orders of posts, wake-ups, dequeues, ends of tasks and steps
of the destructor: as many workers are about to test the queue as there are tasks or workers for it,
if and only if each post finds the queue empty, nobody asleep, or more workers on their way than tasks
in the queue. -/
theorem queue_served_iff (n : Nat) (as : List (PoolAction Task)) :
    Transition.Along poolStep Served (Pool.start n : Pool Task) as ↔
      Transition.Meets poolStep Reaches (Pool.start n : Pool Task) as := by
  have hkeep : ∀ (p : Pool Task) a p', PoolInv n p ∧ Served p → Reaches p a →
      poolStep p a = some p' → PoolInv n p' ∧ Served p' := fun p a p' h ha hstep =>
    ⟨poolStep_inv p a p' h.1 hstep, served_step h.1 h.2 ha hstep⟩
  apply Transition.along_iff_meets hkeep
  · exact fun p a p' h ha hstep => not_served_step h.1 ha hstep
  · exact fun p h => h.2
  · exact ⟨start_poolInv n, served_start n⟩

/-- Two workers sleep and two tasks are posted: the second task stays in the queue behind a worker
that nobody wakes, while the first one is executed. -/
theorem second_task_left_behind :
    ∃ p, Transition.run poolStep (Pool.start 2 : Pool Nat)
        [.check 0, .check 1, .postTask 7 (some 0), .postTask 8 none, .check 0] = some p ∧
      p.tasks = [some 8] ∧ p.workers = [some (.executing (some 7)), some .asleep] ∧
      ¬Served p := by
  refine ⟨_, rfl, rfl, rfl, ?_⟩
  rw [served_iff]
  decide

end Iomgr.TaskRunner
