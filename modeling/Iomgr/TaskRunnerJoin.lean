import Iomgr.TaskRunner
import Mathlib.Algebra.Order.BigOperators.Group.List
import Mathlib.Algebra.GroupWithZero.Action.Defs
import Mathlib.Algebra.Order.Ring.Nat

/-!
What the task pool does with its tasks over its whole life, and the joins of its destructor. Tasks
leave the queue from its front, into a worker's hands or, at the very end, cancelled by the
destructor. No worker takes a task once the destructor has begun, so the queue stays as it is until
the last loop.
-/

namespace Iomgr.TaskRunner

variable {Task : Type} [DecidableEq Task]

/-- A step of a worker or of the destructor before its last loop. -/
def PoolAction.works : PoolAction Task → Bool
  | .postTask _ _ => false
  | .cancelFront => false
  | _ => true

/-! ### The queue is first in, first out -/

/-- In every state, to the end of the destructor, the tasks taken are the first ones posted, each once
and in their order; behind them come those that the last loop cancelled, and the queue holds the
others. The last loop begins when every worker is joined. -/
theorem taken_prefix_of_posted {n : Nat} {p : Pool Task} {actions : List (PoolAction Task)}
    (h : Transition.run poolStep (Pool.start n) actions = some p) :
    p.taken = (p.posted.take p.taken.length).map some ∧
      p.cancelled ++ p.tasks = (p.posted.drop p.taken.length).map some ++
        (if p.stopTriggered then List.replicate n none else []) ∧
      (p.joined < n → p.cancelled = []) := by
  have hinv : PoolInv n p :=
    Transition.run_invariant poolStep_inv (start_poolInv n) h
  have hle : p.taken.length ≤ (p.posted.map some).length := by
    have hlength := congrArg List.length hinv.order
    have hqueued := hinv.queued
    split_ifs at hlength with hstop
    · have := hqueued hstop
      simp only [List.length_append, List.length_map, List.length_replicate] at this hlength ⊢
      omega
    · simp only [List.length_append, List.length_map, List.length_nil] at hlength ⊢
      omega
  rw [List.map_take, List.map_drop]
  refine ⟨?_, ?_, hinv.uncancelled⟩
  · calc p.taken = (p.taken ++ (p.cancelled ++ p.tasks)).take p.taken.length := List.take_left.symm
      _ = (p.posted.map some).take p.taken.length := by
          rw [hinv.order, List.take_append_of_le_length hle]
  · calc p.cancelled ++ p.tasks = (p.taken ++ (p.cancelled ++ p.tasks)).drop p.taken.length :=
          List.drop_left.symm
      _ = _ := by rw [hinv.order, List.drop_append_of_le_length hle]

/-- Two workers and three tasks, two of them taken; the destructor joins the workers and cancels the
third task and one of the empty ones. -/
theorem taken_prefix_of_posted_two_workers :
    ∃ p : Pool Nat,
      Transition.run poolStep (Pool.start 2)
        [.check 0, .postTask 7 (some 0), .postTask 8 none, .check 1, .check 0, .postTask 9 none, .stop,
          .complete 1, .check 1, .complete 0, .check 0, .join, .join, .cancelFront, .cancelFront] =
          some p ∧
        p.cancelled = [some 9, none] ∧ p.taken = (p.posted.take p.taken.length).map some ∧
          p.cancelled ++ p.tasks = (p.posted.drop p.taken.length).map some ++
            (if p.stopTriggered then List.replicate 2 none else []) := by
  obtain ⟨p, hrun, hcancelled⟩ : ∃ p : Pool Nat,
      Transition.run poolStep (Pool.start 2)
        [.check 0, .postTask 7 (some 0), .postTask 8 none, .check 1, .check 0, .postTask 9 none, .stop,
          .complete 1, .check 1, .complete 0, .check 0, .join, .join, .cancelFront, .cancelFront] =
          some p ∧ p.cancelled = [some 9, none] :=
    ⟨_, rfl, rfl⟩
  obtain ⟨htaken, htasks, -⟩ := taken_prefix_of_posted hrun
  exact ⟨p, hrun, hcancelled, htaken, htasks⟩

/-! ### The joins of the destructor -/

/-- What a worker still has to do before it returns. -/
def remaining : Option (Worker (Option Task)) → Nat
  | none => 0
  | some (.executing _) => 2
  | some _ => 1

/-- What is left until the last worker has been joined. -/
def Pool.work (p : Pool Task) : Nat :=
  (p.workers.map remaining).sum + (p.workers.length - p.joined)

omit [DecidableEq Task] in
theorem sum_remaining_set {l : List (Option (Worker (Option Task)))} {i : Nat}
    {v w : Option (Worker (Option Task))} (h : l[i]? = some v) :
    ((l.set i w).map remaining).sum + remaining v = (l.map remaining).sum + remaining w := by
  induction l generalizing i with
  | nil => cases h
  | cons x l ih =>
      cases i with
      | zero =>
          cases h
          simp only [List.set_cons_zero, List.map_cons, List.sum_cons]
          omega
      | succ i =>
          have hrest := ih h
          simp only [List.set_cons_succ, List.map_cons, List.sum_cons]
          omega

omit [DecidableEq Task] in
/-- A worker that makes a step has one less to do. -/
theorem Pool.work_setWorker {p : Pool Task} {i : Nat} {v w : Option (Worker (Option Task))}
    (h : p.workers[i]? = some v) (hlt : remaining w + 1 = remaining v) :
    (p.setWorker i w).work + 1 = p.work := by
  have hsum := sum_remaining_set (w := w) h
  simp only [Pool.work, Pool.setWorker, List.length_set]
  omega

/-- The pool after the destructor's section under the mutex. -/
structure Stopped (n : Nat) (p : Pool Task) : Prop where
  inv : PoolInv n p
  stopTriggered : p.stopTriggered = true

/-- A worker that tests the queue then finds it not empty, and returns. -/
theorem Stopped.check {n i : Nat} {p : Pool Task} (h : Stopped n p)
    (hi : p.workers[i]? = some (some .awake)) : p.check i = p.setWorker i none := by
  obtain ⟨hlt, -⟩ := List.getElem?_eq_some_iff.mp hi
  have hqueued := h.inv.queued h.stopTriggered
  rw [h.inv.uncancelled_of_worker hi, List.nil_append] at hqueued
  unfold Pool.check
  split
  · next hnil =>
      rw [hnil, List.length_nil, ← h.inv.size] at hqueued
      omega
  · rw [if_pos h.stopTriggered]

/-- Once the destructor has begun every step of a worker and every join lowers the work; only the last
loop touches the queue. -/
theorem poolStep_stopped {n : Nat} {p p' : Pool Task} {a : PoolAction Task} (h : Stopped n p)
    (hstep : poolStep p a = some p') :
    Stopped n p' ∧ p'.work + (if a.works then 1 else 0) = p.work ∧
      p'.tasks = p.tasks.drop (if a = .cancelFront then 1 else 0) ∧
      p'.taken = p.taken ∧ p'.posted = p.posted := by
  have hinv := poolStep_inv p a p' h.inv hstep
  cases a with
  | postTask task woken =>
      simp only [poolStep, Pool.postTask, h.stopTriggered, if_true] at hstep
      cases hstep
      exact ⟨h, rfl, rfl, rfl, rfl⟩
  | spurious i =>
      simp only [poolStep] at hstep
      split_ifs at hstep with hi
      exact absurd (List.mem_of_getElem? hi) (h.inv.awake h.stopTriggered)
  | check i =>
      simp only [poolStep] at hstep
      split_ifs at hstep with hi
      cases hstep
      rw [h.check hi] at hinv ⊢
      exact ⟨⟨hinv, h.stopTriggered⟩, Pool.work_setWorker hi rfl, rfl, rfl, rfl⟩
  | complete i =>
      simp only [poolStep] at hstep
      split at hstep
      · next hi =>
          cases hstep
          exact ⟨⟨hinv, h.stopTriggered⟩, Pool.work_setWorker hi rfl, rfl, rfl, rfl⟩
      · cases hstep
  | stop =>
      simp only [poolStep] at hstep
      rw [if_pos h.stopTriggered] at hstep
      cases hstep
  | join =>
      simp only [poolStep] at hstep
      split_ifs at hstep with hcond
      cases hstep
      obtain ⟨hlt, -⟩ := List.getElem?_eq_some_iff.mp hcond.2
      refine ⟨⟨hinv, h.stopTriggered⟩, ?_, rfl, rfl, rfl⟩
      simp only [Pool.work, PoolAction.works, if_true]
      omega
  | cancelFront =>
      simp only [poolStep] at hstep
      split at hstep
      · cases hstep
      · next htasks =>
          split_ifs at hstep
          cases hstep
          refine ⟨⟨hinv, h.stopTriggered⟩, rfl, ?_, rfl, rfl⟩
          rw [htasks, if_pos rfl, List.drop_one, List.tail_cons]

/-- While a worker is not joined, the next join is possible or the worker it waits for can make a
step. -/
theorem exists_works_of_joined_lt {n : Nat} {p : Pool Task} (h : Stopped n p) (hlt : p.joined < n) :
    ∃ a, a.works = true ∧ (poolStep p a).isSome = true := by
  have hbound : p.joined < p.workers.length := h.inv.size.symm ▸ hlt
  have hget := List.getElem?_eq_getElem hbound
  rcases hworker : p.workers[p.joined] with - | w
  · rw [hworker] at hget
    exact ⟨.join, rfl, by simp [poolStep, h.stopTriggered, hget]⟩
  · rw [hworker] at hget
    cases w with
    | awake => exact ⟨.check p.joined, rfl, by simp [poolStep, hget]⟩
    | asleep => exact absurd (List.mem_of_getElem? hget) (h.inv.awake h.stopTriggered)
    | executing task => exact ⟨.complete p.joined, rfl, by simp [poolStep, hget]⟩

omit [DecidableEq Task] in
theorem workers_of_joined {n : Nat} {p : Pool Task} (h : PoolInv n p) (hjoined : p.joined = n) :
    p.workers = List.replicate n none := by
  apply List.ext_getElem?
  intro i
  rw [List.getElem?_replicate]
  split_ifs with hi
  · exact h.returned i (hjoined ▸ hi)
  · exact List.getElem?_eq_none (h.size.symm ▸ Nat.le_of_not_lt hi)

omit [DecidableEq Task] in
theorem Pool.work_le {n : Nat} {p : Pool Task} (h : PoolInv n p) : p.work ≤ 3 * n := by
  have hsum : (p.workers.map remaining).sum ≤ (p.workers.map remaining).length • 2 := by
    apply List.sum_le_card_nsmul
    intro k hk
    obtain ⟨w, -, rfl⟩ := List.mem_map.mp hk
    rcases w with - | w
    · exact Nat.zero_le 2
    · cases w <;> simp [remaining]
  rw [List.length_map, h.size, smul_eq_mul] at hsum
  unfold Pool.work
  rw [h.size]
  omega

/-- The queue of a stopped pool loses one task for each round of the last loop. -/
theorem run_stopped {n : Nat} {as : List (PoolAction Task)} :
    ∀ {p q : Pool Task}, Stopped n p → Transition.run poolStep p as = some q →
      Stopped n q ∧ q.tasks = p.tasks.drop (as.count .cancelFront) ∧ q.taken = p.taken ∧
        q.posted = p.posted := by
  induction as with
  | nil =>
      intro p q h hrun
      cases hrun
      exact ⟨h, rfl, rfl, rfl⟩
  | cons a as ih =>
      intro p q h hrun
      obtain ⟨u, hu, hrest⟩ := Transition.run_cons.mp hrun
      obtain ⟨hstopped, -, htasks, htaken, hposted⟩ := poolStep_stopped h hu
      obtain ⟨hq, htasks', htaken', hposted'⟩ := ih hstopped hrest
      refine ⟨hq, ?_, htaken'.trans htaken, hposted'.trans hposted⟩
      rw [htasks', htasks, List.drop_drop, List.count_cons, beq_eq_decide, Nat.add_comm]
      simp only [decide_eq_true_eq]

/-- The destructor's joins end: after it has begun, whatever the order of the workers' steps, at most
three of these for each worker are left, no task is taken or posted any more, the queue only loses its
front with each round of the last loop, a step is possible until all workers are joined, and then each
of them has returned. -/
theorem destructor_joins_all {n : Nat} {p q : Pool Task} {before after : List (PoolAction Task)}
    (hp : Transition.run poolStep (Pool.start n) before = some p) (hstop : p.stopTriggered = true)
    (hq : Transition.run poolStep p after = some q) :
    after.countP PoolAction.works ≤ 3 * n ∧
      q.tasks = p.tasks.drop (after.count .cancelFront) ∧ q.taken = p.taken ∧ q.posted = p.posted ∧
      (q.joined < n → ∃ a, a.works = true ∧ (poolStep q a).isSome = true) ∧
      (q.joined = n → q.workers = List.replicate n none) := by
  have hinv : PoolInv n p :=
    Transition.run_invariant poolStep_inv (start_poolInv n) hp
  have hcount : after.countP PoolAction.works + q.work ≤ p.work :=
    @Transition.countP_add_measure_le _ _ poolStep (Stopped n) PoolAction.works Pool.work
      (fun _ _ _ h hstep => (poolStep_stopped h hstep).1)
      (fun _ _ _ h hstep => (poolStep_stopped h hstep).2.1.le) _ _ _ ⟨hinv, hstop⟩ hq
  obtain ⟨hkeep, htasks, htaken, hposted⟩ := run_stopped ⟨hinv, hstop⟩ hq
  exact ⟨(Nat.le_of_add_right_le hcount).trans (Pool.work_le hinv), htasks, htaken, hposted,
    exists_works_of_joined_lt hkeep, workers_of_joined hkeep.inv⟩

/-- One worker that executes a task while the destructor begins. -/
theorem destructor_joins_all_one_worker :
    ∃ p q : Pool Nat,
      Transition.run poolStep (Pool.start 1) [.postTask 7 none, .check 0, .postTask 8 none, .stop] =
          some p ∧
        Transition.run poolStep p [.complete 0, .check 0, .join, .cancelFront] = some q ∧
        ([.complete 0, .check 0, .join, .cancelFront] : List (PoolAction Nat)).countP
          PoolAction.works ≤ 3 * 1 ∧
        q.tasks = p.tasks.drop 1 ∧ q.workers = List.replicate 1 none := by
  obtain ⟨p, hp, hstop, q, hq, hjoined⟩ : ∃ p : Pool Nat,
      Transition.run poolStep (Pool.start 1) [.postTask 7 none, .check 0, .postTask 8 none, .stop] =
          some p ∧
        p.stopTriggered = true ∧
        ∃ q, Transition.run poolStep p [.complete 0, .check 0, .join, .cancelFront] = some q ∧
          q.joined = 1 :=
    ⟨_, rfl, by decide, _, rfl, by decide⟩
  obtain ⟨hcount, htasks, -, -, -, hworkers⟩ := destructor_joins_all hp hstop hq
  exact ⟨p, q, hp, hq, hcount, htasks, hworkers hjoined⟩

end Iomgr.TaskRunner
