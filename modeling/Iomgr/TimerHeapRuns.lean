import Iomgr.TimerHeapInvariant
import Mathlib.Data.Finset.Basic

/-!
Whole runs of a timer heap. A log says which timers were added and removed; the heap holds what the
log leaves, in heap order, and every operation a caller may make on it is defined.
-/

namespace Iomgr.TimerHeap

/-- A heap and the timers in memory. -/
structure State where
  heap : TimerHeap
  timers : Timers

/-- `Add` of a timer whose deadline has been set. -/
def State.add (s : State) (t : TimerPtr) (deadline : Time) : Option (Bool × State) := do
  let mem := Function.update s.timers t { s.timers t with deadline := deadline }
  let (first, heap, mem) ← s.heap.add mem t
  some (first, ⟨heap, mem⟩)

def State.remove (s : State) (t : TimerPtr) : Option State := do
  let (heap, mem) ← s.heap.remove s.timers t
  some ⟨heap, mem⟩

def State.pop (s : State) : Option State := do
  let (heap, mem) ← s.heap.pop s.timers
  some ⟨heap, mem⟩

inductive Event
  | added (t : TimerPtr)
  | removed (t : TimerPtr)
  deriving DecidableEq

def Event.apply (stored : Finset TimerPtr) : Event → Finset TimerPtr
  | .added t => insert t stored
  | .removed t => stored.erase t

/-- The timers that were added and not removed. -/
def contents (log : List Event) : Finset TimerPtr := log.foldl Event.apply ∅

/-- The states that operations lead to: a timer is added when it is not in the heap and fewer than
`2 ^ 31` timers are, a timer of the heap is removed, and a heap that is not empty is popped. -/
inductive Reachable : State → List Event → Prop
  | new (mem : Timers) : Reachable ⟨TimerHeap.new, mem⟩ []
  | add {s s' : State} {log : List Event} {t : TimerPtr} {deadline : Time} {first : Bool}
      (hs : Reachable s log) (ht : t ∉ s.heap.timers) (hsize : s.heap.timerCount < 2 ^ 31)
      (hrun : s.add t deadline = some (first, s')) : Reachable s' (log ++ [.added t])
  | remove {s s' : State} {log : List Event} {t : TimerPtr} (hs : Reachable s log)
      (ht : t ∈ s.heap.timers) (hrun : s.remove t = some s') : Reachable s' (log ++ [.removed t])
  | pop {s s' : State} {log : List Event} {t : TimerPtr} (hs : Reachable s log)
      (ht : s.heap.top = some t) (hrun : s.pop = some s') : Reachable s' (log ++ [.removed t])

theorem contents_concat (log : List Event) (e : Event) :
    contents (log ++ [e]) = e.apply (contents log) := by
  rw [contents, List.foldl_append]
  rfl

theorem contains_iff {h : TimerHeap} {t : TimerPtr} : h.contains t = true ↔ t ∈ h.timers := by
  simp [contains]

/-- The order of the heap is what `CheckValid` tests. -/
theorem checkValid_of_ordered {h : TimerHeap} {mem : Timers}
    (hord : BinaryHeap.Ordered (fun x => (mem x).deadline) h.timers) : h.checkValid mem = true := by
  have hchild : ∀ i child, 0 < child → BinaryHeap.parent child = i →
      h.childInOrder mem i child = true := by
    intro i child hpos hparent
    unfold childInOrder
    split
    · next t c ht hc =>
        subst hparent
        rw [Bool.not_eq_true', decide_eq_false_iff_not, gt_iff_lt, not_lt]
        exact hord child t c hpos ht hc
    · rfl
  rw [checkValid, List.all_eq_true]
  intro i _
  rw [Bool.and_eq_true]
  refine ⟨hchild i _ (by omega) ?_, hchild i _ (by omega) ?_⟩
  · unfold BinaryHeap.parent
    omega
  · unfold BinaryHeap.parent
    omega

/-! ### One operation -/

/-- The invariant of a run: a valid heap that holds what the log leaves. -/
structure Holds (s : State) (log : List Event) : Prop where
  valid : Valid s.heap s.timers
  mem_iff : ∀ t, t ∈ s.heap.timers ↔ t ∈ contents log

theorem new_holds (mem : Timers) : Holds ⟨TimerHeap.new, mem⟩ [] :=
  ⟨new_valid mem, fun t => by simp [TimerHeap.new, contents]⟩

theorem Holds.add {s : State} {log : List Event} (h : Holds s log) {t : TimerPtr}
    (ht : t ∉ s.heap.timers) (hsize : s.heap.timerCount < 2 ^ 31) (deadline : Time) :
    ∃ first s', s.add t deadline = some (first, s') ∧ Holds s' (log ++ [.added t]) ∧
      (first = true ↔
        ∀ root, s.heap.top = some root → deadline < (s.timers root).deadline) := by
  generalize hmem : Function.update s.timers t { s.timers t with deadline := deadline } = mem
  have hother : ∀ x ∈ s.heap.timers, mem x = s.timers x := by
    intro x hx
    rw [← hmem, Function.update_of_ne]
    rintro rfl
    exact ht hx
  have hself : (mem t).deadline = deadline := by
    rw [← hmem, Function.update_self]
  have hvalid : Valid s.heap mem := by
    apply h.valid.congr
    intro x hx
    rw [hother x hx]
    exact ⟨rfl, rfl⟩
  obtain ⟨first, heap', mem', hrun, hvalid', hperm, -, -, hfirst⟩ := add_spec hvalid ht hsize
  refine ⟨first, ⟨heap', mem'⟩, ?_, ⟨hvalid', fun x => ?_⟩, hfirst.trans ?_⟩
  · simp only [State.add, hmem, hrun, Option.bind_eq_bind, Option.bind_some]
  · rw [hperm.mem_iff, List.mem_cons, h.mem_iff, contents_concat, Event.apply, Finset.mem_insert]
  · refine forall_congr' fun root => imp_congr_right fun hroot => ?_
    rw [hself, hother root (top_mem hroot)]

theorem Holds.remove {s : State} {log : List Event} (h : Holds s log) {t : TimerPtr}
    (ht : t ∈ s.heap.timers) :
    ∃ s', s.remove t = some s' ∧ Holds s' (log ++ [.removed t]) := by
  obtain ⟨heap', mem', hrun, hvalid, hperm, -⟩ := remove_spec h.valid ht
  refine ⟨⟨heap', mem'⟩, ?_, hvalid, fun x => ?_⟩
  · simp only [State.remove, hrun, Option.bind_eq_bind, Option.bind_some]
  · rw [hperm.mem_iff, h.valid.nodup.mem_erase_iff, h.mem_iff, contents_concat, Event.apply,
      Finset.mem_erase]

theorem Holds.pop {s : State} {log : List Event} (h : Holds s log) {t : TimerPtr}
    (ht : s.heap.top = some t) :
    ∃ s', s.pop = some s' ∧ Holds s' (log ++ [.removed t]) := by
  obtain ⟨s', hrun, hholds⟩ := h.remove (top_mem ht)
  refine ⟨s', ?_, hholds⟩
  rw [← hrun]
  simp only [State.pop, State.remove, pop_eq_remove ht]

theorem Reachable.holds {s : State} {log : List Event} (h : Reachable s log) : Holds s log := by
  induction h with
  | new mem => exact new_holds mem
  | @add s s' log t deadline first _ ht hsize hrun ih =>
      obtain ⟨first', s'', hrun', hholds, -⟩ := ih.add ht hsize deadline
      cases hrun.symm.trans hrun'
      exact hholds
  | remove _ ht hrun ih =>
      obtain ⟨s'', hrun', hholds⟩ := ih.remove ht
      cases hrun.symm.trans hrun'
      exact hholds
  | pop _ ht hrun ih =>
      obtain ⟨s'', hrun', hholds⟩ := ih.pop ht
      cases hrun.symm.trans hrun'
      exact hholds

/-! ### Every run -/

/-- What a caller may rely on in a state with this log. -/
structure Correct (s : State) (log : List Event) : Prop where
  checked : s.heap.checkValid s.timers = true
  indexed : ∀ i t, s.heap.timers[i]? = some t → (s.timers t).heapIndex = i
  nodup : s.heap.timers.Nodup
  stored : s.heap.timers.toFinset = contents log
  contained : ∀ t, s.heap.contains t = true ↔ t ∈ contents log
  top : s.heap.timers ≠ [] → ∃ root, s.heap.top = some root ∧ root ∈ s.heap.timers ∧
    ∀ t ∈ s.heap.timers, (s.timers root).deadline ≤ (s.timers t).deadline
  add : ∀ t deadline, t ∉ s.heap.timers → s.heap.timerCount < 2 ^ 31 →
    ∃ first s', s.add t deadline = some (first, s') ∧
      (first = true ↔ s.heap.timers = [] ∨
        ∃ root, s.heap.top = some root ∧ deadline < (s.timers root).deadline)
  remove : ∀ t ∈ s.heap.timers, ∃ s', s.remove t = some s'
  pop : s.heap.timers ≠ [] → ∃ s', s.pop = some s'

/-- In every run the heap is an addressable priority queue of what was added and not removed. -/
theorem heap_correct {s : State} {log : List Event} (h : Reachable s log) : Correct s log := by
  have hholds := h.holds
  have htop : s.heap.timers ≠ [] → ∃ root, s.heap.top = some root := by
    intro hne
    rw [← Option.ne_none_iff_exists']
    exact mt top_eq_none.mp hne
  refine
    { checked := checkValid_of_ordered hholds.valid.ordered
      indexed := hholds.valid.indexed
      nodup := hholds.valid.nodup
      stored := ?_
      contained := fun t => contains_iff.trans (hholds.mem_iff t)
      top := fun hne => ?_
      add := fun t deadline ht hsize => ?_
      remove := fun t ht => ?_
      pop := fun hne => ?_ }
  · ext t
    rw [List.mem_toFinset]
    exact hholds.mem_iff t
  · obtain ⟨root, hroot⟩ := htop hne
    exact ⟨root, hroot, top_mem hroot, fun t ht => hholds.valid.top_le hroot ht⟩
  · obtain ⟨first, s', hrun, -, hfirst⟩ := hholds.add ht hsize deadline
    refine ⟨first, s', hrun, hfirst.trans ⟨fun hall => ?_, fun hor root hroot => ?_⟩⟩
    · by_cases hnil : s.heap.timers = []
      · exact Or.inl hnil
      · obtain ⟨root, hroot⟩ := htop hnil
        exact Or.inr ⟨root, hroot, hall root hroot⟩
    · rcases hor with hnil | ⟨root', hroot', hlt⟩
      · rw [top_eq_none.mpr hnil] at hroot
        cases hroot
      · rw [hroot'] at hroot
        cases hroot
        exact hlt
  · obtain ⟨s', hrun, -⟩ := hholds.remove ht
    exact ⟨s', hrun⟩
  · obtain ⟨root, hroot⟩ := htop hne
    obtain ⟨s', hrun, -⟩ := hholds.pop hroot
    exact ⟨s', hrun⟩

/-- Two timers with the same deadline and one before them; the second one is removed and the first
one popped. -/
theorem heap_correct_three_timers :
    ∃ s, Reachable s [.added 16, .added 32, .added 48, .removed 32, .removed 48] ∧
      s.heap.timers = [16] ∧ Correct s [.added 16, .added 32, .added 48, .removed 32, .removed 48] := by
  obtain ⟨s1, h1⟩ : ∃ s, State.add ⟨new, fun _ => Timer.new⟩ 16 ⟨7⟩ = some (true, s) := ⟨_, rfl⟩
  obtain ⟨s2, h2⟩ : ∃ s, s1.add 32 ⟨7⟩ = some (false, s) := by
    cases h1
    exact ⟨_, rfl⟩
  obtain ⟨s3, h3⟩ : ∃ s, s2.add 48 ⟨3⟩ = some (true, s) := by
    cases h1
    cases h2
    exact ⟨_, rfl⟩
  obtain ⟨s4, h4⟩ : ∃ s, s3.remove 32 = some s := by
    cases h1
    cases h2
    cases h3
    exact ⟨_, rfl⟩
  obtain ⟨s5, h5⟩ : ∃ s, s4.pop = some s := by
    cases h1
    cases h2
    cases h3
    cases h4
    exact ⟨_, rfl⟩
  have hreach : Reachable s5
      [.added 16, .added 32, .added 48, .removed 32, .removed 48] := by
    refine Reachable.pop (Reachable.remove (Reachable.add (Reachable.add (Reachable.add
      (Reachable.new fun _ => Timer.new) ?_ ?_ h1) ?_ ?_ h2) ?_ ?_ h3) ?_ h4) ?_ h5
    all_goals
      cases h1
      cases h2
      cases h3
      cases h4
      decide
  refine ⟨s5, hreach, ?_, heap_correct hreach⟩
  cases h1
  cases h2
  cases h3
  cases h4
  cases h5
  rfl

end Iomgr.TimerHeap
