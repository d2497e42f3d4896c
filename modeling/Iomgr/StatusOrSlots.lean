import Iomgr.Status
import Iomgr.TransitionSystem

/-!
The objects of the class `StatusOr`, each a status and storage for a value that is live or not; the
values themselves play no part. The special members of the class move the status first and then look
at it to decide about the value, so that the two part for some combinations of source and target.
-/

namespace Iomgr.StatusOrSlots

/-- A `StatusOr<T>`. The slot is to be live just when the status is ok. -/
structure Object where
  status : Status
  live : Bool
  deriving DecidableEq, Repr

/-- What must not be done to a slot. -/
inductive Fault
  | readDead
  | destroyDead
  | overwriteLive
  deriving DecidableEq, Repr

/-! ### The members of the class -/

def Object.ok (o : Object) : Bool := o.status.isOk

/-- `MakeValue(&dummy_, rhs.value_)`: a value is constructed in the slot from that of another object,
whatever the slot holds. -/
def Object.makeValue (this rhs : Object) : Object × List Fault :=
  ({ this with live := true },
    (if rhs.live then [] else [.readDead]) ++ (if this.live then [.overwriteLive] else []))

/-- The constructors from a value, and the one without arguments. -/
def ofValue : Object := ⟨.ok, true⟩

/-- The constructors from a status; one that is ok is replaced. -/
def ofStatus (status : Status) : Object :=
  ⟨if status.isOk then .failed ⟨.kUnknown, .text "Unknown status", none⟩ else status, false⟩

def copyConstruct (rhs : Object) : Object × List Fault :=
  let this : Object := ⟨rhs.status, false⟩
  if this.ok then this.makeValue rhs else (this, [])

/-- `operator=(const StatusOr&)` for two objects. -/
def copyAssign (this rhs : Object) : Object × List Fault :=
  let this := { this with status := rhs.status }
  if rhs.ok then this.makeValue rhs else (this, [])

/-- The move constructor, with the new object and what becomes of `rhs`. The status of `rhs` is ok
once it has been moved. -/
def moveConstruct (rhs : Object) : Object × Object × List Fault :=
  let this : Object := ⟨rhs.status, false⟩
  let rhs := { rhs with status := .ok }
  if rhs.ok then
    let (this, faults) := this.makeValue rhs
    (this, rhs, faults)
  else (this, rhs, [])

/-- `operator=(StatusOr&&)` for two objects. The move assignment of `Status` swaps. -/
def moveAssign (this rhs : Object) : Object × Object × List Fault :=
  let newThis := { this with status := rhs.status }
  let rhs := { rhs with status := this.status }
  let (this, faults) := newThis.makeValue rhs
  (this, rhs, faults)

def destroy (this : Object) : List Fault :=
  if this.ok then if this.live then [] else [.destroyDead] else []

/-! ### Any number of objects -/

/-- All objects by their number, `none` for those that have been destroyed, and what was done to
slots that must not be. -/
structure Objects where
  objects : List (Option Object)
  faults : List Fault
  deriving DecidableEq, Repr

def new : Objects := ⟨[], []⟩

def Objects.find (s : Objects) (id : ℕ) : Option Object := s.objects[id]?.join

inductive Action
  | ofValue
  | ofStatus (status : Status)
  | copyConstruct (rhs : ℕ)
  | moveConstruct (rhs : ℕ)
  | copyAssign (this rhs : ℕ)
  | moveAssign (this rhs : ℕ)
  | destroy (this : ℕ)
  deriving DecidableEq, Repr

/-- An operation; one on an object that is not there is not possible. -/
def step (s : Objects) : Action → Option Objects
  | .ofValue => some { s with objects := s.objects ++ [some StatusOrSlots.ofValue] }
  | .ofStatus status =>
      some { s with objects := s.objects ++ [some (StatusOrSlots.ofStatus status)] }
  | .copyConstruct rhs =>
      (s.find rhs).map fun r =>
        let made := StatusOrSlots.copyConstruct r
        ⟨s.objects ++ [some made.1], s.faults ++ made.2⟩
  | .moveConstruct rhs =>
      (s.find rhs).map fun r =>
        let made := StatusOrSlots.moveConstruct r
        ⟨s.objects.set rhs (some made.2.1) ++ [some made.1], s.faults ++ made.2.2⟩
  | .copyAssign this rhs =>
      (s.find this).bind fun o => (s.find rhs).map fun r =>
        if this = rhs then s
        else
          let made := StatusOrSlots.copyAssign o r
          ⟨s.objects.set this (some made.1), s.faults ++ made.2⟩
  | .moveAssign this rhs =>
      (s.find this).bind fun o => (s.find rhs).map fun r =>
        -- the swap of a status with itself
        if this = rhs then s
        else
          let made := StatusOrSlots.moveAssign o r
          ⟨(s.objects.set this (some made.1)).set rhs (some made.2.1), s.faults ++ made.2.2⟩
  | .destroy this =>
      (s.find this).map fun o =>
        ⟨s.objects.set this none, s.faults ++ StatusOrSlots.destroy o⟩

/-! ### One operation -/

/-- The slot is live just when the status is ok. -/
def Object.Matched (o : Object) : Prop := o.live = o.ok

/-- All objects that are there are in step, and nothing has been done to a slot that must not be. -/
structure Good (s : Objects) : Prop where
  matched : ∀ o, some o ∈ s.objects → o.Matched
  clean : s.faults = []

/-- When an operation keeps the slots in step with the statuses: a copy is assigned to itself or to an
object with an error, an object with a value is moved from, a move is assigned to itself. -/
def Keeps (s : Objects) : Action → Prop
  | .moveConstruct rhs => ∀ r ∈ s.find rhs, r.ok = true
  | .copyAssign this rhs => this = rhs ∨ ∀ o ∈ s.find this, o.ok = false
  | .moveAssign this rhs => this = rhs
  | _ => True

/-- An object in step holds a value and is ok, or holds none and is an error. -/
theorem Object.Matched.cases {o : Object} (h : o.Matched) :
    o = ⟨.ok, true⟩ ∨ ∃ failure, o = ⟨.failed failure, false⟩ := by
  obtain ⟨status, live⟩ := o
  cases status with
  | ok =>
      rw [show live = true from h]
      exact Or.inl rfl
  | failed failure =>
      rw [show live = false from h]
      exact Or.inr ⟨failure, rfl⟩

theorem copyConstruct_matched {r : Object} (h : r.Matched) :
    (copyConstruct r).1.Matched ∧ (copyConstruct r).2 = [] := by
  rcases h.cases with rfl | ⟨failure, rfl⟩
  · exact ⟨rfl, rfl⟩
  · exact ⟨rfl, rfl⟩

/-- The value of a target that holds one is neither destroyed before another is put in its place nor
when the target becomes an error. -/
theorem copyAssign_matched_iff {o r : Object} (ho : o.Matched) (hr : r.Matched) :
    ((copyAssign o r).1.Matched ∧ (copyAssign o r).2 = []) ↔ o.ok = false := by
  rcases ho.cases with rfl | ⟨failure, rfl⟩
  · refine iff_of_false (fun h => ?_) (by decide)
    rcases hr.cases with rfl | ⟨failure, rfl⟩
    · exact absurd h.2 (by decide)
    · exact absurd h.1 Bool.true_eq_false.mp
  · refine iff_of_true ?_ rfl
    rcases hr.cases with rfl | ⟨failure, rfl⟩
    · exact ⟨rfl, rfl⟩
    · exact ⟨rfl, rfl⟩

/-- A status that was moved is ok, so that a value is taken out of the slot of an error too. -/
theorem moveConstruct_faults_iff {r : Object} (hr : r.Matched) :
    (moveConstruct r).2.2 = [] ↔ r.ok = true := by
  rcases hr.cases with rfl | ⟨failure, rfl⟩
  · decide
  · exact iff_of_false (List.cons_ne_nil _ _) Bool.false_ne_true

theorem moveConstruct_matched {r : Object} (hr : r.Matched) (hok : r.ok = true) :
    (moveConstruct r).1.Matched ∧ (moveConstruct r).2.1.Matched := by
  rcases hr.cases with rfl | ⟨failure, rfl⟩
  · exact ⟨rfl, rfl⟩
  · exact absurd hok Bool.false_ne_true

/-- No assignment of one object to another by a move is right: it takes a value whatever the two
hold. -/
theorem moveAssign_not_matched {o r : Object} (ho : o.Matched) (hr : r.Matched) :
    ¬((moveAssign o r).2.1.Matched ∧ (moveAssign o r).2.2 = []) := by
  rintro ⟨hmatched, hfaults⟩
  rcases hr.cases with rfl | ⟨failure, rfl⟩
  · rcases ho.cases with rfl | ⟨failure, rfl⟩
    · exact absurd hfaults (by decide)
    · exact absurd hmatched Bool.true_eq_false.mp
  · exact List.cons_ne_nil _ _ hfaults

theorem destroy_of_matched {o : Object} (h : o.Matched) : destroy o = [] := by
  rcases h.cases with rfl | ⟨failure, rfl⟩
  · rfl
  · rfl

/-! ### Every run -/

section

variable {s t : Objects} {id : ℕ} {o : Object}

theorem getElem?_of_find (h : s.find id = some o) : s.objects[id]? = some (some o) :=
  Option.join_eq_some_iff.mp h

theorem Good.of_find (hs : Good s) (h : s.find id = some o) : o.Matched :=
  hs.matched o (List.mem_of_getElem? (getElem?_of_find h))

theorem matched_append {xs : List (Option Object)} (hxs : ∀ o, some o ∈ xs → o.Matched)
    (ho : o.Matched) : ∀ o', some o' ∈ xs ++ [some o] → o'.Matched := by
  intro o' ho'
  rcases List.mem_append.mp ho' with ho' | ho'
  · exact hxs o' ho'
  · cases List.mem_singleton.mp ho'
    exact ho

theorem matched_set {xs : List (Option Object)} (hxs : ∀ o, some o ∈ xs → o.Matched)
    {x : Option Object} (hx : ∀ o ∈ x, o.Matched) (id : ℕ) :
    ∀ o', some o' ∈ xs.set id x → o'.Matched := by
  intro o' ho'
  rcases List.mem_or_eq_of_mem_set ho' with ho' | rfl
  · exact hxs o' ho'
  · exact hx o' rfl

/-- What is in an object's place after the operation is in step. -/
theorem Good.of_set {xs : List (Option Object)} {faults : List Fault} (hid : id < xs.length)
    (h : Good ⟨xs.set id (some o), faults⟩) : o.Matched :=
  h.matched o (List.mem_set hid _)

theorem find_lt (h : s.find id = some o) : id < s.objects.length :=
  (List.getElem?_eq_some_iff.mp (getElem?_of_find h)).1

theorem Good.copyConstruct {r : Object} (hs : Good s) (hr : r.Matched) :
    Good ⟨s.objects ++ [some (copyConstruct r).1], s.faults ++ (copyConstruct r).2⟩ := by
  obtain ⟨hmatched, hfaults⟩ := copyConstruct_matched hr
  exact ⟨matched_append hs.matched hmatched, List.append_eq_nil_iff.mpr ⟨hs.clean, hfaults⟩⟩

theorem Good.moveConstruct_iff {r : Object} (hs : Good s) (hr : r.Matched) (rhs : ℕ) :
    Good ⟨s.objects.set rhs (some (moveConstruct r).2.1) ++ [some (moveConstruct r).1],
      s.faults ++ (moveConstruct r).2.2⟩ ↔ r.ok = true := by
  constructor
  · intro h
    exact (moveConstruct_faults_iff hr).mp (List.append_eq_nil_iff.mp h.clean).2
  · intro hok
    obtain ⟨hthis, hrhs⟩ := moveConstruct_matched hr hok
    refine ⟨matched_append (matched_set hs.matched (fun o ho => ?_) rhs) hthis, ?_⟩
    · cases ho
      exact hrhs
    · apply List.append_eq_nil_iff.mpr
      exact ⟨hs.clean, (moveConstruct_faults_iff hr).mpr hok⟩

theorem Good.copyAssign_iff {r : Object} (hs : Good s) (hid : s.find id = some o) (hr : r.Matched) :
    Good ⟨s.objects.set id (some (copyAssign o r).1), s.faults ++ (copyAssign o r).2⟩ ↔
      o.ok = false := by
  rw [← copyAssign_matched_iff (hs.of_find hid) hr]
  constructor
  · intro h
    exact ⟨h.of_set (find_lt hid), (List.append_eq_nil_iff.mp h.clean).2⟩
  · rintro ⟨hmatched, hfaults⟩
    refine ⟨matched_set hs.matched (fun o ho => ?_) id, ?_⟩
    · cases ho
      exact hmatched
    · exact List.append_eq_nil_iff.mpr ⟨hs.clean, hfaults⟩

theorem Good.not_moveAssign {r : Object} (ho : o.Matched) (hr : r.Matched) {rhs : ℕ}
    (hrhs : s.find rhs = some r) :
    ¬Good ⟨(s.objects.set id (some (moveAssign o r).1)).set rhs (some (moveAssign o r).2.1),
      s.faults ++ (moveAssign o r).2.2⟩ := by
  intro h
  have hlt : rhs < (s.objects.set id (some (moveAssign o r).1)).length := by
    rw [List.length_set]
    exact find_lt hrhs
  exact moveAssign_not_matched ho hr ⟨h.of_set hlt, (List.append_eq_nil_iff.mp h.clean).2⟩

theorem Good.destroy (hs : Good s) (ho : o.Matched) (id : ℕ) :
    Good ⟨s.objects.set id none, s.faults ++ destroy o⟩ := by
  refine ⟨matched_set hs.matched (by simp) id, ?_⟩
  exact List.append_eq_nil_iff.mpr ⟨hs.clean, destroy_of_matched ho⟩

/-- An operation keeps the slots in step with the statuses just when it is one of those that do. -/
theorem good_step_iff {a : Action} (hs : Good s) (hstep : step s a = some t) :
    Good t ↔ Keeps s a := by
  cases a with
  | ofValue =>
      cases hstep
      exact iff_of_true ⟨matched_append hs.matched rfl, hs.clean⟩ trivial
  | ofStatus status =>
      cases hstep
      refine iff_of_true ⟨matched_append hs.matched ?_, hs.clean⟩ trivial
      cases status <;> rfl
  | copyConstruct rhs =>
      obtain ⟨r, hr, rfl⟩ := Option.map_eq_some_iff.mp hstep
      exact iff_of_true (hs.copyConstruct (hs.of_find hr)) trivial
  | moveConstruct rhs =>
      obtain ⟨r, hr, rfl⟩ := Option.map_eq_some_iff.mp hstep
      refine (hs.moveConstruct_iff (hs.of_find hr) rhs).trans ?_
      rw [Keeps, hr]
      exact ⟨fun h r' hr' => Option.some.inj hr' ▸ h, fun h => h r rfl⟩
  | copyAssign this rhs =>
      obtain ⟨o, ho, hbind⟩ := Option.bind_eq_some_iff.mp hstep
      obtain ⟨r, hr, rfl⟩ := Option.map_eq_some_iff.mp hbind
      rw [Keeps, ho]
      split_ifs with hself
      · exact iff_of_true hs (Or.inl hself)
      · refine (hs.copyAssign_iff ho (hs.of_find hr)).trans ?_
        exact ⟨fun h => Or.inr fun o' ho' => Option.some.inj ho' ▸ h,
          fun h => (h.resolve_left hself) o rfl⟩
  | moveAssign this rhs =>
      obtain ⟨o, ho, hbind⟩ := Option.bind_eq_some_iff.mp hstep
      obtain ⟨r, hr, rfl⟩ := Option.map_eq_some_iff.mp hbind
      rw [Keeps]
      split_ifs with hself
      · exact iff_of_true hs hself
      · exact iff_of_false (Good.not_moveAssign (hs.of_find ho) (hs.of_find hr) hr) hself
  | destroy this =>
      obtain ⟨o, ho, rfl⟩ := Option.map_eq_some_iff.mp hstep
      exact iff_of_true (hs.destroy (hs.of_find ho) this) trivial

end

/-- In every run the slots stay in step with the statuses just as long as every operation is one of
those that keep them so. -/
theorem slots_in_step_iff (as : List Action) :
    Transition.Along step Good new as ↔ Transition.Meets step Keeps new as := by
  apply Transition.along_iff_meets
  · intro s a t hs hkeeps hstep
    exact (good_step_iff hs hstep).mpr hkeeps
  · intro s a t hs hkeeps hstep hgood
    exact hkeeps ((good_step_iff hs hstep).mp hgood)
  · exact fun s hs => hs
  · exact ⟨by simp [new], rfl⟩

/-- The move of an error over a value reads the slot of the error, overwrites the value and leaves an
error with a live slot and an ok status without one. -/
theorem slots_out_of_step_moved_error :
    let notFound : Status := .failed ⟨.kNotFound, .text "", none⟩
    let actions : List Action := [.ofStatus notFound, .ofValue, .moveAssign 1 0]
    Transition.run step new actions =
        some ⟨[some ⟨.ok, false⟩, some ⟨notFound, true⟩], [.readDead, .overwriteLive]⟩ ∧
      ¬Transition.Along step Good new actions := by
  intro notFound actions
  have hrun : Transition.run step new actions =
      some ⟨[some ⟨.ok, false⟩, some ⟨notFound, true⟩], [.readDead, .overwriteLive]⟩ := by decide
  refine ⟨hrun, fun h => ?_⟩
  have hlast := (h.2 _ rfl).2 _ rfl |>.2 _ rfl
  exact absurd hlast.good.clean (by decide)

end Iomgr.StatusOrSlots
