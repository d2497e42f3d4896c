import Iomgr.TransitionSystem

/-!
Objects with a reference count and the pointers that hold them. An object is deleted by the `Release`
that takes the last reference. That is the last thing an operation on a pointer does, so that what the
destructor of the object does to pointers of its own are operations that follow.
-/

namespace Iomgr

namespace RefCounted

/-- A `RefCounted`, with how often it was deleted and whether a `RefPtr` ever held it. -/
structure Object where
  refCount : Int32
  destroyed : ℕ
  held : Bool
  deriving DecidableEq, Repr

def Object.new : Object := ⟨0, 0, false⟩

def Object.hasOneRef (o : Object) : Bool := o.refCount = 1

/-- `HasAtLeastOneRef`, with what it leaves behind: it looks at the count by adding to it. -/
def Object.hasAtLeastOneRef (o : Object) : Bool × Object :=
  (o.refCount ≥ 1, { o with refCount := o.refCount + 1 })

/-- `AddRef`, which only the constructor of a `RefPtr` calls. -/
def Object.addRef (o : Object) : Object := { o with refCount := o.refCount + 1, held := true }

def Object.release (o : Object) : Object :=
  { o with
    refCount := o.refCount - 1
    destroyed := if o.refCount = 1 then o.destroyed + 1 else o.destroyed }

/-- All objects and all `RefPtr`s by their numbers: `none` for a pointer that has been destroyed,
`some none` for a null pointer. -/
structure Heap where
  objects : List Object
  refPtrs : List (Option (Option ℕ))
  deriving DecidableEq, Repr

namespace Heap

def new : Heap := ⟨[], []⟩

/-- What a `RefPtr` points to. -/
def get (s : Heap) (i : ℕ) : Option (Option ℕ) := s.refPtrs[i]?.join

def isLive (s : Heap) (y : ℕ) : Bool := s.objects[y]?.any (·.destroyed = 0)

def onObject (s : Heap) (p : Option ℕ) (f : Object → Object) : Heap :=
  match p with
  | none => s
  | some y => { s with objects := s.objects.modify y f }

/-! ### The members of `RefPtr`

A pointer that is constructed comes last. The converting constructors have the bodies of the others. -/

def construct (s : Heap) (p : Option ℕ) : Heap :=
  let s := s.onObject p Object.addRef
  { s with refPtrs := s.refPtrs ++ [some p] }

def copyConstruct (s : Heap) (r : ℕ) : Option Heap := (s.get r).map s.construct

def moveConstruct (s : Heap) (r : ℕ) : Option Heap :=
  (s.get r).map fun p => { s with refPtrs := s.refPtrs.set r (some none) ++ [some p] }

def swap (s : Heap) (i j : ℕ) : Option Heap :=
  (s.get i).bind fun p => (s.get j).map fun q =>
    { s with refPtrs := (s.refPtrs.set i (some q)).set j (some p) }

def destroy (s : Heap) (i : ℕ) : Option Heap :=
  (s.get i).map fun p =>
    { s with refPtrs := s.refPtrs.set i none }.onObject p Object.release

/-- The body of `operator=`, whose parameter is a `RefPtr` of its own, and the end of the parameter. -/
def assign (s : Heap) (i r : ℕ) : Option Heap := (s.swap i r).bind (·.destroy r)

/-- An assignment to the `RefPtr` `i`, after the parameter has been constructed. -/
def assignFrom (s : Heap) (i : ℕ) (constructed : Option Heap) : Option Heap :=
  if i < s.refPtrs.length then constructed.bind (·.assign i s.refPtrs.length) else none

end Heap

/-- What a program does with pointers and objects; `reset` is also the assignment of `nullptr`. -/
inductive Action
  | newObject
  | construct (p : Option ℕ)
  | copyConstruct (r : ℕ)
  | moveConstruct (r : ℕ)
  | assignRaw (i : ℕ) (p : Option ℕ)
  | assignCopy (i r : ℕ)
  | assignMove (i r : ℕ)
  | reset (i : ℕ)
  | swap (i j : ℕ)
  | destroy (i : ℕ)
  | hasOneRef (y : ℕ)
  | hasAtLeastOneRef (y : ℕ)
  deriving DecidableEq, Repr

/-- A step. A raw pointer that dangles is not used. -/
def step (s : Heap) : Action → Option Heap
  | .newObject => some { s with objects := s.objects ++ [Object.new] }
  | .construct p => if p.all s.isLive then some (s.construct p) else none
  | .copyConstruct r => s.copyConstruct r
  | .moveConstruct r => s.moveConstruct r
  | .assignRaw i p => if p.all s.isLive then s.assignFrom i (some (s.construct p)) else none
  | .assignCopy i r => s.assignFrom i (s.copyConstruct r)
  | .assignMove i r => s.assignFrom i (s.moveConstruct r)
  | .reset i => s.assignFrom i (some (s.construct none))
  | .swap i j => s.swap i j
  | .destroy i => s.destroy i
  | .hasOneRef y => if s.isLive y then some s else none
  | .hasAtLeastOneRef y =>
      if s.isLive y then some (s.onObject (some y) (·.hasAtLeastOneRef.2)) else none

end RefCounted

end Iomgr
