import Iomgr.Ownership
import Iomgr.TransitionSystem
import Mathlib.Algebra.Ring.Int.Defs
import Mathlib.Algebra.Ring.Nat
import Mathlib.Data.Int.Order.Basic
import Mathlib.Data.Set.Basic

/-!
The classes of `io_buffer.h` as objects in memory: each has its `data_` and a reference count, some
have a block of their own, and a `DrainableIOBuffer` keeps its base alive. What happens to the blocks
is followed through everything that a program does with references to such buffers.
-/

namespace Iomgr

/-- What a block was allocated by, which is what frees it: `new[]`, a `std::string` or `malloc`. -/
inductive Allocator
  | newArray
  | string
  | malloc
  deriving DecidableEq, Repr

/-- What a pointer points into. A block has its number for good; `foreign` memory is the caller's. -/
inductive Memory
  | null
  | block (m : Nat)
  | foreign
  deriving DecidableEq, Repr

/-- The block that is pointed into. -/
def Memory.number : Memory → Option Nat
  | .block m => some m
  | _ => none

structure Pointer where
  memory : Memory
  offset : Int
  deriving DecidableEq, Repr

/-- The members that the classes add to `data_`: `string_data_`, `base_` and `used_`, and
`real_data_`, `capacity_` and `offset_`. -/
inductive IOBufferClass
  | plain
  | string (text : Nat)
  | drainable (base : Nat) (used : Int)
  | growable (realData : Memory) (capacity offset : Int)
  | wrapped
  deriving DecidableEq, Repr

structure IOBufferObject where
  refCount : Nat
  data : Pointer
  members : IOBufferClass
  deriving DecidableEq, Repr

namespace IOBufferObject

/-- What `base_` holds. -/
def base (o : IOBufferObject) : Option Nat :=
  match o.members with
  | .drainable base _ => some base
  | _ => none

/-- The block that the object frees. -/
def owned (o : IOBufferObject) : Option (Nat × Allocator) :=
  match o.members with
  | .plain => o.data.memory.number.map (·, .newArray)
  | .string text => some (text, .string)
  | .growable realData _ _ => realData.number.map (·, .malloc)
  | .drainable _ _ | .wrapped => none

end IOBufferObject

/-- All buffers, the `RefPtr`s outside of them and all blocks, by their numbers: `none` for a buffer
that was deleted, a `RefPtr` that is null and a block that was freed. A block that nothing refers to
any more is `lost`; a fault is a `free` of what is not there to be freed so, or a `Release` of a
deleted buffer. -/
structure IOBufferHeap where
  buffers : List (Option IOBufferObject)
  refPtrs : List (Option Nat)
  blocks : List (Option Allocator)
  lost : List Nat
  faults : Nat
  deriving DecidableEq, Repr

/-- What `realloc` does: the block stays where it is, it is copied to a new one, or null is
returned. -/
inductive ReallocAnswer
  | inPlace
  | moved
  | null
  deriving DecidableEq, Repr

namespace IOBufferHeap

def new : IOBufferHeap := ⟨[], [], [], [], 0⟩

def buffer (s : IOBufferHeap) (y : Nat) : Option IOBufferObject := s.buffers[y]?.join

def target (s : IOBufferHeap) (i : Nat) : Option Nat := s.refPtrs[i]?.join

/-- The buffer that a `RefPtr` points to, with its number. -/
def deref (s : IOBufferHeap) (i : Nat) : Option (Nat × IOBufferObject) :=
  (s.target i).bind fun y => (s.buffer y).map (y, ·)

def onBuffer (s : IOBufferHeap) (y : Nat) (f : IOBufferObject → IOBufferObject) : IOBufferHeap :=
  { s with buffers := s.buffers.modify y (Option.map f) }

/-- A new block, whose number is the next one. -/
def allocate (s : IOBufferHeap) (a : Allocator) : IOBufferHeap :=
  { s with blocks := s.blocks ++ [some a] }

def free (s : IOBufferHeap) (memory : Memory) (a : Allocator) : IOBufferHeap :=
  match memory with
  | .null => s
  | .block m =>
      if s.blocks[m]? = some (some a) then { s with blocks := s.blocks.set m none }
      else { s with faults := s.faults + 1 }
  | .foreign => { s with faults := s.faults + 1 }

/-! ### References -/

def addRef (s : IOBufferHeap) (y : Nat) : IOBufferHeap :=
  s.onBuffer y fun o => { o with refCount := o.refCount + 1 }

/-- A `RefPtr` that the program keeps. -/
def keep (s : IOBufferHeap) (y : Nat) : IOBufferHeap := { s with refPtrs := s.refPtrs ++ [some y] }

/-- `MakeRefCounted`, with the one reference of its `RefPtr`. -/
def make (s : IOBufferHeap) (o : IOBufferObject) : IOBufferHeap :=
  { s with buffers := s.buffers ++ [some o] }.keep s.buffers.length

/-- What the destructors free: those of the derived classes set `data_` to null, so that
`delete[] data_` frees something for the others only. -/
def destruct (s : IOBufferHeap) (o : IOBufferObject) : IOBufferHeap :=
  match o.members with
  | .plain => s.free o.data.memory .newArray
  | .string text => s.free (.block text) .string
  | .growable realData _ _ => s.free realData .malloc
  | .drainable _ _ | .wrapped => s

/-- `Release`, which deletes the buffer with its last reference, and then the `Release` of its
`base_`. There are at most as many rounds as there are buffers before this one. -/
def releaseRounds : Nat → IOBufferHeap → Nat → IOBufferHeap
  | 0, s, _ => s
  | n + 1, s, y =>
      match s.buffer y with
      | none => { s with faults := s.faults + 1 }
      | some o =>
          if o.refCount = 1 then
            let s := { s with buffers := s.buffers.set y none }.destruct o
            match o.base with
            | some base => releaseRounds n s base
            | none => s
          else s.onBuffer y fun o => { o with refCount := o.refCount - 1 }

def release (s : IOBufferHeap) (y : Nat) : IOBufferHeap := releaseRounds (y + 1) s y

/-! ### The members of the classes -/

/-- `DrainableIOBuffer::SetOffset`. -/
def setOffset (s : IOBufferHeap) (y base : Nat) (bytes : Int) : Option IOBufferHeap :=
  (s.buffer base).map fun b =>
    s.onBuffer y fun o =>
      { o with
        members := .drainable base bytes
        data := ⟨b.data.memory, b.data.offset + bytes⟩ }

/-- `GrowableIOBuffer::set_offset`. -/
def growableOffset (realData : Memory) (capacity offset : Int) (o : IOBufferObject) :
    IOBufferObject :=
  { o with members := .growable realData capacity offset, data := ⟨realData, offset⟩ }

/-- `realloc`. With a capacity of zero it may return null because it has freed the block; else null
says that it has failed, and the block is left alone. -/
def realloc (s : IOBufferHeap) (memory : Memory) (capacity : Int) (answer : ReallocAnswer) :
    Option (Memory × IOBufferHeap) :=
  match answer with
  | .inPlace => if memory = .null then none else some (memory, s)
  | .moved => some (.block s.blocks.length, (s.free memory .malloc).allocate .malloc)
  | .null => some (.null, if capacity = 0 then s.free memory .malloc else s)

/-- What `real_data_.release()` has let go of is lost when `realloc` fails. -/
def lostBlock (memory : Memory) (capacity : Int) (answer : ReallocAnswer) : List Nat :=
  if answer = .null ∧ capacity ≠ 0 then memory.number.toList else []

/-- `GrowableIOBuffer::SetCapacity`. -/
def setCapacity (s : IOBufferHeap) (y : Nat) (realData : Memory) (offset capacity : Int)
    (answer : ReallocAnswer) : Option IOBufferHeap :=
  (s.realloc realData capacity answer).map fun (memory, t) =>
    { t with lost := t.lost ++ lostBlock realData capacity answer }.onBuffer y
      (growableOffset memory capacity (if offset > capacity then capacity else offset))

end IOBufferHeap

namespace IOBufferMemory

open IOBufferHeap

/-- What a program does with buffers, each of which it reaches through a `RefPtr`. -/
inductive Action
  | makeIOBuffer
  | makeSized
  | makeString
  | makeDrainable (base : Nat)
  | makeGrowable
  | makeWrapped
  | copy (i : Nat)
  | destroy (i : Nat)
  | setOffset (i : Nat) (bytes : Int)
  | didConsume (i : Nat) (bytes : Int)
  | setCapacity (i : Nat) (capacity : Int) (answer : ReallocAnswer)
  | setGrowableOffset (i : Nat) (offset : Int)
  deriving DecidableEq, Repr

def step (s : IOBufferHeap) : Action → Option IOBufferHeap
  | .makeIOBuffer => some (s.make ⟨1, ⟨.null, 0⟩, .plain⟩)
  | .makeSized => some ((s.allocate .newArray).make ⟨1, ⟨.block s.blocks.length, 0⟩, .plain⟩)
  | .makeString =>
      some ((s.allocate .string).make ⟨1, ⟨.block s.blocks.length, 0⟩, .string s.blocks.length⟩)
  | .makeDrainable i =>
      (s.deref i).map fun (y, o) => (s.addRef y).make ⟨1, o.data, .drainable y 0⟩
  | .makeGrowable => some (s.make ⟨1, ⟨.null, 0⟩, .growable .null 0 0⟩)
  | .makeWrapped => some (s.make ⟨1, ⟨.foreign, 0⟩, .wrapped⟩)
  | .copy i => (s.target i).map fun y => (s.addRef y).keep y
  | .destroy i =>
      (s.target i).map fun y => { s with refPtrs := s.refPtrs.set i none }.release y
  | .setOffset i bytes =>
      (s.deref i).bind fun (y, o) =>
        match o.members with
        | .drainable base _ => s.setOffset y base bytes
        | _ => none
  | .didConsume i bytes =>
      (s.deref i).bind fun (y, o) =>
        match o.members with
        | .drainable base used => s.setOffset y base (used + bytes)
        | _ => none
  | .setCapacity i capacity answer =>
      (s.deref i).bind fun (y, o) =>
        match o.members with
        | .growable realData _ offset => s.setCapacity y realData offset capacity answer
        | _ => none
  | .setGrowableOffset i offset =>
      (s.deref i).bind fun (y, o) =>
        match o.members with
        | .growable realData capacity _ =>
            some (s.onBuffer y (growableOffset realData capacity offset))
        | _ => none

end IOBufferMemory

end Iomgr
