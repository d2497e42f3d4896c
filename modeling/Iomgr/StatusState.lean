import Iomgr.HTTPRequest
import Iomgr.Ownership
import Iomgr.Refinement
import Iomgr.Status

/-!
The objects of class `Status` and the arrays their `state_` points to. A status that is not ok owns an
array of its own: four bytes with the length of the message, one with the code, and the message. What
a program does to such objects is what it would do to values.
-/

namespace Iomgr

namespace StatusState

inductive Fault
  | notAllocated
  | outOfBounds
  | nullState
  deriving DecidableEq, Repr

/-- Why a computation ends early: it faulted, or what it was told of the allocator cannot be. -/
inductive Stop
  | fault (f : Fault)
  | disabled
  deriving DecidableEq, Repr

/-! ### Memory -/

/-- The arrays that `new[]` made and `delete[]` has not deleted, by their addresses. -/
abbrev Arrays := Nat → Option Bytes

/-- `new char[n]` at the address `p`, with whatever the memory holds. -/
def allocate (arrays : Arrays) (p n : Nat) (garbage : Nat → UInt8) : Except Stop Arrays :=
  if (arrays p).isSome then .error .disabled
  else .ok (Function.update arrays p (some ((List.range n).map garbage)))

def deleteArray (arrays : Arrays) : Option Nat → Except Stop Arrays
  | none => .ok arrays
  | some p =>
      if (arrays p).isSome then .ok (Function.update arrays p none)
      else .error (.fault .notAllocated)

/-- `memcpy` out of the array at `p`. -/
def memRead (arrays : Arrays) (p offset n : Nat) : Except Stop Bytes :=
  match arrays p with
  | none => .error (.fault .notAllocated)
  | some bytes =>
      if offset + n ≤ bytes.length then .ok ((bytes.drop offset).take n)
      else .error (.fault .outOfBounds)

/-- `memcpy` into the array at `p`. -/
def memWrite (arrays : Arrays) (p offset : Nat) (src : Bytes) : Except Stop Arrays :=
  match arrays p with
  | none => .error (.fault .notAllocated)
  | some bytes =>
      if offset + src.length ≤ bytes.length then
        .ok (Function.update arrays p
          (some (bytes.take offset ++ src ++ bytes.drop (offset + src.length))))
      else .error (.fault .outOfBounds)

/-- The bytes of a `uint32_t`. -/
def uint32Bytes (n : UInt32) : Bytes :=
  [UInt8.ofNat n.toNat, UInt8.ofNat (n.toNat / 2 ^ 8), UInt8.ofNat (n.toNat / 2 ^ 16),
    UInt8.ofNat (n.toNat / 2 ^ 24)]

def uint32Of (bytes : Bytes) : UInt32 :=
  UInt32.ofNat (bytes.foldr (fun b n => b.toNat + 2 ^ 8 * n) 0)

/-! ### Codes -/

def codes : List Code :=
  [.kUnknown, .kInvalidArg, .kNotFound, .kNotSupported, .kCorruption, .kIOError, .kTryAgain,
    .kUnimplemented, .kNoPermission, .kOutOfMemory, .kOutOfRange, .kInUse, .kTimeout, .kInternal]

/-- `kOk` is zero. -/
def codeByte (code : Code) : UInt8 := UInt8.ofNat (codes.idxOf code + 1)

/-- The names that `CASE` prints. -/
def codeName : Code → String
  | .kUnknown => "Unknown"
  | .kInvalidArg => "InvalidArg"
  | .kNotFound => "NotFound"
  | .kNotSupported => "NotSupported"
  | .kCorruption => "Corruption"
  | .kIOError => "IOError"
  | .kTryAgain => "TryAgain"
  | .kUnimplemented => "Unimplemented"
  | .kNoPermission => "NoPermission"
  | .kOutOfMemory => "OutOfMemory"
  | .kOutOfRange => "OutOfRange"
  | .kInUse => "InUse"
  | .kTimeout => "Timeout"
  | .kInternal => "Internal"

/-- A `char` as an `int`. -/
def signedChar (b : UInt8) : Int := (b.toNat : Int).bmod (2 ^ 8)

def separator : Bytes := bytesOf [':', ' ']

/-- The text that `ToString` begins with, also for a byte that is no code. -/
def typeText (b : UInt8) : Bytes :=
  if b = 0 then bytesOf ['O', 'k'] ++ separator
  else
    match codes[b.toNat - 1]? with
    | some code => bytesOf (codeName code).toList ++ separator
    | none =>
        let n := signedChar b
        bytesOf "Unknown code(".toList ++
          (if n < 0 then bytesOf ['-'] ++ decimal n.natAbs else decimal n.natAbs) ++
          bytesOf ")".toList ++ separator

/-! ### The functions of `Status` -/

def copyState (arrays : Arrays) (state p : Nat) (garbage : Nat → UInt8) : Except Stop Arrays := do
  let size := uint32Of (← memRead arrays state 0 4)
  let arrays ← allocate arrays p (size + 5).toNat garbage
  let bytes ← memRead arrays state 0 (size + 5).toNat
  memWrite arrays p 0 bytes

/-- The constructor that takes a code. -/
def init (arrays : Arrays) (code : Code) (msg msg2 : Bytes) (p : Nat) (garbage : Nat → UInt8) :
    Except Stop Arrays := do
  let len1 := UInt32.ofNat msg.length
  let len2 := UInt32.ofNat msg2.length
  let size := len1 + if len2 = 0 then 0 else 2 + len2
  let arrays ← allocate arrays p (size + 5).toNat garbage
  let arrays ← memWrite arrays p 0 (uint32Bytes size)
  let arrays ← memWrite arrays p 4 [codeByte code]
  let arrays ← memWrite arrays p 5 (msg.take len1.toNat)
  if len2 = 0 then .ok arrays
  else
    let arrays ← memWrite arrays p (5 + len1).toNat [byteOf ':']
    let arrays ← memWrite arrays p (6 + len1).toNat [byteOf ' ']
    memWrite arrays p (7 + len1.toNat) (msg2.take len2.toNat)

/-- `code`, as the byte it is stored in. -/
def code (arrays : Arrays) : Option Nat → Except Stop UInt8
  | none => .ok 0
  | some p => (memRead arrays p 4 1).map (·.headD 0)

/-- `IsUnknown`, `IsInvalidArg` and the others. -/
def isCode (arrays : Arrays) (c : Code) (state : Option Nat) : Except Stop Bool :=
  (code arrays state).map (· == codeByte c)

def message (arrays : Arrays) : Option Nat → Except Stop Bytes
  | none => .error (.fault .nullState)
  | some p => do
      let length := uint32Of (← memRead arrays p 0 4)
      memRead arrays p 5 length.toNat

def toString (arrays : Arrays) : Option Nat → Except Stop Bytes
  | none => .ok (bytesOf ['O', 'K'])
  | some p => do
      let type := typeText (← code arrays (some p))
      let length := uint32Of (← memRead arrays p 0 4)
      return type ++ (← memRead arrays p 5 length.toNat)

/-! ### Programs -/

/-- All objects of class `Status`, by number, with their `state_`. -/
structure Store where
  arrays : Arrays
  objects : Nat → Option (Option Nat)
  fault : Option Fault

def Store.new : Store := ⟨fun _ => none, fun _ => none, none⟩

/-- An operation, with the address that `new[]` returns and what the memory holds there. -/
inductive Action
  | construct (x : Nat)
  | constructFailed (x : Nat) (failure : Failure) (p : Nat) (garbage : Nat → UInt8)
  | copyConstruct (x rhs : Nat) (p : Nat) (garbage : Nat → UInt8)
  | moveConstruct (x rhs : Nat)
  | copyAssign (x rhs : Nat) (p : Nat) (garbage : Nat → UInt8)
  | moveAssign (x rhs : Nat)
  | destroy (x : Nat)

/-- What the object's `state_` is; there is no such operation on an object that does not exist. -/
def Store.state (s : Store) (x : Nat) : Except Stop (Option Nat) :=
  match s.objects x with
  | none => .error .disabled
  | some state => .ok state

/-- A constructor runs on an object that does not exist yet. -/
def Store.vacant (s : Store) (x : Nat) : Except Stop Unit :=
  if (s.objects x).isSome then .error .disabled else .ok ()

def Store.set (s : Store) (x : Nat) (arrays : Arrays) (state : Option (Option Nat)) : Store :=
  { s with arrays := arrays, objects := Function.update s.objects x state }

/-- A copy of a state, null or not. -/
def copyOf (arrays : Arrays) (state : Option Nat) (p : Nat) (garbage : Nat → UInt8) :
    Except Stop (Arrays × Option Nat) :=
  match state with
  | none => .ok (arrays, none)
  | some state => (copyState arrays state p garbage).map fun arrays => (arrays, some p)

/-- The bytes of a text, those of `strerror` included. -/
abbrev Render := Message → Bytes

def Render.msg2 (render : Render) (failure : Failure) : Bytes := (failure.msg2.map render).getD []

def attempt (render : Render) (s : Store) : Action → Except Stop Store
  | .construct x => do
      s.vacant x
      return s.set x s.arrays (some none)
  | .constructFailed x failure p garbage => do
      s.vacant x
      let arrays ← init s.arrays failure.code (render failure.msg) (render.msg2 failure) p garbage
      return s.set x arrays (some (some p))
  | .copyConstruct x rhs p garbage => do
      s.vacant x
      let state ← s.state rhs
      let copy ← copyOf s.arrays state p garbage
      return s.set x copy.1 (some copy.2)
  | .moveConstruct x rhs => do
      s.vacant x
      let state ← s.state rhs
      return (s.set rhs s.arrays (some none)).set x s.arrays (some state)
  | .copyAssign x rhs p garbage => do
      let this ← s.state x
      let state ← s.state rhs
      if this ≠ state then
        let arrays ← deleteArray s.arrays this
        let copy ← copyOf arrays state p garbage
        return s.set x copy.1 (some copy.2)
      else return s
  | .moveAssign x rhs => do
      let this ← s.state x
      let state ← s.state rhs
      return (s.set x s.arrays (some state)).set rhs s.arrays (some this)
  | .destroy x => do
      let this ← s.state x
      let arrays ← deleteArray s.arrays this
      return s.set x arrays none

/-- A program stops at its first fault. -/
def step (render : Render) (s : Store) (a : Action) : Option Store :=
  if s.fault ≠ none then none
  else
    match attempt render s a with
    | .ok t => some t
    | .error (.fault f) => some { s with fault := some f }
    | .error .disabled => none

/-! ### Values -/

abbrev Values := Nat → Option Status

/-- The same program on values. -/
def valueStep (v : Values) : Action → Option Values
  | .construct x => if (v x).isSome then none else some (Function.update v x (some .ok))
  | .constructFailed x failure _ _ =>
      if (v x).isSome then none else some (Function.update v x (some (.failed failure)))
  | .copyConstruct x rhs _ _ =>
      if (v x).isSome then none
      else (v rhs).map fun status => Function.update v x (some status)
  | .moveConstruct x rhs =>
      if (v x).isSome then none
      else (v rhs).map fun status =>
        Function.update (Function.update v rhs (some .ok)) x (some status)
  | .copyAssign x rhs _ _ =>
      if (v x).isSome then (v rhs).map fun status => Function.update v x (some status) else none
  | .moveAssign x rhs =>
      (v x).bind fun this => (v rhs).map fun status =>
        Function.update (Function.update v x (some status)) rhs (some this)
  | .destroy x => if (v x).isSome then some (Function.update v x none) else none

/-- A text, as far as a 32 bit length reaches. -/
def truncated (msg : Bytes) : Bytes := msg.take (msg.length % 2 ^ 32)

def joinText (msg msg2 : Bytes) : Bytes :=
  truncated msg ++ if truncated msg2 = [] then [] else separator ++ truncated msg2

/-- What the message of the failure is. -/
def Render.text (render : Render) (failure : Failure) : Bytes :=
  joinText (render failure.msg) (render.msg2 failure)

def layout (code : UInt8) (text : Bytes) : Bytes :=
  uint32Bytes (UInt32.ofNat text.length) ++ [code] ++ text

/-- The array that a status which is not ok owns. -/
def Render.state (render : Render) (failure : Failure) : Bytes :=
  layout (codeByte failure.code) (render.text failure)

/-- What `ToString` says of the value. -/
def Render.status (render : Render) : Status → Bytes
  | .ok => bytesOf ['O', 'K']
  | .failed failure =>
      bytesOf (codeName failure.code).toList ++ separator ++ render.text failure

/-- What `message` says of a value: of one that is ok, which has no array, it reads a null `state_`. -/
def Render.message (render : Render) : Status → Except Stop Bytes
  | .ok => .error (.fault .nullState)
  | .failed failure => .ok (render.text failure)

/-- Length, code and text fit a size of 32 bits. -/
def Fits (render : Render) : Action → Prop
  | .constructFailed _ failure _ _ => (render.text failure).length + 5 < 2 ^ 32
  | _ => True

/-! ### Reading and writing an array -/

theorem uint32Of_uint32Bytes (n : UInt32) : uint32Of (uint32Bytes n) = n := by
  have hlt := n.toNat_lt
  apply UInt32.toNat_inj.mp
  simp only [uint32Of, uint32Bytes, List.foldr_cons, List.foldr_nil, UInt8.toNat_ofNat',
    UInt32.toNat_ofNat']
  omega

theorem length_uint32Bytes (n : UInt32) : (uint32Bytes n).length = 4 := rfl

section Arrays

variable {arrays : Arrays} {p : Nat}

/-- A read that lies in the array. -/
theorem memRead_append {pre bytes rest : Bytes} {offset n : Nat}
    (h : arrays p = some (pre ++ bytes ++ rest)) (hoffset : offset = pre.length)
    (hn : n = bytes.length) : memRead arrays p offset n = .ok bytes := by
  subst hoffset hn
  simp only [memRead, h, List.append_assoc]
  rw [if_pos (by simp), List.drop_left, List.take_left]

/-- A write where the part of the array that has been written ends. -/
theorem memWrite_append {rest src : Bytes} {offset : Nat} (pre : Bytes)
    (hoffset : offset = pre.length) (hroom : src.length ≤ rest.length) :
    memWrite (Function.update arrays p (some (pre ++ rest))) p offset src =
      .ok (Function.update arrays p (some (pre ++ src ++ rest.drop src.length))) := by
  subst hoffset
  simp only [memWrite, Function.update_self, Function.update_idem, List.length_append]
  rw [if_pos (Nat.add_le_add_left hroom _), List.take_left, ← List.drop_drop, List.drop_left]

/-- There is an array of `n` bytes at `p`. -/
def Sized (arrays : Arrays) (p n : Nat) : Prop := ∃ bytes, arrays p = some bytes ∧ bytes.length = n

theorem memWrite_of_lt {n offset : Nat} {src : Bytes} (h : Sized arrays p n)
    (hlt : n < offset + src.length) : memWrite arrays p offset src = .error (.fault .outOfBounds) := by
  obtain ⟨bytes, hbytes, rfl⟩ := h
  simp only [memWrite, hbytes]
  exact if_neg (Nat.not_le_of_lt hlt)

/-- A write faults, or leaves an array of the same length. -/
theorem memWrite_bind_eq_error {n offset : Nat} {src : Bytes} {f : Arrays → Except Stop Arrays}
    (h : Sized arrays p n) (hf : ∀ a, Sized a p n → f a = .error (.fault .outOfBounds)) :
    (memWrite arrays p offset src).bind f = .error (.fault .outOfBounds) := by
  obtain ⟨bytes, hbytes, rfl⟩ := h
  simp only [memWrite, hbytes]
  split_ifs with hbounds
  · refine hf _ ⟨_, Function.update_self .., ?_⟩
    simp only [List.length_append, List.length_take, List.length_drop]
    omega
  · rfl

/-- The array at `p` is written up to `pre`, and `left` bytes are left. -/
def Filling (arrays : Arrays) (p : Nat) (pre : Bytes) (left : Nat) (a : Arrays) : Prop :=
  ∃ rest : Bytes, rest.length = left ∧ a = Function.update arrays p (some (pre ++ rest))

theorem Filling.write {pre : Bytes} {left offset : Nat} {a : Arrays} (src : Bytes)
    (h : Filling arrays p pre (src.length + left) a) (hoffset : offset = pre.length) :
    ∃ a', memWrite a p offset src = .ok a' ∧ Filling arrays p (pre ++ src) left a' := by
  obtain ⟨rest, hrest, rfl⟩ := h
  refine ⟨_, memWrite_append pre hoffset (by omega), _, ?_, rfl⟩
  rw [List.length_drop, hrest]
  omega

theorem Filling.full {pre : Bytes} {a : Arrays} (h : Filling arrays p pre 0 a) :
    a = Function.update arrays p (some pre) := by
  obtain ⟨rest, hrest, rfl⟩ := h
  rw [List.eq_nil_of_length_eq_zero hrest, List.append_nil]

theorem allocate_of_free (h : arrays p = none) (n : Nat) (garbage : Nat → UInt8) :
    allocate arrays p n garbage =
      .ok (Function.update arrays p (some ((List.range n).map garbage))) := by
  simp [allocate, h]

theorem allocate_of_taken (h : (arrays p).isSome = true) (n : Nat) (garbage : Nat → UInt8) :
    allocate arrays p n garbage = .error .disabled :=
  if_pos h

end Arrays

/-! ### The functions of `Status` on the array of a text -/

section Layout

variable {arrays : Arrays} {p : Nat} {c : UInt8} {text : Bytes}

theorem length_layout : (layout c text).length = text.length + 5 := by
  simp only [layout, List.length_append, length_uint32Bytes, List.length_singleton]
  omega

theorem memRead_length (h : arrays p = some (layout c text)) :
    memRead arrays p 0 4 = .ok (uint32Bytes (UInt32.ofNat text.length)) := by
  have hsplit : arrays p = some ([] ++ uint32Bytes (UInt32.ofNat text.length) ++ ([c] ++ text)) := by
    rw [h, layout, List.nil_append, List.append_assoc]
  exact memRead_append hsplit rfl rfl

theorem toNat_ofNat_length (hfits : text.length + 5 < 2 ^ 32) :
    (UInt32.ofNat text.length).toNat = text.length := by
  rw [UInt32.toNat_ofNat']
  exact Nat.mod_eq_of_lt (by omega)

theorem toNat_size (hfits : text.length + 5 < 2 ^ 32) :
    (UInt32.ofNat text.length + 5).toNat = text.length + 5 := by
  rw [UInt32.toNat_add, toNat_ofNat_length hfits]
  exact Nat.mod_eq_of_lt hfits

theorem code_layout (h : arrays p = some (layout c text)) : code arrays (some p) = .ok c := by
  have hread : memRead arrays p 4 1 = .ok [c] := memRead_append h rfl rfl
  simp [code, hread, Except.map]

theorem message_layout (h : arrays p = some (layout c text)) (hfits : text.length + 5 < 2 ^ 32) :
    message arrays (some p) = .ok text := by
  have hread : memRead arrays p 5 text.length = .ok text := by
    have hsplit : arrays p = some (uint32Bytes (UInt32.ofNat text.length) ++ [c] ++ text ++ []) := by
      rw [h, layout, List.append_nil]
    exact memRead_append hsplit rfl rfl
  simp only [message, memRead_length h, bind, Except.bind]
  rw [uint32Of_uint32Bytes, toNat_ofNat_length hfits, hread]

theorem toString_layout (h : arrays p = some (layout c text)) (hfits : text.length + 5 < 2 ^ 32) :
    toString arrays (some p) = .ok (typeText c ++ text) := by
  have hmessage := message_layout h hfits
  simp only [message, bind, Except.bind] at hmessage
  simp only [toString, code_layout h, bind, Except.bind]
  rw [memRead_length h] at hmessage ⊢
  simp only at hmessage ⊢
  rw [hmessage]
  rfl

theorem copyState_layout {q : Nat} (h : arrays q = some (layout c text))
    (hfits : text.length + 5 < 2 ^ 32) (hp : arrays p = none) (garbage : Nat → UInt8) :
    copyState arrays q p garbage = .ok (Function.update arrays p (some (layout c text))) := by
  have hne : q ≠ p := by
    rintro rfl
    cases h.symm.trans hp
  have hq : ∀ bytes, Function.update arrays p bytes q = some (layout c text) := fun bytes =>
    (Function.update_of_ne hne ..).trans h
  have hread : ∀ bytes, memRead (Function.update arrays p bytes) q 0 (text.length + 5) =
      .ok (layout c text) := by
    intro bytes
    have hsplit : Function.update arrays p bytes q = some ([] ++ layout c text ++ []) := by
      rw [hq, List.nil_append, List.append_nil]
    exact memRead_append hsplit rfl length_layout.symm
  have hwrite : memWrite (Function.update arrays p
        (some ([] ++ (List.range (text.length + 5)).map garbage))) p 0 (layout c text) = _ :=
    memWrite_append [] rfl (by simp [length_layout])
  simp only [copyState, memRead_length h, bind, Except.bind, uint32Of_uint32Bytes, toNat_size hfits,
    allocate_of_free hp, hread]
  rw [List.nil_append] at hwrite
  rw [hwrite, List.drop_eq_nil_of_le (by simp [length_layout]), List.append_nil, List.nil_append]

/-! The constructor that takes a code. -/

theorem length_truncated (msg : Bytes) :
    (truncated msg).length = (UInt32.ofNat msg.length).toNat := by
  rw [truncated, List.length_take, UInt32.toNat_ofNat']
  exact Nat.min_eq_left (Nat.mod_le _ _)

theorem truncated_eq (msg : Bytes) :
    msg.take (UInt32.ofNat msg.length).toNat = truncated msg := by
  rw [truncated, UInt32.toNat_ofNat']

theorem truncated_eq_nil_iff (msg : Bytes) :
    truncated msg = [] ↔ UInt32.ofNat msg.length = 0 := by
  rw [← List.length_eq_zero_iff, length_truncated, ← UInt32.toNat_inj, UInt32.toNat_zero]

theorem length_joinText (msg msg2 : Bytes) :
    (joinText msg msg2).length = (truncated msg).length +
      if UInt32.ofNat msg2.length = 0 then 0 else 2 + (truncated msg2).length := by
  rw [joinText, List.length_append]
  simp only [truncated_eq_nil_iff]
  split_ifs
  · rfl
  · rw [List.length_append]
    rfl

/-- The size the constructor computes is the length of the text, as 32 bits hold it. -/
theorem size_eq (msg msg2 : Bytes) :
    UInt32.ofNat msg.length +
        (if UInt32.ofNat msg2.length = 0 then 0 else 2 + UInt32.ofNat msg2.length) =
      UInt32.ofNat (joinText msg msg2).length := by
  apply UInt32.toNat_inj.mp
  rw [length_joinText, length_truncated, length_truncated]
  rw [UInt32.toNat_add, UInt32.toNat_ofNat' (n := _ + _)]
  split_ifs
  · rfl
  · rw [UInt32.toNat_add]
    simp only [UInt32.toNat_ofNat]
    omega

theorem init_of_fits {msg msg2 : Bytes} (hfits : (joinText msg msg2).length + 5 < 2 ^ 32)
    (hp : arrays p = none) (code : Code) (garbage : Nat → UInt8) :
    init arrays code msg msg2 p garbage =
      .ok (Function.update arrays p (some (layout (codeByte code) (joinText msg msg2)))) := by
  have hlength := length_joinText msg msg2
  have hlen1 := length_truncated msg
  have hstart : Filling arrays p []
      ((uint32Bytes (UInt32.ofNat (joinText msg msg2).length)).length +
        ([codeByte code].length + ((truncated msg).length +
          if UInt32.ofNat msg2.length = 0 then 0 else 2 + (truncated msg2).length)))
      (Function.update arrays p
        (some ((List.range ((joinText msg msg2).length + 5)).map garbage))) := by
    refine ⟨_, ?_, rfl⟩
    rw [List.length_map, List.length_range, hlength, length_uint32Bytes, List.length_singleton]
    omega
  obtain ⟨a1, hsize, ha1⟩ := hstart.write _ rfl
  obtain ⟨a2, hcode, ha2⟩ := ha1.write [codeByte code] rfl
  obtain ⟨a3, hmsg, ha3⟩ := ha2.write (truncated msg) rfl
  simp only [List.nil_append, List.length_append, List.length_nil, length_uint32Bytes,
    List.length_singleton, Nat.reduceAdd] at hsize hcode hmsg
  simp only [init, bind, Except.bind, size_eq, toNat_size hfits, allocate_of_free hp, truncated_eq,
    hsize, hcode, hmsg]
  by_cases hlen2 : UInt32.ofNat msg2.length = 0
  · simp only [hlen2, if_true] at ha3 ⊢
    rw [ha3.full, joinText, if_pos ((truncated_eq_nil_iff msg2).mpr hlen2), List.append_nil]
    rfl
  · simp only [hlen2, if_false] at ha3 hlength ⊢
    have h5 : (5 + UInt32.ofNat msg.length).toNat = 5 + (truncated msg).length := by
      rw [UInt32.toNat_add, ← hlen1]
      exact Nat.mod_eq_of_lt (by simp only [UInt32.toNat_ofNat]; omega)
    have h6 : (6 + UInt32.ofNat msg.length).toNat = 6 + (truncated msg).length := by
      rw [UInt32.toNat_add, ← hlen1]
      exact Nat.mod_eq_of_lt (by simp only [UInt32.toNat_ofNat]; omega)
    have hleft : 2 + (truncated msg2).length = 1 + (1 + ((truncated msg2).length + 0)) := by omega
    rw [hleft] at ha3
    have hhead : ([] ++ uint32Bytes (UInt32.ofNat (joinText msg msg2).length) ++ [codeByte code] ++
        truncated msg).length = 5 + (truncated msg).length := by
      simp only [List.nil_append, List.length_append, length_uint32Bytes, List.length_singleton]
    obtain ⟨a4, hcolon, ha4⟩ := ha3.write [byteOf ':'] (h5.trans hhead.symm)
    obtain ⟨a5, hspace, ha5⟩ := ha4.write [byteOf ' '] (h6.trans (by
      rw [List.length_append, hhead, List.length_singleton]
      omega))
    obtain ⟨a6, hmsg2, ha6⟩ := ha5.write (truncated msg2)
      (show 7 + (truncated msg).length = _ by
        rw [List.length_append, List.length_append, hhead, List.length_singleton,
          List.length_singleton]
        omega)
    rw [← hlen1]
    simp only [hcolon, hspace, hmsg2]
    rw [ha6.full, joinText, if_neg (mt (truncated_eq_nil_iff msg2).mp hlen2)]
    simp only [layout, separator, bytesOf, List.map_cons, List.map_nil, List.nil_append,
      List.append_assoc, List.cons_append]

/-- A text that does not fit is written over the end of the array. -/
theorem init_of_not_fits {msg msg2 : Bytes} (hfits : ¬(joinText msg msg2).length + 5 < 2 ^ 32)
    (hp : arrays p = none) (code : Code) (garbage : Nat → UInt8) :
    init arrays code msg msg2 p garbage = .error (.fault .outOfBounds) := by
  have hlength := length_joinText msg msg2
  have hlen1 := length_truncated msg
  let n := (UInt32.ofNat (joinText msg msg2).length + 5).toNat
  have hn : n < 2 ^ 32 := UInt32.toNat_lt _
  have hstart : Sized (Function.update arrays p (some ((List.range n).map garbage))) p n :=
    ⟨_, Function.update_self .., by simp⟩
  simp only [init, bind, size_eq, allocate_of_free hp, truncated_eq]
  refine memWrite_bind_eq_error hstart fun a1 h1 => memWrite_bind_eq_error h1 fun a2 h2 => ?_
  by_cases hlen2 : UInt32.ofNat msg2.length = 0
  · rw [if_pos hlen2] at hlength
    rw [memWrite_of_lt h2 (by omega)]
    rfl
  · rw [if_neg hlen2] at hlength
    simp only [if_neg hlen2]
    refine memWrite_bind_eq_error h2 fun a3 h3 => memWrite_bind_eq_error h3 fun a4 h4 =>
      memWrite_bind_eq_error h4 fun a5 h5 => memWrite_of_lt h5 ?_
    rw [← hlen1]
    omega

end Layout

/-! ### Objects as values -/

/-- An object, by its `state_`, has a value. -/
inductive Denotes (render : Render) (arrays : Arrays) : Option (Option Nat) → Option Status → Prop
  | absent : Denotes render arrays none none
  | ok : Denotes render arrays (some none) (some .ok)
  | failed {p : Nat} {failure : Failure} (state : arrays p = some (render.state failure))
      (fits : (render.text failure).length + 5 < 2 ^ 32) :
      Denotes render arrays (some (some p)) (some (.failed failure))

def Store.held (s : Store) (x : Nat) : Option Nat := (s.objects x).join

/-- Every object has its value, and the arrays are those the objects own. -/
structure Represents (render : Render) (s : Store) (v : Values) : Prop where
  fault : s.fault = none
  owns : Ownership.Owns s.held {p | (s.arrays p).isSome}
  denotes : ∀ x, Denotes render s.arrays (s.objects x) (v x)

theorem held_set (s : Store) (x : Nat) (arrays : Arrays) (state : Option (Option Nat)) :
    (s.set x arrays state).held = Function.update s.held x state.join := by
  funext y
  by_cases hy : y = x
  · subst hy
    simp [Store.held, Store.set]
  · simp [Store.held, Store.set, hy]

theorem set_set (s : Store) (x : Nat) (arrays arrays' : Arrays) (state state' : Option (Option Nat)) :
    (s.set x arrays state).set x arrays' state' = s.set x arrays' state' := by
  simp [Store.set]

section Represents

variable {render : Render} {s : Store} {v : Values} {x rhs p : Nat}

theorem Denotes.frame {arrays arrays' : Arrays} {state : Option (Option Nat)} {status : Option Status}
    (h : Denotes render arrays state status)
    (hframe : ∀ q, state = some (some q) → arrays' q = arrays q) :
    Denotes render arrays' state status := by
  cases h with
  | absent => exact .absent
  | ok => exact .ok
  | failed hstate hfits => exact .failed ((hframe _ rfl).trans hstate) hfits

theorem live_update_some (arrays : Arrays) (p : Nat) (bytes : Bytes) :
    {q | (Function.update arrays p (some bytes) q).isSome} =
      insert p {q | (arrays q).isSome} := by
  ext q
  by_cases hq : q = p
  · simp [hq]
  · simp [hq]

theorem live_update_none (arrays : Arrays) (p : Nat) :
    {q | (Function.update arrays p none q).isSome} = {q | (arrays q).isSome} \ {p} := by
  ext q
  by_cases hq : q = p
  · simp [hq]
  · simp [hq]

/-- One object changes, and only arrays that the others do not own. -/
theorem Represents.set {arrays : Arrays} {state : Option (Option Nat)} {status : Option Status}
    (h : Represents render s v)
    (howns : Ownership.Owns (Function.update s.held x state.join) {p | (arrays p).isSome})
    (hx : Denotes render arrays state status)
    (hframe : ∀ y q, y ≠ x → s.objects y = some (some q) → arrays q = s.arrays q) :
    Represents render (s.set x arrays state) (Function.update v x status) where
  fault := h.fault
  owns := by
    rw [held_set]
    exact howns
  denotes y := by
    by_cases hy : y = x
    · subst hy
      simpa [Store.set] using hx
    · simpa [Store.set, hy] using (h.denotes y).frame (hframe y · hy)

/-- An object that owns nothing gets an array of its own. -/
theorem Represents.fill (h : Represents render s v) (hx : s.held x = none) (hp : s.arrays p = none)
    {failure : Failure} (hfits : (render.text failure).length + 5 < 2 ^ 32) :
    Represents render
      (s.set x (Function.update s.arrays p (some (render.state failure))) (some (some p)))
      (Function.update v x (some (.failed failure))) := by
  refine h.set ?_ (.failed (Function.update_self ..) hfits) fun y q _ hy => ?_
  · rw [live_update_some]
    exact h.owns.acquire hx (by simp [hp])
  · have hheld : s.held y = some q := by simp [Store.held, hy]
    have hq : q ∈ {q | (s.arrays q).isSome} := h.owns.mem_live hheld
    refine Function.update_of_ne ?_ ..
    rintro rfl
    simp [hp] at hq

/-- An object that owns nothing is ok, or does not exist. -/
theorem Represents.leave (h : Represents render s v) (hx : s.held x = none)
    {state : Option (Option Nat)} {status : Option Status} (hstate : state.join = none)
    (hdenotes : Denotes render s.arrays state status) :
    Represents render (s.set x s.arrays state) (Function.update v x status) := by
  refine h.set ?_ hdenotes fun _ _ _ _ => rfl
  rw [hstate, ← hx, Function.update_eq_self]
  exact h.owns

/-- `delete[]` of an object's state always finds its array, and no other object owns it. -/
theorem Represents.delete (h : Represents render s v) {this : Option Nat}
    (hx : s.objects x = some this) (state : Option (Option Nat)) {status : Option Status}
    (hstate : state.join = none)
    (hdenotes : ∀ arrays, Denotes render arrays state status) :
    ∃ arrays, deleteArray s.arrays this = .ok arrays ∧
      Represents render (s.set x arrays state) (Function.update v x status) := by
  have hheld : s.held x = this := by simp [Store.held, hx]
  cases this with
  | none => exact ⟨s.arrays, rfl, h.leave hheld hstate (hdenotes _)⟩
  | some p =>
      have hp : p ∈ {q | (s.arrays q).isSome} := h.owns.mem_live hheld
      refine ⟨Function.update s.arrays p none, if_pos hp, h.set ?_ (hdenotes _) fun y q hy hq => ?_⟩
      · rw [hstate, live_update_none]
        exact h.owns.release hheld
      · refine Function.update_of_ne ?_ ..
        rintro rfl
        exact hy (h.owns.unique (show s.held y = some q by simp [Store.held, hq]) hheld)

theorem Represents.vacant_cases (h : Represents render s v) (x : Nat) :
    s.vacant x = .error .disabled ∨ s.vacant x = .ok () ∧ s.objects x = none ∧ v x = none := by
  have hx := h.denotes x
  simp only [Store.vacant]
  generalize s.objects x = state at hx ⊢
  generalize v x = status at hx ⊢
  cases hx with
  | absent => exact .inr ⟨rfl, rfl, rfl⟩
  | ok => exact .inl rfl
  | failed hstate hfits => exact .inl rfl

theorem Represents.state_cases (h : Represents render s v) (x : Nat) :
    s.state x = .error .disabled ∨ ∃ state status, s.state x = .ok state ∧
      s.objects x = some state ∧ v x = some status := by
  have hx := h.denotes x
  simp only [Store.state]
  generalize s.objects x = state at hx ⊢
  generalize v x = status at hx ⊢
  cases hx with
  | absent => exact .inl rfl
  | ok => exact .inr ⟨_, _, rfl, rfl, rfl⟩
  | failed hstate hfits => exact .inr ⟨_, _, rfl, rfl, rfl⟩

/-- A copy made for an object that owns nothing. -/
theorem Represents.copy (h : Represents render s v) (hx : s.held x = none) {state : Option Nat}
    {status : Status} (hstate : s.objects rhs = some state) (hstatus : v rhs = some status)
    (p : Nat) (garbage : Nat → UInt8) :
    copyOf s.arrays state p garbage = .error .disabled ∨
      ∃ copy, copyOf s.arrays state p garbage = .ok copy ∧
        Represents render (s.set x copy.1 (some copy.2)) (Function.update v x (some status)) := by
  have hrhs := h.denotes rhs
  rw [hstate, hstatus] at hrhs
  cases hrhs with
  | ok => exact .inr ⟨(s.arrays, none), rfl, h.leave hx rfl .ok⟩
  | @failed q failure hlayout hfits =>
      cases hp : s.arrays p with
      | none =>
          refine .inr ⟨(Function.update s.arrays p (some (render.state failure)), some p), ?_,
            h.fill hx hp hfits⟩
          rw [copyOf, copyState_layout hlayout hfits hp]
          rfl
      | some bytes =>
          refine .inl ?_
          simp only [copyOf, copyState, memRead_length hlayout, bind, Except.bind,
            allocate_of_taken (hp ▸ rfl : (s.arrays p).isSome = true)]
          rfl

/-- What a step comes to: it is impossible, or does what it would do to values. -/
def Matches (render : Render) (v : Values) (a : Action) (result : Except Stop Store) : Prop :=
  result = .error .disabled ∨
    ∃ t v', result = .ok t ∧ valueStep v a = some v' ∧ Represents render t v'

theorem held_of_absent (h : s.objects x = none) : s.held x = none := by
  simp [Store.held, h]

/-- The move constructor: the new object takes the array over. -/
theorem Represents.moveConstruct (h : Represents render s v) (hx : s.objects x = none)
    {state : Option Nat} {status : Status} (hstate : s.objects rhs = some state)
    (hstatus : v rhs = some status) :
    Represents render ((s.set rhs s.arrays (some none)).set x s.arrays (some state))
      (Function.update (Function.update v rhs (some .ok)) x (some status)) := by
  have hne : x ≠ rhs := by
    rintro rfl
    cases hx.symm.trans hstate
  have hheld : s.held rhs = state := by simp [Store.held, hstate]
  have hrhs := h.denotes rhs
  rw [hstate, hstatus] at hrhs
  have howns : Ownership.Owns (Function.update (Function.update s.held rhs none) x state)
      {p | (s.arrays p).isSome} := by
    cases state with
    | none =>
        rw [← hheld, Function.update_eq_self, hheld, ← held_of_absent hx, Function.update_eq_self]
        exact h.owns
    | some q => exact h.owns.transfer hheld (held_of_absent hx)
  refine ⟨h.fault, ?_, fun y => ?_⟩
  · rw [held_set, held_set]
    exact howns
  · by_cases hyx : y = x
    · subst hyx
      simpa [Store.set] using hrhs
    · by_cases hyr : y = rhs
      · subst hyr
        simpa [Store.set, hyx] using Denotes.ok
      · simpa [Store.set, hyx, hyr] using h.denotes y

/-- The move assignment: the two objects exchange their arrays. -/
theorem Represents.moveAssign (h : Represents render s v) {this state : Option Nat}
    {old status : Status} (hthis : s.objects x = some this) (hold : v x = some old)
    (hstate : s.objects rhs = some state) (hstatus : v rhs = some status) :
    Represents render ((s.set x s.arrays (some state)).set rhs s.arrays (some this))
      (Function.update (Function.update v x (some status)) rhs (some old)) := by
  have hx := h.denotes x
  have hrhs := h.denotes rhs
  rw [hthis, hold] at hx
  rw [hstate, hstatus] at hrhs
  refine ⟨h.fault, ?_, fun y => ?_⟩
  · have hheld : ((s.set x s.arrays (some state)).set rhs s.arrays (some this)).held =
        fun y => s.held (Equiv.swap x rhs y) := by
      funext y
      rw [held_set, held_set]
      by_cases hyr : y = rhs
      · subst hyr
        simp [Store.held, hthis]
      · by_cases hyx : y = x
        · subst hyx
          simp [Store.held, hstate, hyr]
        · simp [hyr, hyx, Equiv.swap_apply_of_ne_of_ne]
    rw [hheld]
    exact h.owns.swap x rhs
  · by_cases hyr : y = rhs
    · subst hyr
      simpa [Store.set] using hx
    · by_cases hyx : y = x
      · subst hyx
        simpa [Store.set, hyr] using hrhs
      · simpa [Store.set, hyx, hyr] using h.denotes y

theorem Represents.copyAssign (h : Represents render s v) (x rhs p : Nat) (garbage : Nat → UInt8) :
    Matches render v (.copyAssign x rhs p garbage) (attempt render s (.copyAssign x rhs p garbage)) := by
  rcases h.state_cases x with hx | ⟨this, old, hx, hthis, hold⟩
  · exact .inl (by simp only [attempt, bind, Except.bind, hx])
  rcases h.state_cases rhs with hrhs | ⟨state, status, hrhs, hstate, hstatus⟩
  · exact .inl (by simp only [attempt, bind, Except.bind, hx, hrhs])
  simp only [Matches, attempt, valueStep, bind, Except.bind, hx, hrhs, hold, hstatus]
  by_cases hsame : this = state
  · -- the same object, or two that are ok: the object has the value already
    subst hsame
    have hvalue : status = old := by
      cases this with
      | none =>
          have h1 := h.denotes x
          have h2 := h.denotes rhs
          rw [hthis, hold] at h1
          rw [hstate, hstatus] at h2
          cases h1
          cases h2
          rfl
      | some q =>
          have hsame : x = rhs := h.owns.unique (r := q) (by simp [Store.held, hthis])
            (by simp [Store.held, hstate])
          subst hsame
          exact Option.some.inj (hstatus.symm.trans hold)
    refine .inr ⟨s, v, by simp [pure, Except.pure], ?_, h⟩
    subst hvalue
    simp only [Option.isSome_some, if_true, Option.map_some, Option.some.injEq]
    exact Function.update_eq_self_iff.mpr hold.symm
  · have hne : rhs ≠ x := by
      rintro rfl
      exact hsame (Option.some.inj (hthis.symm.trans hstate))
    obtain ⟨arrays, hdelete, hcleared⟩ := h.delete hthis (some none) rfl fun _ => .ok
    have hrhs' : (s.set x arrays (some none)).objects rhs = some state :=
      (Function.update_of_ne hne ..).trans hstate
    have hstatus' : Function.update v x (some Status.ok) rhs = some status :=
      (Function.update_of_ne hne ..).trans hstatus
    have hheld : (s.set x arrays (some none)).held x = none := by simp [held_set]
    rcases hcleared.copy hheld hrhs' hstatus' p garbage with herr | ⟨copy, hcopy, hdone⟩
    · refine .inl ?_
      simp only [Store.set] at herr
      simp [hsame, hdelete, herr]
    · simp only [Store.set] at hcopy
      rw [set_set, Function.update_idem] at hdone
      exact .inr ⟨_, _, by simp [hsame, hdelete, hcopy, pure, Except.pure], rfl, hdone⟩

/-- No step faults, and each does what it would do to values. -/
theorem Represents.attempt (h : Represents render s v) {a : Action} (hfits : Fits render a) :
    Matches render v a (attempt render s a) := by
  cases a with
  | construct x =>
      rcases h.vacant_cases x with hx | ⟨hx, habsent, hnone⟩
      · exact .inl (by simp only [StatusState.attempt, bind, Except.bind, hx])
      · refine .inr ⟨_, _, by simp only [StatusState.attempt, bind, Except.bind, hx]; rfl, ?_,
          h.leave (held_of_absent habsent) rfl .ok⟩
        simp [valueStep, hnone]
  | constructFailed x failure p garbage =>
      rcases h.vacant_cases x with hx | ⟨hx, habsent, hnone⟩
      · exact .inl (by simp only [StatusState.attempt, bind, Except.bind, hx])
      · cases hp : s.arrays p with
        | none =>
            refine .inr ⟨_, _, ?_, ?_, h.fill (held_of_absent habsent) hp hfits⟩
            · simp only [StatusState.attempt, bind, Except.bind, hx, init_of_fits hfits hp]
              rfl
            · simp [valueStep, hnone]
        | some bytes =>
            refine .inl ?_
            simp only [StatusState.attempt, init, bind, Except.bind, hx,
              allocate_of_taken (hp ▸ rfl : (s.arrays p).isSome = true)]
  | copyConstruct x rhs p garbage =>
      rcases h.vacant_cases x with hx | ⟨hx, habsent, hnone⟩
      · exact .inl (by simp only [StatusState.attempt, bind, Except.bind, hx])
      rcases h.state_cases rhs with hrhs | ⟨state, status, hrhs, hstate, hstatus⟩
      · exact .inl (by simp only [StatusState.attempt, bind, Except.bind, hx, hrhs])
      rcases h.copy (held_of_absent habsent) hstate hstatus p garbage with herr | ⟨copy, hcopy, hdone⟩
      · exact .inl (by simp only [StatusState.attempt, bind, Except.bind, hx, hrhs, herr])
      · refine .inr ⟨_, _, ?_, ?_, hdone⟩
        · simp only [StatusState.attempt, bind, Except.bind, hx, hrhs, hcopy]
          rfl
        · simp [valueStep, hnone, hstatus]
  | moveConstruct x rhs =>
      rcases h.vacant_cases x with hx | ⟨hx, habsent, hnone⟩
      · exact .inl (by simp only [StatusState.attempt, bind, Except.bind, hx])
      rcases h.state_cases rhs with hrhs | ⟨state, status, hrhs, hstate, hstatus⟩
      · exact .inl (by simp only [StatusState.attempt, bind, Except.bind, hx, hrhs])
      · refine .inr ⟨_, _, ?_, ?_, h.moveConstruct habsent hstate hstatus⟩
        · simp only [StatusState.attempt, bind, Except.bind, hx, hrhs]
          rfl
        · simp [valueStep, hnone, hstatus]
  | copyAssign x rhs p garbage => exact h.copyAssign x rhs p garbage
  | moveAssign x rhs =>
      rcases h.state_cases x with hx | ⟨this, old, hx, hthis, hold⟩
      · exact .inl (by simp only [StatusState.attempt, bind, Except.bind, hx])
      rcases h.state_cases rhs with hrhs | ⟨state, status, hrhs, hstate, hstatus⟩
      · exact .inl (by simp only [StatusState.attempt, bind, Except.bind, hx, hrhs])
      · refine .inr ⟨_, _, ?_, ?_, h.moveAssign hthis hold hstate hstatus⟩
        · simp only [StatusState.attempt, bind, Except.bind, hx, hrhs]
          rfl
        · simp [valueStep, hold, hstatus]
  | destroy x =>
      rcases h.state_cases x with hx | ⟨this, old, hx, hthis, hold⟩
      · exact .inl (by simp only [StatusState.attempt, bind, Except.bind, hx])
      obtain ⟨arrays, hdelete, hcleared⟩ := h.delete hthis none rfl fun _ => .absent
      refine .inr ⟨_, _, ?_, ?_, hcleared⟩
      · simp only [StatusState.attempt, bind, Except.bind, hx, hdelete]
        rfl
      · simp [valueStep, hold]

/-- A step that meets the condition keeps the two in relation. -/
theorem step_represents {v : Values} (s : Store) (a : Action) (t : Store) (h : Represents render s v)
    (hfits : Fits render a) (hstep : step render s a = some t) :
    ∃ v', valueStep v a = some v' ∧ Represents render t v' := by
  simp only [step, h.fault, ne_eq, not_true_eq_false, if_false] at hstep
  rcases h.attempt hfits with herr | ⟨t', v', hok, hvalue, hdone⟩
  · rw [herr] at hstep
    cases hstep
  · rw [hok] at hstep
    cases hstep
    exact ⟨v', hvalue, hdone⟩

/-- A text that does not fit faults. -/
theorem step_of_not_fits (h : Represents render s v) {a : Action} {t : Store} (hfits : ¬Fits render a)
    (hstep : step render s a = some t) : t.fault ≠ none := by
  cases a with
  | constructFailed x failure p garbage =>
      simp only [step, h.fault, ne_eq, not_true_eq_false, if_false, StatusState.attempt, bind,
        Except.bind] at hstep
      rcases h.vacant_cases x with hx | ⟨hx, -, -⟩
      · rw [hx] at hstep
        cases hstep
      rw [hx] at hstep
      cases hp : s.arrays p with
      | none =>
          rw [init_of_not_fits hfits hp] at hstep
          cases hstep
          exact Option.some_ne_none _
      | some bytes =>
          simp only [init, bind, Except.bind,
            allocate_of_taken (hp ▸ rfl : (s.arrays p).isSome = true)] at hstep
          cases hstep
  | construct x => exact absurd trivial hfits
  | copyConstruct x rhs p garbage => exact absurd trivial hfits
  | moveConstruct x rhs => exact absurd trivial hfits
  | copyAssign x rhs p garbage => exact absurd trivial hfits
  | moveAssign x rhs => exact absurd trivial hfits
  | destroy x => exact absurd trivial hfits

end Represents

theorem represents_new (render : Render) : Represents render Store.new fun _ => none where
  fault := rfl
  owns := by
    have hempty : {p : Nat | (Store.new.arrays p).isSome} = ∅ := by simp [Store.new]
    rw [hempty]
    exact Ownership.owns_empty
  denotes _ := .absent

/-! ### What the members of `Status` return -/

theorem typeText_codeByte (c : Code) :
    typeText (codeByte c) = bytesOf (codeName c).toList ++ separator := by
  cases c <;> rfl

theorem codeByte_ne_zero (c : Code) : codeByte c ≠ 0 := by
  cases c <;> decide

theorem codeByte_inj {c d : Code} : codeByte c = codeByte d ↔ c = d := by
  refine ⟨fun h => ?_, congrArg codeByte⟩
  cases c <;> cases d <;> first | rfl | exact absurd h (by decide)

/-- The members of the class say of an object what its value is. -/
theorem Denotes.observed {render : Render} {arrays : Arrays} {state : Option Nat} {status : Status}
    (h : Denotes render arrays (some state) (some status)) :
    state.isNone = status.isOk ∧ (∀ c, isCode arrays c state = .ok (status.hasCode c)) ∧
      toString arrays state = .ok (render.status status) ∧
      message arrays state = render.message status := by
  cases h with
  | ok =>
      refine ⟨rfl, fun c => ?_, rfl, rfl⟩
      have hne : (0 : UInt8) ≠ codeByte c := (codeByte_ne_zero c).symm
      simp [isCode, code, Except.map, hne, Status.hasCode]
  | @failed p failure hlayout hfits =>
      refine ⟨rfl, fun c => ?_, ?_, ?_⟩
      · simp only [isCode, code_layout hlayout, Except.map, Status.hasCode]
        congr 1
        rw [beq_eq_decide, decide_eq_decide]
        exact codeByte_inj
      · rw [toString_layout hlayout hfits, typeText_codeByte]
        rfl
      · exact message_layout hlayout hfits

/-! ### Runs -/

/-- After a program whose texts fit, every object says what its value says, the arrays are those of
the objects, and none is left when there are no objects any more. The message of an object that is ok
must not be asked for. -/
theorem status_objects_are_values {render : Render} {actions : List Action} {s : Store}
    (hfits : Transition.Meets (step render) (fun _ => Fits render) Store.new actions)
    (hrun : Transition.run (step render) Store.new actions = some s) :
    ∃ v, Transition.run valueStep (fun _ => none) actions = some v ∧
      (∀ x, (s.objects x).isSome = (v x).isSome) ∧
      (∀ x state status, s.objects x = some state → v x = some status →
        state.isNone = status.isOk ∧ (∀ c, isCode s.arrays c state = .ok (status.hasCode c)) ∧
          toString s.arrays state = .ok (render.status status) ∧
          message s.arrays state = render.message status) ∧
      ((∀ x, v x = none) → ∀ p, s.arrays p = none) := by
  obtain ⟨v, hv, h⟩ := Refinement.run_simulates
    (fun s v a t hs hfits hstep => step_represents s a t hs hfits hstep) (represents_new render)
    hfits hrun
  refine ⟨v, hv, fun x => ?_, fun x state status hstate hstatus => ?_, fun hempty p => ?_⟩
  · have hx := h.denotes x
    generalize s.objects x = state at hx ⊢
    generalize v x = status at hx ⊢
    cases hx <;> rfl
  · exact (hstate ▸ hstatus ▸ h.denotes x).observed
  · have hheld : ∀ x, s.held x = none := by
      intro x
      have hx := h.denotes x
      rw [hempty x] at hx
      apply held_of_absent
      generalize s.objects x = state at hx ⊢
      cases hx
      rfl
    have hlive := Set.eq_empty_iff_forall_notMem.mp (h.owns.live_eq_empty hheld) p
    exact Option.not_isSome_iff_eq_none.mp hlive

section Example

def plain : Render
  | .text s => bytesOf s.toList
  | .strerror _ => []

def timedOut : Failure := ⟨.kTimeout, .text "connect", some (.text "late")⟩

def garbage : Nat → UInt8 := fun i => UInt8.ofNat i

instance (render : Render) (a : Action) : Decidable (Fits render a) :=
  match a with
  | .constructFailed _ _ _ _ => inferInstanceAs (Decidable (_ < _))
  | .construct _ | .copyConstruct _ _ _ _ | .moveConstruct _ _ | .copyAssign _ _ _ _
  | .moveAssign _ _ | .destroy _ => isTrue trivial

/-- A copy, an assignment whose `new[]` returns the array just deleted, one to itself, and a move. -/
theorem status_objects_are_values_three_objects :
    ∃ s, Transition.run (step plain) Store.new
        [.constructFailed 0 timedOut 7 garbage, .constructFailed 1 ⟨.kInUse, .text "", none⟩ 8 garbage,
          .copyAssign 1 0 8 garbage, .copyAssign 0 0 9 garbage, .destroy 0, .moveConstruct 2 1,
          .destroy 1] = some s ∧
      toString s.arrays (s.held 2) = .ok (bytesOf "Timeout: connect: late".toList) := by
  obtain ⟨s, hrun⟩ : ∃ s, Transition.run (step plain) Store.new
        [.constructFailed 0 timedOut 7 garbage, .constructFailed 1 ⟨.kInUse, .text "", none⟩ 8 garbage,
          .copyAssign 1 0 8 garbage, .copyAssign 0 0 9 garbage, .destroy 0, .moveConstruct 2 1,
          .destroy 1] = some s :=
    Option.isSome_iff_exists.mp (by decide +kernel)
  obtain ⟨v, hv, hsome, hobserved, -⟩ :=
    status_objects_are_values (Transition.meets_of_check (by decide +kernel)) hrun
  have hvalue : v 2 = some (.failed timedOut) := by
    cases hv
    rfl
  obtain ⟨state, hstate⟩ := Option.isSome_iff_exists.mp
    ((hsome 2).trans (congrArg Option.isSome hvalue))
  have hheld : s.held 2 = state := by simp [Store.held, hstate]
  refine ⟨s, hrun, ?_⟩
  rw [hheld, (hobserved 2 state _ hstate hvalue).2.2.1]
  rfl

end Example

def Represented (render : Render) (s : Store) : Prop := ∃ v, Represents render s v

/-- No program faults, whatever its copies, moves, assignments to itself and destructions, as long as
its texts fit; the first text that does not fit is written over the end of its array. -/
theorem status_faultless_iff_fits (render : Render) (actions : List Action) :
    Transition.Along (step render) (fun s => s.fault = none) Store.new actions ↔
      Transition.Meets (step render) (fun _ => Fits render) Store.new actions := by
  have hkeep : ∀ s a t, Represented render s → Fits render a → step render s a = some t →
      Represented render t := by
    rintro s a t ⟨v, h⟩ hfits hstep
    obtain ⟨v', -, h'⟩ := step_represents s a t h hfits hstep
    exact ⟨v', h'⟩
  have hbreak : ∀ s a t, Represented render s → ¬Fits render a → step render s a = some t →
      ¬t.fault = none := by
    rintro s a t ⟨v, h⟩ hfits hstep
    exact step_of_not_fits h hfits hstep
  have hgood : ∀ s, Represented render s → s.fault = none := by
    rintro s ⟨v, h⟩
    exact h.fault
  exact Transition.along_iff_meets hkeep hbreak hgood ⟨_, represents_new render⟩

end StatusState

end Iomgr
