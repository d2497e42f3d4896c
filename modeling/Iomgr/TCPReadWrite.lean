import Iomgr.TCPClientImpl
import Iomgr.TransitionSystem
import Mathlib.Data.List.Nodup

/-!
Reads and writes of a connected client. Events are delivered one at a time; a callback runs inside
its handler and may call the client again before it returns. The members that hold a callback are
cleared only after the callback has returned, so that what the callback stored there is lost.
-/

namespace Iomgr

namespace TCPReadWrite

inductive ReadKind
  | read
  | readIfReady
  deriving DecidableEq, Repr

/-- The calls of the user, numbered in their order: the read and the write that returned `TryAgain`
and are outstanding, and the calls whose callback has been invoked, the latest first. -/
structure Ledger where
  pendingRead : Option (ReadKind × Nat)
  pendingWrite : Option Nat
  invoked : List Nat
  next : Nat
  deriving DecidableEq, Repr

namespace Ledger

def new : Ledger := ⟨none, none, [], 0⟩

/-- A read returns; it is outstanding when it returns `TryAgain`. -/
def readReturns (l : Ledger) (kind : ReadKind) (ret : StatusOr Nat) : Ledger :=
  { l with
    pendingRead := if ret.isTryAgain then some (kind, l.next) else l.pendingRead
    next := l.next + 1 }

def writeReturns (l : Ledger) (ret : StatusOr Nat) : Ledger :=
  { l with
    pendingWrite := if ret.isTryAgain then some l.next else l.pendingWrite
    next := l.next + 1 }

/-- The callback of a call is invoked. -/
def invoke (l : Ledger) (i : Nat) : Ledger :=
  { l with
    pendingRead := l.pendingRead.filter fun p => p.2 != i
    pendingWrite := l.pendingWrite.filter fun j => j != i
    invoked := i :: l.invoked }

/-- The numbers that are taken. -/
def ids (l : Ledger) : List Nat :=
  (l.pendingRead.map Prod.snd).toList ++ (l.pendingWrite.toList ++ l.invoked)

/-- No call is counted twice: outstanding calls have not been invoked, and none was invoked
twice. -/
structure Accounted (l : Ledger) : Prop where
  nodup : l.ids.Nodup
  fresh : ∀ i ∈ l.ids, i < l.next

theorem Accounted.invoked_nodup {l : Ledger} (h : l.Accounted) : l.invoked.Nodup :=
  (List.nodup_append.mp (List.nodup_append.mp h.nodup).2.1).2.1

theorem accounted_new : new.Accounted := ⟨List.nodup_nil, nofun⟩

/-- A number more is taken. -/
theorem Accounted.take {l l' : Ledger} (h : l.Accounted)
    (hids : l'.ids.Perm (l.next :: l.ids)) (hnext : l'.next = l.next + 1) : l'.Accounted := by
  refine ⟨hids.nodup_iff.mpr (List.nodup_cons.mpr ⟨fun hmem => ?_, h.nodup⟩), fun i hi => ?_⟩
  · exact Nat.lt_irrefl _ (h.fresh _ hmem)
  · rw [hnext]
    rcases List.mem_cons.mp (hids.mem_iff.mp hi) with rfl | hold
    · exact Nat.lt_succ_self _
    · exact Nat.lt_succ_of_lt (h.fresh i hold)

/-- Numbers are given up. -/
theorem Accounted.drop {l l' : Ledger} (h : l.Accounted) (hids : l'.ids.Sublist l.ids)
    (hnext : l.next ≤ l'.next) : l'.Accounted :=
  ⟨h.nodup.sublist hids, fun i hi => Nat.lt_of_lt_of_le (h.fresh i (hids.subset hi)) hnext⟩

theorem Accounted.perm {l l' : Ledger} (h : l.Accounted) (hids : l'.ids.Perm l.ids)
    (hnext : l'.next = l.next) : l'.Accounted :=
  ⟨hids.nodup_iff.mpr h.nodup, fun i hi => hnext ▸ h.fresh i (hids.mem_iff.mp hi)⟩

theorem Accounted.readReturns {l : Ledger} (h : l.Accounted) (hnone : l.pendingRead = none)
    (kind : ReadKind) (ret : StatusOr Nat) : (l.readReturns kind ret).Accounted := by
  unfold Ledger.readReturns
  split_ifs
  · apply h.take _ rfl
    simp only [ids, hnone]
    exact List.Perm.refl _
  · exact h.drop (List.Sublist.refl _) (Nat.le_succ _)

theorem Accounted.writeReturns {l : Ledger} (h : l.Accounted) (hnone : l.pendingWrite = none)
    (ret : StatusOr Nat) : (l.writeReturns ret).Accounted := by
  unfold Ledger.writeReturns
  split_ifs
  · apply h.take _ rfl
    simp only [ids, hnone, Option.toList_some, Option.toList_none, List.nil_append,
      List.singleton_append]
    exact List.perm_middle
  · exact h.drop (List.Sublist.refl _) (Nat.le_succ _)

/-- The user gives an outstanding read up. -/
theorem Accounted.dropRead {l : Ledger} (h : l.Accounted) :
    ({ l with pendingRead := none } : Ledger).Accounted :=
  h.drop (List.sublist_append_right _ _) (Nat.le_refl _)

theorem Accounted.dropWrite {l : Ledger} (h : l.Accounted) :
    ({ l with pendingWrite := none } : Ledger).Accounted :=
  h.drop (List.Sublist.append (List.Sublist.refl _) (List.sublist_append_right _ _)) (Nat.le_refl _)

theorem filter_eq_self_of_forall {α : Type} {o : Option α} {p : α → Bool}
    (h : ∀ a, o = some a → p a) : o.filter p = o := by
  cases o with
  | none => rfl
  | some a => exact Option.filter_some_pos (h a rfl)

theorem Accounted.invokeRead {l : Ledger} (h : l.Accounted) {kind : ReadKind} {i : Nat}
    (hpending : l.pendingRead = some (kind, i)) :
    (l.invoke i).Accounted ∧ (l.invoke i).pendingRead = none ∧
      (l.invoke i).pendingWrite = l.pendingWrite := by
  have hnodup := h.nodup
  simp only [ids, hpending, Option.map_some, Option.toList_some, List.singleton_append,
    List.nodup_cons, List.mem_append, not_or] at hnodup
  have hwrite : (l.invoke i).pendingWrite = l.pendingWrite := by
    apply filter_eq_self_of_forall
    rintro j hj
    rw [bne_iff_ne]
    rintro rfl
    exact hnodup.1.1 (Option.mem_toList.mpr hj)
  have hread : (l.invoke i).pendingRead = none := by
    simp [invoke, hpending]
  refine ⟨h.perm ?_ rfl, hread, hwrite⟩
  simp only [ids, hread, hwrite, hpending, Option.map_none, Option.map_some, Option.toList_none,
    Option.toList_some, List.nil_append, List.singleton_append]
  exact List.perm_middle

theorem Accounted.invokeWrite {l : Ledger} (h : l.Accounted) {i : Nat}
    (hpending : l.pendingWrite = some i) :
    (l.invoke i).Accounted ∧ (l.invoke i).pendingWrite = none ∧
      (l.invoke i).pendingRead = l.pendingRead := by
  have hnodup := h.nodup
  simp only [ids, hpending, Option.toList_some, List.singleton_append, List.nodup_append] at hnodup
  have hread : (l.invoke i).pendingRead = l.pendingRead := by
    apply filter_eq_self_of_forall
    rintro ⟨kind, j⟩ hj
    rw [bne_iff_ne]
    refine hnodup.2.2 j ?_ i List.mem_cons_self
    rw [Option.mem_toList, hj]
    rfl
  have hwrite : (l.invoke i).pendingWrite = none := by
    simp [invoke, hpending]
  refine ⟨h.perm ?_ rfl, hwrite, hread⟩
  simp only [ids, hread, hwrite, hpending, Option.toList_none, Option.toList_some, List.nil_append,
    List.singleton_append]
  exact List.Perm.refl _

end Ledger

/-- The client, the statements its running handler has left (none between two events), and the
calls of the user. `checkFailed` records that a call found an operation of its kind pending though
the user had none outstanding, `emptyInvoked` that a handler has invoked an empty callback. -/
structure System (Buffer Address : Type) where
  client : TCPClientImpl Nat Buffer Address
  frames : List Frame
  calls : Ledger
  checkFailed : Bool
  emptyInvoked : Bool

/-- Calls of the user, from outside or from within a callback; events; and `ret`, the return of the
callback to the handler that has invoked it. -/
inductive Action (Buffer : Type)
  | read (buf : Buffer) (bufLen : Int) (doRead : SysResult) (watch : Watch)
  | readIfReady (doRead : SysResult) (watch : Watch)
  | cancelReadIfReady
  | write (buf : Buffer) (bufLen : Int) (doWrite : SysResult) (watch : Watch)
  | disconnect
  | readable (doRead : SysResult) (watch : Watch)
  | writable (soError : Int) (doWrite : SysResult)
  | ret
  deriving DecidableEq, Repr

/-- `epoll_ctl`, which makes a registration fail, never sets `EAGAIN`. -/
def Possible (watch : Watch) : Prop := watch ≠ .failed EAGAIN

instance (watch : Watch) : Decidable (Possible watch) := inferInstanceAs (Decidable (_ ≠ _))

variable {Buffer Address : Type}

def start (client : TCPClientImpl Nat Buffer Address) : System Buffer Address :=
  ⟨client, [], .new, false, false⟩

/-- The user calls a read only when connected and with no read outstanding. -/
def System.MayRead (s : System Buffer Address) : Prop :=
  s.client.connectState = .kConnected ∧ s.calls.pendingRead = none

def System.MayWrite (s : System Buffer Address) : Prop :=
  s.client.connectState = .kConnected ∧ s.calls.pendingWrite = none

instance (s : System Buffer Address) : Decidable s.MayRead := inferInstanceAs (Decidable (_ ∧ _))

instance (s : System Buffer Address) : Decidable s.MayWrite := inferInstanceAs (Decidable (_ ∧ _))

def System.readReturns (s : System Buffer Address) (kind : ReadKind)
    (ret : StatusOr Nat × TCPClientImpl Nat Buffer Address) : System Buffer Address :=
  { s with
    client := ret.2
    calls := s.calls.readReturns kind ret.1
    checkFailed := s.checkFailed || s.client.readIfReadyCallback.isSome }

def System.writeReturns (s : System Buffer Address)
    (ret : StatusOr Nat × TCPClientImpl Nat Buffer Address) : System Buffer Address :=
  { s with
    client := ret.2
    calls := s.calls.writeReturns ret.1
    checkFailed := s.checkFailed || s.client.writeCallback.isSome }

/-- A handler runs to its end or to the callback it invokes. -/
def System.handle (s : System Buffer Address) :
    TCPClientImpl Nat Buffer Address × Option (Invocation Nat) → System Buffer Address
  | (client, none) => { s with client := client }
  | (client, some ⟨none, _, rest⟩) =>
      { s with client := client, frames := rest, emptyInvoked := true }
  | (client, some ⟨some i, _, rest⟩) =>
      { s with client := client, frames := rest, calls := s.calls.invoke i }

def step (s : System Buffer Address) : Action Buffer → Option (System Buffer Address)
  | .read buf bufLen doRead watch =>
      if s.MayRead ∧ Possible watch then
        some (s.readReturns .read (s.client.read buf bufLen s.calls.next doRead watch))
      else none
  | .readIfReady doRead watch =>
      if s.MayRead ∧ Possible watch then
        some (s.readReturns .readIfReady
          (s.client.readIfReady (.user s.calls.next) doRead watch))
      else none
  | .cancelReadIfReady =>
      match s.calls.pendingRead with
      | some (.readIfReady, _) =>
          some { s with
            client := s.client.cancelReadIfReady
            calls := { s.calls with pendingRead := none } }
      | _ => none
  | .write buf bufLen doWrite watch =>
      if s.MayWrite ∧ Possible watch then
        some (s.writeReturns (s.client.write buf bufLen s.calls.next doWrite watch))
      else none
  | .disconnect =>
      some { s with
        client := s.client.disconnect
        calls := { s.calls with pendingRead := none, pendingWrite := none } }
  | .readable doRead watch =>
      if s.frames = [] ∧ s.client.readSocketController = true ∧ Possible watch then
        some (s.handle (s.client.onFileReadable doRead watch))
      else none
  | .writable soError doWrite =>
      if s.frames = [] ∧ s.client.writeSocketController = true then
        some (s.handle (s.client.onFileWritable soError doWrite))
      else none
  | .ret =>
      if s.frames = [] then none
      else some { s with client := s.client.resumeAll s.frames, frames := [] }

/-! ### What the user relies on -/

/-- The handler invokes the callback of the call. -/
def Invokes (i : Nat)
    (handled : TCPClientImpl Nat Buffer Address × Option (Invocation Nat)) : Prop :=
  ∃ invocation, handled.2 = some invocation ∧ invocation.callback = some i

/-- An outstanding call is not lost: its socket is watched, and the next event that does not find
that the call would block again invokes its callback. -/
structure Served (s : System Buffer Address) : Prop where
  read : ∀ i, s.calls.pendingRead = some (.read, i) → s.client.readSocketController = true ∧
    ∀ doRead watch, (FileOp.transfer doRead).isTryAgain = false →
      Invokes i (s.client.onFileReadable doRead watch)
  readIfReady : ∀ i, s.calls.pendingRead = some (.readIfReady, i) →
    s.client.readSocketController = true ∧
      ∀ doRead watch, Invokes i (s.client.onFileReadable doRead watch)
  write : ∀ i, s.calls.pendingWrite = some i → s.client.writeSocketController = true ∧
    ∀ soError doWrite, (FileOp.transfer doWrite).isTryAgain = false →
      Invokes i (s.client.onFileWritable soError doWrite)

/-- Every entry check has held, no empty callback was invoked, none was invoked twice, and between
two events no outstanding call is lost. -/
structure Reliable (s : System Buffer Address) : Prop where
  checks : s.checkFailed = false
  full : s.emptyInvoked = false
  once : s.calls.invoked.Nodup
  served : s.frames = [] → Served s

/-- The condition on a run: no callback of a read issues a read, no callback of a write issues a
write, and no readable event for a pending `Read` finds that it would block and registers again. -/
def InTurn (s : System Buffer Address) : Action Buffer → Prop
  | .read _ _ _ _ | .readIfReady _ _ => .readDone ∉ s.frames
  | .write _ _ _ _ => .writeDone ∉ s.frames
  | .readable doRead watch => s.client.readIfReadyCallback = some .retryRead →
      ¬((FileOp.transfer doRead).isTryAgain = true ∧ watch = .registered)
  | _ => True

instance (s : System Buffer Address) (a : Action Buffer) :
    Decidable (InTurn s a) :=
  match a with
  | .read _ _ _ _ | .readIfReady _ _ | .write _ _ _ _ => inferInstanceAs (Decidable (_ ∉ _))
  | .readable _ _ => inferInstanceAs (Decidable (_ → ¬(_ ∧ _)))
  | .cancelReadIfReady | .disconnect | .writable _ _ | .ret => isTrue trivial

/-! ### One call and one handler of the client -/

/-- A read returns with no effect, or it is pending. -/
theorem readIfReady_cases (Buffer Address : Type) {watch : Watch} (hwatch : Possible watch)
    (callback : ReadIfReadyCallback Nat) (doRead : SysResult) :
    (((FileOp.transfer doRead).isTryAgain = true ∧ watch = .registered) ∧
      ∃ ret, ret.isTryAgain = true ∧ ∀ c : TCPClientImpl Nat Buffer Address,
        c.readIfReady callback doRead watch =
          (ret, { c with readSocketController := true, readIfReadyCallback := some callback })) ∨
    (¬((FileOp.transfer doRead).isTryAgain = true ∧ watch = .registered) ∧
      ∃ ret, ret.isTryAgain = false ∧ ∀ c : TCPClientImpl Nat Buffer Address,
        c.readIfReady callback doRead watch = (ret, c)) := by
  cases hret : (FileOp.transfer doRead).isTryAgain with
  | false =>
      refine Or.inr ⟨fun h => Bool.noConfusion h.1, _, hret, fun c => ?_⟩
      simp [TCPClientImpl.readIfReady, hret]
  | true =>
      cases watch with
      | registered =>
          refine Or.inl ⟨⟨rfl, rfl⟩, .ofStatus (.tryAgain (.text "READ PENDING")), rfl, fun c => ?_⟩
          simp [TCPClientImpl.readIfReady, hret]
      | failed e =>
          refine Or.inr ⟨fun h => (nomatch h.2), StatusOr.ofStatus (mapSystemError e), ?_, fun c => ?_⟩
          · rw [StatusOr.isTryAgain_ofStatus, Bool.eq_false_iff, Ne, mapSystemError_isTryAgain]
            rintro rfl
            exact hwatch rfl
          · simp [TCPClientImpl.readIfReady, hret]

theorem write_cases {watch : Watch} (hwatch : Possible watch) (buf : Buffer) (bufLen : Int)
    (callback : Nat) (doWrite : SysResult) (c : TCPClientImpl Nat Buffer Address) :
    (∃ ret, ret.isTryAgain = true ∧ c.write buf bufLen callback doWrite watch =
      (ret, { c with
        writeSocketController := true
        writeBuf := some buf
        writeBufLen := bufLen
        writeCallback := some callback })) ∨
    ∃ ret, ret.isTryAgain = false ∧ c.write buf bufLen callback doWrite watch = (ret, c) := by
  cases hret : (FileOp.transfer doWrite).isTryAgain with
  | false =>
      refine Or.inr ⟨_, hret, ?_⟩
      simp [TCPClientImpl.write, hret]
  | true =>
      cases watch with
      | registered =>
          refine Or.inl ⟨.ofStatus (.tryAgain (.text "WRITE PENDING")), rfl, ?_⟩
          simp [TCPClientImpl.write, hret]
      | failed e =>
          refine Or.inr ⟨StatusOr.ofStatus (mapSystemError e), ?_, ?_⟩
          · rw [StatusOr.isTryAgain_ofStatus, Bool.eq_false_iff, Ne, mapSystemError_isTryAgain]
            rintro rfl
            exact hwatch rfl
          · simp [TCPClientImpl.write, hret]

theorem onFileReadable_user {c : TCPClientImpl Nat Buffer Address} {i : Nat}
    (h : c.readIfReadyCallback = some (.user i)) (doRead : SysResult) (watch : Watch) :
    c.onFileReadable doRead watch =
      ({ c with readSocketController := false }, some ⟨some i, .status .ok, [.readDone]⟩) := by
  simp only [TCPClientImpl.onFileReadable, TCPClientImpl.onReadDone, h]

/-- `RetryRead` gets a result. -/
theorem onFileReadable_retryRead {c : TCPClientImpl Nat Buffer Address}
    (h : c.readIfReadyCallback = some .retryRead) {doRead : SysResult} {watch : Watch}
    {ret : StatusOr Nat} (hret : ret.isTryAgain = false)
    (hread : ∀ c : TCPClientImpl Nat Buffer Address, c.readIfReady .retryRead doRead watch = (ret, c)) :
    c.onFileReadable doRead watch =
      ({ c with readSocketController := false, readBuf := none, readBufLen := 0 },
        some ⟨c.readCallback, .statusOr ret, [.retryRead, .readDone]⟩) := by
  simp only [TCPClientImpl.onFileReadable, TCPClientImpl.onReadDone, TCPClientImpl.retryRead, h,
    hread, hret]
  rfl

/-- `RetryRead` registers again, and the `RetryRead` it has stored is cleared on the way out. -/
theorem onFileReadable_blocked {c : TCPClientImpl Nat Buffer Address}
    (h : c.readIfReadyCallback = some .retryRead) {doRead : SysResult}
    (hret : (FileOp.transfer doRead).isTryAgain = true) :
    c.onFileReadable doRead .registered =
      ({ c with readSocketController := true, readIfReadyCallback := none }, none) := by
  simp [TCPClientImpl.onFileReadable, TCPClientImpl.onReadDone, TCPClientImpl.retryRead,
    TCPClientImpl.readIfReady, TCPClientImpl.resume, Status.tryAgain, Status.isTryAgain,
    Status.hasCode, h, hret]

theorem onFileWritable_blocked {c : TCPClientImpl Nat Buffer Address}
    (hstate : c.connectState ≠ .kConnecting) (soError : Int) {doWrite : SysResult}
    (hret : (FileOp.transfer doWrite).isTryAgain = true) :
    c.onFileWritable soError doWrite = (c, none) := by
  simp [TCPClientImpl.onFileWritable, TCPClientImpl.onWriteDone, hstate, hret]

theorem onFileWritable_done {c : TCPClientImpl Nat Buffer Address}
    (hstate : c.connectState ≠ .kConnecting) (soError : Int) {doWrite : SysResult}
    (hret : (FileOp.transfer doWrite).isTryAgain = false) :
    c.onFileWritable soError doWrite =
      ({ c with writeSocketController := false, writeBuf := none, writeBufLen := 0 },
        some ⟨c.writeCallback, .statusOr (FileOp.transfer doWrite), [.writeDone]⟩) := by
  simp [TCPClientImpl.onFileWritable, TCPClientImpl.onWriteDone, hstate, hret]

/-! ### The invariant -/

/-- The members of the read side: an outstanding call is armed; otherwise the callback member is
empty, but for the time its handler has it running. -/
def ReadArmed (c : TCPClientImpl Nat Buffer Address) (inHandler : Bool) :
    Option (ReadKind × Nat) → Prop
  | some (.read, i) => c.readSocketController = true ∧ c.readIfReadyCallback = some .retryRead ∧
      c.readCallback = some i ∧ inHandler = false
  | some (.readIfReady, i) => c.readSocketController = true ∧
      c.readIfReadyCallback = some (.user i) ∧ inHandler = false
  | none => c.readSocketController = false ∧ c.readIfReadyCallback.isSome = inHandler

def WriteArmed (c : TCPClientImpl Nat Buffer Address) (inHandler : Bool) : Option Nat → Prop
  | some i => c.writeSocketController = true ∧ c.writeCallback = some i ∧ inHandler = false
  | none => c.writeSocketController = false ∧ c.writeCallback.isSome = inHandler

/-- Nothing is outstanding while the callback runs. -/
theorem ReadArmed.eq_none {c : TCPClientImpl Nat Buffer Address} {p : Option (ReadKind × Nat)}
    (h : ReadArmed c true p) : p = none := by
  rcases p with _ | ⟨kind, i⟩
  · rfl
  · cases kind with
    | read => exact Bool.noConfusion h.2.2.2
    | readIfReady => exact Bool.noConfusion h.2.2

theorem WriteArmed.eq_none {c : TCPClientImpl Nat Buffer Address} {p : Option Nat}
    (h : WriteArmed c true p) : p = none := by
  cases p with
  | none => rfl
  | some i => exact Bool.noConfusion h.2.2

/-- The read side sees only its own members. -/
theorem ReadArmed.of_eq {c c' : TCPClientImpl Nat Buffer Address} {b : Bool}
    {p : Option (ReadKind × Nat)} (h : ReadArmed c b p)
    (hwatch : c'.readSocketController = c.readSocketController)
    (hready : c'.readIfReadyCallback = c.readIfReadyCallback)
    (hcallback : c'.readCallback = c.readCallback) : ReadArmed c' b p := by
  unfold ReadArmed at h ⊢
  rw [hwatch, hready, hcallback]
  exact h

theorem WriteArmed.of_eq {c c' : TCPClientImpl Nat Buffer Address} {b : Bool} {p : Option Nat}
    (h : WriteArmed c b p) (hwatch : c'.writeSocketController = c.writeSocketController)
    (hcallback : c'.writeCallback = c.writeCallback) : WriteArmed c' b p := by
  unfold WriteArmed at h ⊢
  rw [hwatch, hcallback]
  exact h

/-- The handler clears the callback member after the callback: nothing is outstanding then. -/
theorem ReadArmed.cleared {c c' : TCPClientImpl Nat Buffer Address} {p : Option (ReadKind × Nat)}
    (h : ReadArmed c true p) (hwatch : c'.readSocketController = c.readSocketController)
    (hready : c'.readIfReadyCallback = none) : ReadArmed c' false p := by
  obtain rfl := h.eq_none
  refine ⟨hwatch.trans h.1, ?_⟩
  rw [hready]
  rfl

theorem WriteArmed.cleared {c c' : TCPClientImpl Nat Buffer Address} {p : Option Nat}
    (h : WriteArmed c true p) (hwatch : c'.writeSocketController = c.writeSocketController)
    (hcallback : c'.writeCallback = none) : WriteArmed c' false p := by
  obtain rfl := h.eq_none
  refine ⟨hwatch.trans h.1, ?_⟩
  rw [hcallback]
  rfl

def System.inRead (s : System Buffer Address) : Bool := decide (.readDone ∈ s.frames)

def System.inWrite (s : System Buffer Address) : Bool := decide (.writeDone ∈ s.frames)

/-- A client that is not connected waits for nothing. -/
structure Closed (s : System Buffer Address) : Prop where
  pendingRead : s.calls.pendingRead = none
  pendingWrite : s.calls.pendingWrite = none
  read : s.client.readSocketController = false
  write : s.client.writeSocketController = false

structure Inv (s : System Buffer Address) : Prop where
  state : s.client.connectState ≠ .kConnecting
  frames : s.frames = [] ∨ s.frames = [.readDone] ∨ s.frames = [.retryRead, .readDone] ∨
    s.frames = [.writeDone]
  checks : s.checkFailed = false
  full : s.emptyInvoked = false
  accounted : s.calls.Accounted
  read : s.client.connectState = .kConnected → ReadArmed s.client s.inRead s.calls.pendingRead
  write : s.client.connectState = .kConnected → WriteArmed s.client s.inWrite s.calls.pendingWrite
  closed : s.client.connectState ≠ .kConnected → Closed s

/-- A client that waits for something is connected. -/
theorem Inv.connected {s : System Buffer Address} (h : Inv s) (hopen : ¬Closed s) :
    s.client.connectState = .kConnected := by
  by_contra hstate
  exact hopen (h.closed hstate)

theorem Inv.connected_of_read {s : System Buffer Address} (h : Inv s)
    (hwatch : s.client.readSocketController = true) : s.client.connectState = .kConnected := by
  refine h.connected fun hclosed => ?_
  rw [hclosed.read] at hwatch
  cases hwatch

theorem Inv.connected_of_write {s : System Buffer Address} (h : Inv s)
    (hwatch : s.client.writeSocketController = true) : s.client.connectState = .kConnected := by
  refine h.connected fun hclosed => ?_
  rw [hclosed.write] at hwatch
  cases hwatch

/-- While the socket is watched for a read, the read is outstanding. -/
theorem Inv.pendingRead {s : System Buffer Address} (h : Inv s)
    (hwatch : s.client.readSocketController = true) :
    ∃ kind i, s.calls.pendingRead = some (kind, i) ∧
      ReadArmed s.client s.inRead (some (kind, i)) := by
  have harmed := h.read (h.connected_of_read hwatch)
  cases hpending : s.calls.pendingRead with
  | some p =>
      rw [hpending] at harmed
      exact ⟨p.1, p.2, rfl, harmed⟩
  | none =>
      rw [hpending] at harmed
      rw [harmed.1] at hwatch
      cases hwatch

theorem Inv.pendingWrite {s : System Buffer Address} (h : Inv s)
    (hwatch : s.client.writeSocketController = true) : ∃ i, s.calls.pendingWrite = some i := by
  have harmed := h.write (h.connected_of_write hwatch)
  cases hpending : s.calls.pendingWrite with
  | some i => exact ⟨i, rfl⟩
  | none =>
      rw [hpending] at harmed
      rw [harmed.1] at hwatch
      cases hwatch

theorem Inv.connected_of_pendingRead {s : System Buffer Address} (h : Inv s)
    {p : ReadKind × Nat} (hpending : s.calls.pendingRead = some p) :
    s.client.connectState = .kConnected := by
  refine h.connected fun hclosed => ?_
  rw [hclosed.pendingRead] at hpending
  cases hpending

theorem Inv.connected_of_pendingWrite {s : System Buffer Address} (h : Inv s) {i : Nat}
    (hpending : s.calls.pendingWrite = some i) : s.client.connectState = .kConnected := by
  refine h.connected fun hclosed => ?_
  rw [hclosed.pendingWrite] at hpending
  cases hpending

theorem Inv.served {s : System Buffer Address} (h : Inv s) : Served s := by
  refine ⟨fun i hi => ?_, fun i hi => ?_, fun i hi => ?_⟩
  · have harmed := h.read (h.connected_of_pendingRead hi)
    rw [hi] at harmed
    obtain ⟨hwatch, hretry, hcallback, _⟩ := harmed
    refine ⟨hwatch, fun doRead watch hret => ?_⟩
    rw [onFileReadable_retryRead hretry hret fun c => by simp [TCPClientImpl.readIfReady, hret]]
    exact ⟨_, rfl, hcallback⟩
  · have harmed := h.read (h.connected_of_pendingRead hi)
    rw [hi] at harmed
    obtain ⟨hwatch, huser, _⟩ := harmed
    refine ⟨hwatch, fun doRead watch => ?_⟩
    rw [onFileReadable_user huser]
    exact ⟨_, rfl, rfl⟩
  · have harmed := h.write (h.connected_of_pendingWrite hi)
    rw [hi] at harmed
    obtain ⟨hwatch, hcallback, _⟩ := harmed
    refine ⟨hwatch, fun soError doWrite hret => ?_⟩
    rw [onFileWritable_done h.state soError hret]
    exact ⟨_, rfl, hcallback⟩

theorem Inv.reliable {s : System Buffer Address} (h : Inv s) : Reliable s :=
  ⟨h.checks, h.full, h.accounted.invoked_nodup, fun _ => h.served⟩

/-! ### Calls of the user -/

/-- A read that is made in its turn finds its entry check true, and is armed when it is pending. -/
theorem Inv.readReturns {s : System Buffer Address} (h : Inv s) (hmay : s.MayRead)
    (hturn : .readDone ∉ s.frames) {kind : ReadKind}
    {ret : StatusOr Nat × TCPClientImpl Nat Buffer Address}
    (hread : ret.1.isTryAgain = true ∧ ReadArmed ret.2 false (some (kind, s.calls.next)) ∨
      ret.1.isTryAgain = false ∧ ret.2 = s.client)
    (hstate : ret.2.connectState = s.client.connectState)
    (hwatch : ret.2.writeSocketController = s.client.writeSocketController)
    (hcallback : ret.2.writeCallback = s.client.writeCallback) : Inv (s.readReturns kind ret) := by
  obtain ⟨hconnected, hnone⟩ := hmay
  have hin : s.inRead = false := decide_eq_false hturn
  have harmed := h.read hconnected
  rw [hnone, hin] at harmed
  have hcheck : s.client.readIfReadyCallback.isSome = false := harmed.2
  refine ⟨?_, h.frames, ?_, h.full, h.accounted.readReturns hnone kind ret.1, fun _ => ?_,
    fun _ => (h.write hconnected).of_eq hwatch hcallback,
    fun hclosed => absurd (hstate.trans hconnected) hclosed⟩
  · rw [System.readReturns, hstate]
    exact h.state
  · show (s.checkFailed || s.client.readIfReadyCallback.isSome) = false
    rw [h.checks, hcheck]
    rfl
  · show ReadArmed ret.2 s.inRead (if ret.1.isTryAgain then some (kind, s.calls.next)
      else s.calls.pendingRead)
    rw [hin]
    rcases hread with ⟨htry, hnew⟩ | ⟨hdone, hsame⟩
    · rw [if_pos htry]
      exact hnew
    · rw [hdone, hsame, hnone]
      exact harmed

theorem Inv.writeReturns {s : System Buffer Address} (h : Inv s) (hmay : s.MayWrite)
    (hturn : .writeDone ∉ s.frames) {ret : StatusOr Nat × TCPClientImpl Nat Buffer Address}
    (hwrite : ret.1.isTryAgain = true ∧ WriteArmed ret.2 false (some s.calls.next) ∨
      ret.1.isTryAgain = false ∧ ret.2 = s.client)
    (hstate : ret.2.connectState = s.client.connectState)
    (hwatch : ret.2.readSocketController = s.client.readSocketController)
    (hready : ret.2.readIfReadyCallback = s.client.readIfReadyCallback)
    (hcallback : ret.2.readCallback = s.client.readCallback) : Inv (s.writeReturns ret) := by
  obtain ⟨hconnected, hnone⟩ := hmay
  have hin : s.inWrite = false := decide_eq_false hturn
  have harmed := h.write hconnected
  rw [hnone, hin] at harmed
  have hcheck : s.client.writeCallback.isSome = false := harmed.2
  refine ⟨?_, h.frames, ?_, h.full, h.accounted.writeReturns hnone ret.1,
    fun _ => (h.read hconnected).of_eq hwatch hready hcallback, fun _ => ?_,
    fun hclosed => absurd (hstate.trans hconnected) hclosed⟩
  · rw [System.writeReturns, hstate]
    exact h.state
  · show (s.checkFailed || s.client.writeCallback.isSome) = false
    rw [h.checks, hcheck]
    rfl
  · show WriteArmed ret.2 s.inWrite (if ret.1.isTryAgain then some s.calls.next
      else s.calls.pendingWrite)
    rw [hin]
    rcases hwrite with ⟨htry, hnew⟩ | ⟨hdone, hsame⟩
    · rw [if_pos htry]
      exact hnew
    · rw [hdone, hsame, hnone]
      exact harmed

theorem Inv.read_call {s : System Buffer Address} (h : Inv s) (hmay : s.MayRead)
    (hturn : .readDone ∉ s.frames) {watch : Watch} (hwatch : Possible watch) (buf : Buffer)
    (bufLen : Int) (doRead : SysResult) :
    Inv (s.readReturns .read (s.client.read buf bufLen s.calls.next doRead watch)) := by
  rcases readIfReady_cases Buffer Address hwatch .retryRead doRead with
    ⟨_, ret, hret, heq⟩ | ⟨_, ret, hret, heq⟩
  · have hread : s.client.read buf bufLen s.calls.next doRead watch = (ret, { s.client with
        readSocketController := true
        readIfReadyCallback := some .retryRead
        readBuf := some buf
        readBufLen := bufLen
        readCallback := some s.calls.next }) := by
      simp [TCPClientImpl.read, heq, hret]
    rw [hread]
    exact h.readReturns hmay hturn (Or.inl ⟨hret, rfl, rfl, rfl, rfl⟩) rfl rfl rfl
  · have hread : s.client.read buf bufLen s.calls.next doRead watch = (ret, s.client) := by
      simp [TCPClientImpl.read, heq, hret]
    rw [hread]
    exact h.readReturns hmay hturn (Or.inr ⟨hret, rfl⟩) rfl rfl rfl

theorem Inv.readIfReady_call {s : System Buffer Address} (h : Inv s) (hmay : s.MayRead)
    (hturn : .readDone ∉ s.frames) {watch : Watch} (hwatch : Possible watch) (doRead : SysResult) :
    Inv (s.readReturns .readIfReady
      (s.client.readIfReady (.user s.calls.next) doRead watch)) := by
  rcases readIfReady_cases Buffer Address hwatch (.user s.calls.next) doRead with
    ⟨_, ret, hret, heq⟩ | ⟨_, ret, hret, heq⟩
  · rw [heq]
    exact h.readReturns hmay hturn (Or.inl ⟨hret, rfl, rfl, rfl⟩) rfl rfl rfl
  · rw [heq]
    exact h.readReturns hmay hturn (Or.inr ⟨hret, rfl⟩) rfl rfl rfl

theorem Inv.write_call {s : System Buffer Address} (h : Inv s) (hmay : s.MayWrite)
    (hturn : .writeDone ∉ s.frames) {watch : Watch} (hwatch : Possible watch) (buf : Buffer)
    (bufLen : Int) (doWrite : SysResult) :
    Inv (s.writeReturns (s.client.write buf bufLen s.calls.next doWrite watch)) := by
  rcases write_cases hwatch buf bufLen s.calls.next doWrite s.client with
    ⟨ret, hret, heq⟩ | ⟨ret, hret, heq⟩
  · rw [heq]
    exact h.writeReturns hmay hturn (Or.inl ⟨hret, rfl, rfl, rfl⟩) rfl rfl rfl rfl
  · rw [heq]
    exact h.writeReturns hmay hturn (Or.inr ⟨hret, rfl⟩) rfl rfl rfl rfl

theorem Inv.cancel {s : System Buffer Address} (h : Inv s) {i : Nat}
    (hpending : s.calls.pendingRead = some (.readIfReady, i)) :
    Inv { s with
      client := s.client.cancelReadIfReady
      calls := { s.calls with pendingRead := none } } := by
  have hconnected := h.connected_of_pendingRead hpending
  have harmed := h.read hconnected
  rw [hpending] at harmed
  obtain ⟨_, _, hin⟩ := harmed
  exact ⟨h.state, h.frames, h.checks, h.full, h.accounted.dropRead, fun _ => ⟨rfl, hin.symm⟩,
    fun hstate => (h.write hstate).of_eq rfl rfl, fun hstate => absurd hconnected hstate⟩

theorem Inv.disconnect {s : System Buffer Address} (h : Inv s) :
    Inv { s with
      client := s.client.disconnect
      calls := { s.calls with pendingRead := none, pendingWrite := none } } :=
  ⟨nofun, h.frames, h.checks, h.full, h.accounted.dropRead.dropWrite, nofun, nofun,
    fun _ => ⟨rfl, rfl, rfl, rfl⟩⟩

/-! ### Events and the return of a callback -/

/-- The handler of a readable event invokes the callback of the outstanding read. -/
theorem Inv.invokeRead {s : System Buffer Address} (h : Inv s) (hframes : s.frames = [])
    {kind : ReadKind} {i : Nat} (hpending : s.calls.pendingRead = some (kind, i))
    {client : TCPClientImpl Nat Buffer Address} {rest : List Frame}
    (hrest : rest = [.readDone] ∨ rest = [.retryRead, .readDone])
    (hstate : client.connectState = s.client.connectState)
    (hread : client.readSocketController = false ∧ client.readIfReadyCallback.isSome = true)
    (hwatch : client.writeSocketController = s.client.writeSocketController)
    (hcallback : client.writeCallback = s.client.writeCallback) :
    Inv { s with client := client, frames := rest, calls := s.calls.invoke i } := by
  have hconnected := h.connected_of_pendingRead hpending
  obtain ⟨haccounted, hnone, hsame⟩ := h.accounted.invokeRead hpending
  have harmed := h.write hconnected
  rw [System.inWrite, hframes] at harmed
  refine ⟨?_, ?_, h.checks, h.full, haccounted, fun _ => ?_, fun _ => ?_,
    fun hclosed => absurd (hstate.trans hconnected) hclosed⟩
  · rw [hstate]
    exact h.state
  · rcases hrest with rfl | rfl
    · exact Or.inr (Or.inl rfl)
    · exact Or.inr (Or.inr (Or.inl rfl))
  · show ReadArmed client (decide (.readDone ∈ rest)) (s.calls.invoke i).pendingRead
    rw [hnone]
    rcases hrest with rfl | rfl <;> exact hread
  · show WriteArmed client (decide (.writeDone ∈ rest)) (s.calls.invoke i).pendingWrite
    rw [hsame]
    rcases hrest with rfl | rfl <;> exact harmed.of_eq hwatch hcallback

theorem Inv.readable {s : System Buffer Address} (h : Inv s) (hframes : s.frames = [])
    (hwatching : s.client.readSocketController = true) {doRead : SysResult} {watch : Watch}
    (hwatch : Possible watch) (hturn : InTurn s (.readable doRead watch)) :
    Inv (s.handle (s.client.onFileReadable doRead watch)) := by
  obtain ⟨kind, i, hpending, harmed⟩ := h.pendingRead hwatching
  cases kind with
  | readIfReady =>
      obtain ⟨_, huser, _⟩ := harmed
      rw [onFileReadable_user huser]
      refine h.invokeRead hframes hpending (Or.inl rfl) rfl ⟨rfl, ?_⟩ rfl rfl
      rw [huser]
      rfl
  | read =>
      obtain ⟨_, hretry, hcallback, _⟩ := harmed
      rcases readIfReady_cases Buffer Address hwatch .retryRead doRead with
        ⟨hblocked, _⟩ | ⟨_, ret, hret, heq⟩
      · exact absurd hblocked (hturn hretry)
      · rw [onFileReadable_retryRead hretry hret heq, hcallback]
        refine h.invokeRead hframes hpending (Or.inr rfl) rfl ⟨rfl, ?_⟩ rfl rfl
        rw [hretry]
        rfl

theorem Inv.writable {s : System Buffer Address} (h : Inv s) (hframes : s.frames = [])
    (hwatching : s.client.writeSocketController = true) (soError : Int) (doWrite : SysResult) :
    Inv (s.handle (s.client.onFileWritable soError doWrite)) := by
  cases hret : (FileOp.transfer doWrite).isTryAgain with
  | true =>
      rw [onFileWritable_blocked h.state soError hret]
      exact h
  | false =>
      obtain ⟨i, hpending⟩ := h.pendingWrite hwatching
      have hconnected := h.connected_of_write hwatching
      have harmed := h.write hconnected
      rw [hpending] at harmed
      obtain ⟨_, hcallback, _⟩ := harmed
      obtain ⟨haccounted, hnone, hsame⟩ := h.accounted.invokeWrite hpending
      have hread := h.read hconnected
      rw [System.inRead, hframes] at hread
      rw [onFileWritable_done h.state soError hret, hcallback]
      refine ⟨h.state, Or.inr (Or.inr (Or.inr rfl)), h.checks, h.full, haccounted, fun _ => ?_,
        fun _ => ?_, fun hclosed => absurd hconnected hclosed⟩
      · show ReadArmed _ false (s.calls.invoke i).pendingRead
        rw [hsame]
        exact hread.of_eq rfl rfl rfl
      · show WriteArmed _ true (s.calls.invoke i).pendingWrite
        rw [hnone]
        exact ⟨rfl, rfl⟩

theorem Inv.return {s : System Buffer Address} (h : Inv s) (hframes : s.frames ≠ []) :
    Inv { s with client := s.client.resumeAll s.frames, frames := [] } := by
  have hread := h.read
  have hwrite := h.write
  have hclosed := h.closed
  rw [System.inRead] at hread
  rw [System.inWrite] at hwrite
  rcases h.frames with hnil | heq | heq | heq
  · exact absurd hnil hframes
  all_goals
    rw [heq] at hread hwrite
    rw [heq]
    refine ⟨h.state, Or.inl rfl, h.checks, h.full, h.accounted, fun hstate => ?_, fun hstate => ?_,
      fun hstate => ⟨(hclosed hstate).1, (hclosed hstate).2, (hclosed hstate).3, (hclosed hstate).4⟩⟩
  -- the handler of a read, of a retried read and of a write, each with its read and write side
  · exact ReadArmed.cleared (hread hstate) rfl rfl
  · exact WriteArmed.of_eq (hwrite hstate) rfl rfl
  · exact ReadArmed.cleared (hread hstate) rfl rfl
  · exact WriteArmed.of_eq (hwrite hstate) rfl rfl
  · exact ReadArmed.of_eq (hread hstate) rfl rfl rfl
  · exact WriteArmed.cleared (hwrite hstate) rfl rfl

theorem step_inv (s : System Buffer Address) (a : Action Buffer) (t : System Buffer Address)
    (h : Inv s) (hturn : InTurn s a) (hstep : step s a = some t) : Inv t := by
  cases a with
  | read buf bufLen doRead watch =>
      simp only [step] at hstep
      split_ifs at hstep with hmay
      cases hstep
      exact h.read_call hmay.1 hturn hmay.2 buf bufLen doRead
  | readIfReady doRead watch =>
      simp only [step] at hstep
      split_ifs at hstep with hmay
      cases hstep
      exact h.readIfReady_call hmay.1 hturn hmay.2 doRead
  | cancelReadIfReady =>
      simp only [step] at hstep
      split at hstep
      · next i hpending =>
          cases hstep
          exact h.cancel hpending
      · cases hstep
  | write buf bufLen doWrite watch =>
      simp only [step] at hstep
      split_ifs at hstep with hmay
      cases hstep
      exact h.write_call hmay.1 hturn hmay.2 buf bufLen doWrite
  | disconnect =>
      cases hstep
      exact h.disconnect
  | readable doRead watch =>
      simp only [step] at hstep
      split_ifs at hstep with hready
      cases hstep
      exact h.readable hready.1 hready.2.1 hready.2.2 hturn
  | writable soError doWrite =>
      simp only [step] at hstep
      split_ifs at hstep with hready
      cases hstep
      exact h.writable hready.1 hready.2 soError doWrite
  | ret =>
      simp only [step] at hstep
      split_ifs at hstep with hframes
      cases hstep
      exact h.return hframes

/-! ### The condition is exact -/

/-- A read from within the callback of a read finds the callback member still set. -/
theorem Inv.check_fails_of_inRead {s : System Buffer Address} (h : Inv s) (hmay : s.MayRead)
    (hin : .readDone ∈ s.frames) (kind : ReadKind)
    (ret : StatusOr Nat × TCPClientImpl Nat Buffer Address) : ¬Reliable (s.readReturns kind ret) := by
  have harmed := h.read hmay.1
  rw [hmay.2, System.inRead, decide_eq_true hin] at harmed
  intro hgood
  have hcheck : (s.checkFailed || s.client.readIfReadyCallback.isSome) = false := hgood.checks
  rw [harmed.2, Bool.or_true] at hcheck
  cases hcheck

theorem Inv.check_fails_of_inWrite {s : System Buffer Address} (h : Inv s) (hmay : s.MayWrite)
    (hin : .writeDone ∈ s.frames) (ret : StatusOr Nat × TCPClientImpl Nat Buffer Address) :
    ¬Reliable (s.writeReturns ret) := by
  have harmed := h.write hmay.1
  rw [hmay.2, System.inWrite, decide_eq_true hin] at harmed
  intro hgood
  have hcheck : (s.checkFailed || s.client.writeCallback.isSome) = false := hgood.checks
  rw [harmed.2, Bool.or_true] at hcheck
  cases hcheck

/-- A `Read` that blocks again stays outstanding with an empty callback member. -/
theorem Inv.lost_of_blocked {s : System Buffer Address} (h : Inv s) (hframes : s.frames = [])
    (hwatching : s.client.readSocketController = true)
    (hretry : s.client.readIfReadyCallback = some .retryRead) {doRead : SysResult}
    (hret : (FileOp.transfer doRead).isTryAgain = true) :
    ¬Reliable (s.handle (s.client.onFileReadable doRead .registered)) := by
  obtain ⟨kind, i, hpending, harmed⟩ := h.pendingRead hwatching
  cases kind with
  | readIfReady =>
      obtain ⟨_, huser, _⟩ := harmed
      rw [hretry] at huser
      cases huser
  | read =>
      rw [onFileReadable_blocked hretry hret]
      intro hgood
      have hserved := (hgood.served hframes).read i hpending
      obtain ⟨invocation, hsome, hcallback⟩ := hserved.2 (.value 0) .registered rfl
      cases hsome
      cases hcallback

theorem step_unreliable (s : System Buffer Address) (a : Action Buffer) (t : System Buffer Address)
    (h : Inv s) (hturn : ¬InTurn s a) (hstep : step s a = some t) : ¬Reliable t := by
  cases a with
  | read buf bufLen doRead watch =>
      simp only [step] at hstep
      split_ifs at hstep with hmay
      cases hstep
      exact h.check_fails_of_inRead hmay.1 (not_not.mp hturn) _ _
  | readIfReady doRead watch =>
      simp only [step] at hstep
      split_ifs at hstep with hmay
      cases hstep
      exact h.check_fails_of_inRead hmay.1 (not_not.mp hturn) _ _
  | write buf bufLen doWrite watch =>
      simp only [step] at hstep
      split_ifs at hstep with hmay
      cases hstep
      exact h.check_fails_of_inWrite hmay.1 (not_not.mp hturn) _
  | readable doRead watch =>
      simp only [InTurn, Classical.not_imp, not_not] at hturn
      obtain ⟨hretry, hret, rfl⟩ := hturn
      simp only [step] at hstep
      split_ifs at hstep with hready
      cases hstep
      exact h.lost_of_blocked hready.1 hready.2.1 hretry hret
  | cancelReadIfReady => exact absurd trivial hturn
  | disconnect => exact absurd trivial hturn
  | writable soError doWrite => exact absurd trivial hturn
  | ret => exact absurd trivial hturn

/-! ### Every run of a connected client -/

/-- A connected client that nobody has called yet. -/
structure Idle (c : TCPClientImpl Nat Buffer Address) : Prop where
  connected : c.connectState = .kConnected
  read : c.readSocketController = false ∧ c.readIfReadyCallback = none
  write : c.writeSocketController = false ∧ c.writeCallback = none

theorem idle_adoptConnectedSocket (socket : Nat) (remote : Address) :
    Idle (TCPClientImpl.new.adoptConnectedSocket socket remote :
      TCPClientImpl Nat Buffer Address) :=
  ⟨rfl, ⟨rfl, rfl⟩, ⟨rfl, rfl⟩⟩

theorem Idle.start_inv {c : TCPClientImpl Nat Buffer Address} (h : Idle c) : Inv (start c) := by
  refine ⟨?_, Or.inl rfl, rfl, rfl, Ledger.accounted_new, fun _ => ⟨h.read.1, ?_⟩,
    fun _ => ⟨h.write.1, ?_⟩, fun hclosed => absurd h.connected hclosed⟩
  · rw [start, h.connected]
    exact nofun
  · rw [start, h.read.2]
    rfl
  · rw [start, h.write.2]
    rfl

/-- In every run of a connected client, completions are neither lost nor duplicated, every entry
check holds and no empty callback is invoked, if and only if no callback issues a call of its own
kind and no `Read` blocks again in `RetryRead`. -/
theorem completions_reliable_iff (c : TCPClientImpl Nat Buffer Address) (hc : Idle c)
    (actions : List (Action Buffer)) :
    Transition.Along step Reliable (start c) actions ↔
      Transition.Meets step InTurn (start c) actions :=
  Transition.along_iff_meets step_inv step_unreliable (fun _ h => h.reliable) hc.start_inv

/-- The callback of a read writes, and the one of the write reads again. -/
theorem completions_reliable_ping_pong :
    Transition.Along step Reliable
      (start (TCPClientImpl.new.adoptConnectedSocket 5 () : TCPClientImpl Nat Unit Unit))
      [.read () 10 (.error EAGAIN) .registered, .readable (.value 4) .registered,
        .write () 4 (.error EAGAIN) .registered, .ret, .writable 0 (.value 4),
        .readIfReady (.error EAGAIN) .registered, .ret] :=
  (completions_reliable_iff _ (idle_adoptConnectedSocket 5 ()) _).mpr
    (Transition.meets_of_check (by decide))

/-- The callback of a `ReadIfReady` calls it again: the check fails, the new callback is lost, and
the next event invokes an empty one. -/
theorem completions_lost_reentrant_read :
    ∃ s, Transition.run step
        (start (TCPClientImpl.new.adoptConnectedSocket 5 () : TCPClientImpl Nat Unit Unit))
        [.readIfReady (.error EAGAIN) .registered, .readable (.value 0) .registered,
          .readIfReady (.error EAGAIN) .registered, .ret,
          .readable (.value 0) .registered] = some s ∧
      s.calls.pendingRead = some (.readIfReady, 1) ∧ s.emptyInvoked = true ∧ ¬Reliable s := by
  refine ⟨_, rfl, rfl, rfl, fun h => ?_⟩
  exact Bool.noConfusion h.checks

end TCPReadWrite

end Iomgr
