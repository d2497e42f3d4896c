import Iomgr.TCPReadWrite

/-!
`Disconnect` in every state of a client. The machine has all operations under their entry checks,
the events of the controllers that are registered and the expiry of the timer; callbacks may call
the client before they return, and the handlers that wait for them return in any order. `Disconnect`
clears the buffer of a read when its callback is set, but that of a write when its callback is not.
-/

namespace Iomgr

namespace TCPDisconnect

/-- The client, and the statements that running handlers have left. -/
structure System (Callback Buffer Address : Type) where
  client : TCPClientImpl Callback Buffer Address
  frames : List Frame
  deriving DecidableEq, Repr

inductive Action (Callback Buffer Address : Type)
  | openSocket (socket : Nat)
  | bind (address : Address)
  | adoptConnectedSocket (socket : Nat) (remote : Address)
  | connect (remote : Option Address) (timeout : Time.Delta) (callback : Callback)
      (doConnect : SysResult) (watch : Watch)
  | readIfReady (callback : Callback) (doRead : SysResult) (watch : Watch)
  | read (buf : Buffer) (bufLen : Int) (callback : Callback) (doRead : SysResult) (watch : Watch)
  | cancelReadIfReady
  | write (buf : Buffer) (bufLen : Int) (callback : Callback) (doWrite : SysResult) (watch : Watch)
  | disconnect
  | getLocalAddress (address : Address)
  | readable (doRead : SysResult) (watch : Watch)
  | writable (soError : Int) (doWrite : SysResult)
  | timeout
  | ret (i : Nat)
  deriving DecidableEq, Repr

variable {Callback Buffer Address : Type}

def start : System Callback Buffer Address := ⟨.new, []⟩

/-- A handler runs to its end or to the callback it invokes. -/
def System.handle (s : System Callback Buffer Address)
    (handled : TCPClientImpl Callback Buffer Address × Option (Invocation Callback)) :
    System Callback Buffer Address :=
  ⟨handled.1, (handled.2.map Invocation.rest).getD [] ++ s.frames⟩

/-- The client after an operation that is called under its entry check. -/
def System.call (s : System Callback Buffer Address) (check : Prop) [Decidable check]
    (client : TCPClientImpl Callback Buffer Address) : Option (System Callback Buffer Address) :=
  if check then some { s with client := client } else none

def System.deliver (s : System Callback Buffer Address) (registered : Bool)
    (handled : TCPClientImpl Callback Buffer Address × Option (Invocation Callback)) :
    Option (System Callback Buffer Address) :=
  if registered then some (s.handle handled) else none

def step (s : System Callback Buffer Address) :
    Action Callback Buffer Address → Option (System Callback Buffer Address)
  | .openSocket socket => s.call (s.client.socketFd = -1) (s.client.openSocket socket)
  | .bind address =>
      s.call (s.client.socketFd ≠ -1) { s.client with localAddress := some address }
  | .adoptConnectedSocket socket remote =>
      s.call (s.client.socketFd = -1 ∧ s.client.remoteAddress.isNone = true)
        (s.client.adoptConnectedSocket socket remote)
  | .connect remote timeout callback doConnect watch =>
      s.call (s.client.socketFd ≠ -1 ∧ s.client.connectCallback.isNone = true ∧
          s.client.remoteAddress.isNone = true ∧ s.client.connectState = .kNone)
        (s.client.connect remote timeout callback doConnect watch).2
  | .readIfReady callback doRead watch =>
      s.call (s.client.socketFd ≠ -1 ∧ s.client.connectState = .kConnected ∧
          s.client.readIfReadyCallback.isNone = true)
        (s.client.readIfReady (.user callback) doRead watch).2
  | .read buf bufLen callback doRead watch =>
      s.call (s.client.socketFd ≠ -1 ∧ s.client.connectState = .kConnected ∧
          s.client.readIfReadyCallback.isNone = true)
        (s.client.read buf bufLen callback doRead watch).2
  | .cancelReadIfReady =>
      s.call (s.client.readIfReadyCallback.isSome = true) s.client.cancelReadIfReady
  | .write buf bufLen callback doWrite watch =>
      s.call (s.client.socketFd ≠ -1 ∧ s.client.connectState = .kConnected ∧
          s.client.writeCallback.isNone = true)
        (s.client.write buf bufLen callback doWrite watch).2
  | .disconnect => s.call True s.client.disconnect
  | .getLocalAddress address =>
      s.call (s.client.socketFd ≠ -1)
        { s.client with localAddress := s.client.localAddress.or (some address) }
  | .readable doRead watch =>
      s.deliver s.client.readSocketController (s.client.onFileReadable doRead watch)
  | .writable soError doWrite =>
      s.deliver (s.client.connectSocketController || s.client.writeSocketController)
        (s.client.onFileWritable soError doWrite)
  | .timeout =>
      s.deliver s.client.connectTimeoutController
        { s.client with connectTimeoutController := false }.onConnectTimeout
  | .ret i => do
      let frame ← s.frames[i]?
      some ⟨s.client.resume frame, s.frames.eraseIdx i⟩

/-- The condition on a run: when the callback of a `Read` returns, no `Read` that it has issued is
pending. -/
def ReadsOver (s : System Callback Buffer Address) : Action Callback Buffer Address → Prop
  | .ret i => s.frames[i]? = some .retryRead → s.client.readBuf.isNone = true
  | _ => True

instance (s : System Callback Buffer Address) (a : Action Callback Buffer Address) :
    Decidable (ReadsOver s a) :=
  match a with
  | .ret _ => inferInstanceAs (Decidable (_ → _))
  | .openSocket _ | .bind _ | .adoptConnectedSocket _ _ | .connect _ _ _ _ _ | .readIfReady _ _ _
  | .read _ _ _ _ _ | .cancelReadIfReady | .write _ _ _ _ _ | .disconnect | .getLocalAddress _
  | .readable _ _ | .writable _ _ | .timeout => isTrue trivial

/-- After a `Disconnect` the client is as the constructor leaves it exactly when no callback of a
write is set. -/
def Restores (s : System Callback Buffer Address) : Prop :=
  s.client.disconnect = .new ↔ s.client.writeCallback = none

/-- The buffer of a read is set only together with its callback. -/
structure ReadPaired (c : TCPClientImpl Callback Buffer Address) : Prop where
  buf : c.readCallback = none → c.readBuf = none
  bufLen : c.readBuf = none → c.readBufLen = 0

theorem ReadPaired.restores {s : System Callback Buffer Address} (h : ReadPaired s.client) :
    Restores s := by
  constructor
  · intro hnew
    exact congrArg TCPClientImpl.writeCallback hnew
  · intro hwrite
    cases hread : s.client.readCallback with
    | some callback => simp [TCPClientImpl.disconnect, TCPClientImpl.new, hread, hwrite]
    | none =>
        have hbuf := h.buf hread
        simp [TCPClientImpl.disconnect, TCPClientImpl.new, hread, hwrite, hbuf, h.bufLen hbuf]

/-- The members of a pending `Read` are unchanged. -/
def SameRead (c c' : TCPClientImpl Callback Buffer Address) : Prop :=
  c'.readBuf = c.readBuf ∧ c'.readBufLen = c.readBufLen ∧ c'.readCallback = c.readCallback

theorem SameRead.paired {c c' : TCPClientImpl Callback Buffer Address} (h : SameRead c c')
    (hc : ReadPaired c) : ReadPaired c' := by
  obtain ⟨hbuf, hlen, hcallback⟩ := h
  constructor
  · rw [hcallback, hbuf]
    exact hc.buf
  · rw [hbuf, hlen]
    exact hc.bufLen

section Operations

variable (c : TCPClientImpl Callback Buffer Address)

theorem sameRead_connect (remote : Option Address) (timeout : Time.Delta) (callback : Callback)
    (doConnect : SysResult) (watch : Watch) :
    SameRead c (c.connect remote timeout callback doConnect watch).2 := by
  unfold TCPClientImpl.connect
  dsimp only
  repeat' split
  all_goals exact ⟨rfl, rfl, rfl⟩

theorem sameRead_readIfReady (callback : ReadIfReadyCallback Callback) (doRead : SysResult)
    (watch : Watch) : SameRead c (c.readIfReady callback doRead watch).2 := by
  unfold TCPClientImpl.readIfReady
  dsimp only
  repeat' split
  all_goals exact ⟨rfl, rfl, rfl⟩

theorem sameRead_write (buf : Buffer) (bufLen : Int) (callback : Callback) (doWrite : SysResult)
    (watch : Watch) : SameRead c (c.write buf bufLen callback doWrite watch).2 := by
  unfold TCPClientImpl.write
  dsimp only
  repeat' split
  all_goals exact ⟨rfl, rfl, rfl⟩

theorem sameRead_onConnectDone (status : Status) (soError : Int) :
    SameRead c (c.onConnectDone status soError).1 := by
  unfold TCPClientImpl.onConnectDone
  repeat' split
  all_goals exact ⟨rfl, rfl, rfl⟩

theorem sameRead_onFileWritable (soError : Int) (doWrite : SysResult) :
    SameRead c (c.onFileWritable soError doWrite).1 := by
  unfold TCPClientImpl.onFileWritable
  split
  · exact sameRead_onConnectDone c .ok soError
  · unfold TCPClientImpl.onWriteDone
    dsimp only
    split <;> exact ⟨rfl, rfl, rfl⟩

variable {c}

theorem ReadPaired.read (h : ReadPaired c) (buf : Buffer) (bufLen : Int) (callback : Callback)
    (doRead : SysResult) (watch : Watch) :
    ReadPaired (c.read buf bufLen callback doRead watch).2 := by
  have hsame := sameRead_readIfReady c .retryRead doRead watch
  unfold TCPClientImpl.read
  dsimp only
  split
  · exact ⟨fun hnone => absurd hnone (Option.some_ne_none callback),
      fun hnone => absurd hnone (Option.some_ne_none buf)⟩
  · exact hsame.paired h

theorem ReadPaired.disconnect (h : ReadPaired c) : ReadPaired c.disconnect := by
  unfold TCPClientImpl.disconnect
  cases hread : c.readCallback with
  | some callback => exact ⟨fun _ => rfl, fun _ => rfl⟩
  | none => exact ⟨fun _ => h.buf hread, h.bufLen⟩

/-- `RetryRead` keeps the buffer for as long as the read would block, and drops it before it invokes
the callback. -/
theorem ReadPaired.retryRead (h : ReadPaired c) (doRead : SysResult) (watch : Watch) :
    ReadPaired (c.retryRead doRead watch).1 := by
  have hsame := sameRead_readIfReady c .retryRead doRead watch
  unfold TCPClientImpl.retryRead
  dsimp only
  split
  · exact hsame.paired h
  · exact ⟨fun _ => rfl, fun _ => rfl⟩

theorem ReadPaired.onFileReadable (h : ReadPaired c) (doRead : SysResult) (watch : Watch) :
    ReadPaired (c.onFileReadable doRead watch).1 := by
  have hstopped : ReadPaired { c with readSocketController := false } := ⟨h.buf, h.bufLen⟩
  have hretry := hstopped.retryRead doRead watch
  unfold TCPClientImpl.onFileReadable TCPClientImpl.onReadDone
  dsimp only
  split
  · exact hstopped
  · exact hstopped
  · split
    · rename_i c' hc'
      rw [hc'] at hretry
      exact ⟨hretry.buf, hretry.bufLen⟩
    · rename_i c' invocation hc'
      rw [hc'] at hretry
      exact hretry

/-- The rest of a handler; that of `RetryRead` drops the callback. -/
theorem ReadPaired.resume (h : ReadPaired c) {frame : Frame}
    (hframe : frame = .retryRead → c.readBuf = none) : ReadPaired (c.resume frame) := by
  cases frame with
  | retryRead => exact ⟨fun _ => hframe rfl, h.bufLen⟩
  | connectDone => exact ⟨h.buf, h.bufLen⟩
  | readDone => exact ⟨h.buf, h.bufLen⟩
  | writeDone => exact ⟨h.buf, h.bufLen⟩

end Operations

theorem call_eq_some {s t : System Callback Buffer Address} {check : Prop} [Decidable check]
    {client : TCPClientImpl Callback Buffer Address} (h : s.call check client = some t) :
    t.client = client := by
  unfold System.call at h
  split_ifs at h
  cases h
  rfl

theorem deliver_eq_some {s t : System Callback Buffer Address} {registered : Bool}
    {handled : TCPClientImpl Callback Buffer Address × Option (Invocation Callback)}
    (h : s.deliver registered handled = some t) : t.client = handled.1 := by
  unfold System.deliver at h
  split_ifs at h
  cases h
  rfl

theorem readPaired_step {s t : System Callback Buffer Address} {a : Action Callback Buffer Address}
    (h : ReadPaired s.client) (hover : ReadsOver s a) (hstep : step s a = some t) :
    ReadPaired t.client := by
  cases a with
  | openSocket socket =>
      rw [call_eq_some hstep]
      exact ⟨h.buf, h.bufLen⟩
  | bind address =>
      rw [call_eq_some hstep]
      exact ⟨h.buf, h.bufLen⟩
  | adoptConnectedSocket socket remote =>
      rw [call_eq_some hstep]
      exact ⟨h.buf, h.bufLen⟩
  | connect remote timeout callback doConnect watch =>
      rw [call_eq_some hstep]
      exact (sameRead_connect s.client remote timeout callback doConnect watch).paired h
  | readIfReady callback doRead watch =>
      rw [call_eq_some hstep]
      exact (sameRead_readIfReady s.client (.user callback) doRead watch).paired h
  | read buf bufLen callback doRead watch =>
      rw [call_eq_some hstep]
      exact h.read buf bufLen callback doRead watch
  | cancelReadIfReady =>
      rw [call_eq_some hstep]
      exact ⟨h.buf, h.bufLen⟩
  | write buf bufLen callback doWrite watch =>
      rw [call_eq_some hstep]
      exact (sameRead_write s.client buf bufLen callback doWrite watch).paired h
  | disconnect =>
      rw [call_eq_some hstep]
      exact h.disconnect
  | getLocalAddress address =>
      rw [call_eq_some hstep]
      exact ⟨h.buf, h.bufLen⟩
  | readable doRead watch =>
      rw [deliver_eq_some hstep]
      exact h.onFileReadable doRead watch
  | writable soError doWrite =>
      rw [deliver_eq_some hstep]
      exact (sameRead_onFileWritable s.client soError doWrite).paired h
  | timeout =>
      rw [deliver_eq_some hstep]
      exact (sameRead_onConnectDone _ _ _).paired ⟨h.buf, h.bufLen⟩
  | ret i =>
      obtain ⟨frame, hi, heq⟩ := Option.bind_eq_some_iff.mp hstep
      cases heq
      apply h.resume
      rintro rfl
      exact Option.isNone_iff_eq_none.mp (hover hi)

/-- In every state of every run in which no callback of a `Read` returns with a `Read` of its own
pending, `Disconnect` gives every member its constructor value if and only if the callback of a
write is not set. -/
theorem disconnect_restores_iff (as : List (Action Callback Buffer Address))
    (hover : Transition.Meets step ReadsOver (start : System Callback Buffer Address) as) :
    Transition.Along step Restores (start : System Callback Buffer Address) as :=
  Transition.along_of_meets (fun _ _ _ hs ha hstep => readPaired_step hs ha hstep)
    (fun _ h => h.restores) ⟨fun _ => rfl, fun _ => rfl⟩ hover

/-- A connected client with a `Read` pending is restored. -/
theorem disconnect_restores_pending_read :
    let actions : List (Action Nat Unit Unit) :=
      [.adoptConnectedSocket 3 (), .read () 8 1 (.error EAGAIN) .registered]
    Transition.Along step Restores (start : System Nat Unit Unit) actions ∧
      ∃ s, Transition.run step (start : System Nat Unit Unit) actions = some s ∧
        s.client.readCallback = some 1 ∧ s.client.disconnect = .new :=
  ⟨disconnect_restores_iff _ (Transition.meets_of_check rfl), _, rfl, rfl, rfl⟩

/-- A connected client with a `Write` pending keeps the buffer and the callback of the write; the
next `Write` finds its entry check violated. -/
theorem disconnect_keeps_pending_write :
    let actions : List (Action Nat Unit Unit) :=
      [.adoptConnectedSocket 3 (), .write () 8 1 (.error EAGAIN) .registered, .disconnect,
        .adoptConnectedSocket 4 ()]
    ∃ s, Transition.run step (start : System Nat Unit Unit) actions = some s ∧
      s.client.writeBuf = some () ∧ s.client.writeBufLen = 8 ∧ s.client.writeCallback = some 1 ∧
      s.client.disconnect ≠ .new ∧
      step s (.write () 8 2 (.error EAGAIN) .registered) = none :=
  ⟨_, rfl, rfl, rfl, rfl, by decide, rfl⟩

end TCPDisconnect

end Iomgr
