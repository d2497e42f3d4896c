import Iomgr.TCPReadWrite
import Iomgr.TCPServerImpl

/-!
The operations of client and server statement by statement. Between two statements of the caller the
poll thread may run the handler of a controller that is registered, or the connect timer may expire.
Each operation registers first and stores what its handler uses afterwards, so that from the moment
of the registration on there is a handler with nothing to invoke.
-/

namespace Iomgr

namespace TCPArming

/-- The statements of `Connect`, `ReadIfReady`, `Read`, `Write` and `Accept`. -/
inductive Statement (Callback Buffer Address Socket Remote : Type)
  | setConnecting
  | setRemoteAddress (address : Address)
  | doConnect
  | startTimer (timeout : Time.Delta)
  | watchConnect
  | storeConnectCallback (callback : Callback)
  | doRead
  | watchRead
  | storeReadIfReadyCallback (callback : ReadIfReadyCallback Callback)
  | storeReadBuf (buf : Buffer)
  | storeReadBufLen (bufLen : Int)
  | storeReadCallback (callback : Callback)
  | doWrite
  | watchWrite
  | storeWriteBuf (buf : Buffer)
  | storeWriteBufLen (bufLen : Int)
  | storeWriteCallback (callback : Callback)
  | doAccept
  | setPendingAccept
  | watchAccept
  | storeAcceptCallback (callback : Callback)
  | storeAcceptSocket (socket : Socket)
  | storeRemote (remote : Option Remote)
  deriving DecidableEq, Repr

/-- The operations; the remote address of a `Connect` is valid. -/
inductive Operation (Callback Buffer Address Socket Remote : Type)
  | connect (address : Address) (timeout : Time.Delta) (callback : Callback)
  | readIfReady (callback : Callback)
  | read (buf : Buffer) (bufLen : Int) (callback : Callback)
  | write (buf : Buffer) (bufLen : Int) (callback : Callback)
  | accept (socket : Socket) (callback : Callback) (remote : Option Remote)
  deriving DecidableEq, Repr

variable {Callback Buffer Address Socket Remote : Type}

namespace Operation

/-- The statements before the registration. -/
def before : Operation Callback Buffer Address Socket Remote →
    List (Statement Callback Buffer Address Socket Remote)
  | .connect address timeout _ =>
      [.setConnecting, .setRemoteAddress address, .doConnect, .startTimer timeout]
  | .readIfReady _ => [.doRead]
  | .read _ _ _ => [.doRead]
  | .write _ _ _ => [.doWrite]
  | .accept _ _ _ => [.doAccept, .setPendingAccept]

/-- The registration. -/
def watch : Operation Callback Buffer Address Socket Remote →
    Statement Callback Buffer Address Socket Remote
  | .connect _ _ _ => .watchConnect
  | .readIfReady _ => .watchRead
  | .read _ _ _ => .watchRead
  | .write _ _ _ => .watchWrite
  | .accept _ _ _ => .watchAccept

/-- The statements after the registration. -/
def after : Operation Callback Buffer Address Socket Remote →
    List (Statement Callback Buffer Address Socket Remote)
  | .connect _ _ callback => [.storeConnectCallback callback]
  | .readIfReady callback => [.storeReadIfReadyCallback (.user callback)]
  | .read buf bufLen callback =>
      [.storeReadIfReadyCallback .retryRead, .storeReadBuf buf, .storeReadBufLen bufLen,
        .storeReadCallback callback]
  | .write buf bufLen callback =>
      [.storeWriteBuf buf, .storeWriteBufLen bufLen, .storeWriteCallback callback]
  | .accept socket callback remote =>
      [.storeAcceptCallback callback, .storeAcceptSocket socket, .storeRemote remote]

def statements (op : Operation Callback Buffer Address Socket Remote) :
    List (Statement Callback Buffer Address Socket Remote) :=
  op.before ++ op.watch :: op.after

end Operation

/-- What the environment answers to a statement: the system call, `AdoptConnectedSocket`, the
registration. -/
structure Outcome where
  sys : SysResult
  adopted : Status
  watch : Watch
  deriving DecidableEq, Repr

/-- The client and the server that the operations are called on. -/
structure Objects (Callback Buffer Address Socket Remote : Type) where
  client : TCPClientImpl Callback Buffer Address
  server : TCPServerImpl Callback Socket Remote
  deriving DecidableEq, Repr

/-- One statement. The result says whether the operation goes on or returns. -/
def Objects.execute (x : Objects Callback Buffer Address Socket Remote) (o : Outcome) :
    Statement Callback Buffer Address Socket Remote →
      Bool × Objects Callback Buffer Address Socket Remote
  | .setConnecting => (true, { x with client := { x.client with connectState := .kConnecting } })
  | .setRemoteAddress address =>
      (true, { x with client := { x.client with remoteAddress := some address } })
  | .doConnect =>
      let status := SocketOp.connect o.sys
      if !status.isTryAgain then
        (false, { x with
          client := { x.client with connectState := if status.isOk then .kConnected else .kNone } })
      else (true, x)
  | .startTimer timeout =>
      (true, if timeout.isInfinite then x
        else { x with client := { x.client with connectTimeoutController := true } })
  | .watchConnect =>
      match o.watch with
      | .failed _ => (false, { x with client := { x.client with connectState := .kNone } })
      | .registered =>
          (true, { x with client := { x.client with connectSocketController := true } })
  | .storeConnectCallback callback =>
      (true, { x with client := { x.client with connectCallback := some callback } })
  | .doRead => ((FileOp.transfer o.sys).isTryAgain, x)
  | .watchRead =>
      match o.watch with
      | .failed _ => (false, x)
      | .registered => (true, { x with client := { x.client with readSocketController := true } })
  | .storeReadIfReadyCallback callback =>
      (true, { x with client := { x.client with readIfReadyCallback := some callback } })
  | .storeReadBuf buf => (true, { x with client := { x.client with readBuf := some buf } })
  | .storeReadBufLen bufLen => (true, { x with client := { x.client with readBufLen := bufLen } })
  | .storeReadCallback callback =>
      (true, { x with client := { x.client with readCallback := some callback } })
  | .doWrite => ((FileOp.transfer o.sys).isTryAgain, x)
  | .watchWrite =>
      match o.watch with
      | .failed _ => (false, x)
      | .registered => (true, { x with client := { x.client with writeSocketController := true } })
  | .storeWriteBuf buf => (true, { x with client := { x.client with writeBuf := some buf } })
  | .storeWriteBufLen bufLen =>
      (true, { x with client := { x.client with writeBufLen := bufLen } })
  | .storeWriteCallback callback =>
      (true, { x with client := { x.client with writeCallback := some callback } })
  | .doAccept =>
      (!x.server.pendingAccept && (TCPServerImpl.doAccept o.sys o.adopted).isTryAgain, x)
  | .setPendingAccept => (true, { x with server := { x.server with pendingAccept := true } })
  | .watchAccept =>
      match o.watch with
      | .failed _ => (false, x)
      | .registered =>
          (true, { x with server := { x.server with acceptSocketController := true } })
  | .storeAcceptCallback callback =>
      (true, { x with server := { x.server with acceptCallback := some callback } })
  | .storeAcceptSocket socket =>
      (true, { x with server := { x.server with acceptSocket := some socket } })
  | .storeRemote remote => (true, { x with server := { x.server with remote := remote } })

/-- Statements one after the other, with nothing between them. -/
def Objects.executeAll (o : Outcome) : Objects Callback Buffer Address Socket Remote →
    List (Statement Callback Buffer Address Socket Remote) →
      Objects Callback Buffer Address Socket Remote
  | x, [] => x
  | x, statement :: rest =>
      match x.execute o statement with
      | (true, x) => executeAll o x rest
      | (false, x) => x

/-- An operation as a whole. -/
def Objects.perform (x : Objects Callback Buffer Address Socket Remote) (o : Outcome) :
    Operation Callback Buffer Address Socket Remote →
      Objects Callback Buffer Address Socket Remote
  | .connect address timeout callback =>
      { x with client := (x.client.connect (some address) timeout callback o.sys o.watch).2 }
  | .readIfReady callback =>
      { x with client := (x.client.readIfReady (.user callback) o.sys o.watch).2 }
  | .read buf bufLen callback =>
      { x with client := (x.client.read buf bufLen callback o.sys o.watch).2 }
  | .write buf bufLen callback =>
      { x with client := (x.client.write buf bufLen callback o.sys o.watch).2 }
  | .accept socket callback remote =>
      { x with server := (x.server.accept socket callback remote o.sys o.adopted o.watch).2 }

/-- Undisturbed, the statements of an operation are the operation. -/
theorem executeAll_statements (x : Objects Callback Buffer Address Socket Remote) (o : Outcome)
    (hwatch : TCPReadWrite.Possible o.watch)
    (op : Operation Callback Buffer Address Socket Remote) :
    x.executeAll o op.statements = x.perform o op := by
  obtain ⟨sys, adopted, watch⟩ := o
  cases op with
  | connect address timeout callback =>
      cases hsys : (SocketOp.connect sys).isTryAgain <;> cases watch <;>
        cases htimeout : timeout.isInfinite <;>
        simp [Operation.statements, Operation.before, Operation.watch, Operation.after,
          Objects.executeAll, Objects.execute, Objects.perform, TCPClientImpl.connect, hsys, htimeout]
  | readIfReady callback =>
      cases hsys : (FileOp.transfer sys).isTryAgain <;> cases watch <;>
        simp [Operation.statements, Operation.before, Operation.watch, Operation.after,
          Objects.executeAll, Objects.execute, Objects.perform, TCPClientImpl.readIfReady, hsys]
  | read buf bufLen callback =>
      cases hsys : (FileOp.transfer sys).isTryAgain with
      | false =>
          simp [Operation.statements, Operation.before, Objects.executeAll, Objects.execute,
            Objects.perform, TCPClientImpl.read, TCPClientImpl.readIfReady, hsys]
      | true =>
          cases watch with
          | registered =>
              simp [Operation.statements, Operation.before, Operation.watch, Operation.after,
                Objects.executeAll, Objects.execute, Objects.perform, TCPClientImpl.read,
                TCPClientImpl.readIfReady, hsys, Status.tryAgain, Status.isTryAgain, Status.hasCode]
          | failed e =>
              have hfailed : (mapSystemError e).isTryAgain = false := by
                rw [Bool.eq_false_iff, Ne, mapSystemError_isTryAgain]
                rintro rfl
                exact hwatch rfl
              simp [Operation.statements, Operation.before, Operation.watch, Operation.after,
                Objects.executeAll, Objects.execute, Objects.perform, TCPClientImpl.read,
                TCPClientImpl.readIfReady, hsys, hfailed]
  | write buf bufLen callback =>
      cases hsys : (FileOp.transfer sys).isTryAgain <;> cases watch <;>
        simp [Operation.statements, Operation.before, Operation.watch, Operation.after,
          Objects.executeAll, Objects.execute, Objects.perform, TCPClientImpl.write, hsys]
  | accept socket callback remote =>
      cases hpending : x.server.pendingAccept <;>
        cases hsys : (TCPServerImpl.doAccept sys adopted).isTryAgain <;> cases watch <;>
        simp [Operation.statements, Operation.before, Operation.watch, Operation.after,
          Objects.executeAll, Objects.execute, Objects.perform, TCPServerImpl.accept, hsys, hpending]

/-! ### The caller and the poll thread -/

/-- The objects, the statements the caller's operation has left, and whether a handler has found a
member empty that it uses. -/
structure System (Callback Buffer Address Socket Remote : Type) extends
    Objects Callback Buffer Address Socket Remote where
  rest : List (Statement Callback Buffer Address Socket Remote)
  foundEmpty : Bool

/-- The caller enters an operation or executes its next statement; the poll thread delivers an
event, or the connect timer expires. -/
inductive Action (Callback Buffer Address Socket Remote : Type)
  | call (op : Operation Callback Buffer Address Socket Remote)
  | statement (o : Outcome)
  | readable (doRead : SysResult) (watch : Watch)
  | writable (soError : Int) (doWrite : SysResult)
  | timeout
  | acceptable (accepted : SysResult) (adopted : Status)
  deriving DecidableEq, Repr

/-- The checks at the entry of an operation. `Accept` has none. -/
def Objects.MayCall (x : Objects Callback Buffer Address Socket Remote) :
    Operation Callback Buffer Address Socket Remote → Prop
  | .connect _ _ _ => x.client.socketFd ≠ -1 ∧ x.client.connectCallback.isNone = true ∧
      x.client.remoteAddress.isNone = true ∧ x.client.connectState = .kNone
  | .readIfReady _ | .read _ _ _ => x.client.socketFd ≠ -1 ∧
      x.client.connectState = .kConnected ∧ x.client.readIfReadyCallback.isNone = true
  | .write _ _ _ => x.client.socketFd ≠ -1 ∧ x.client.connectState = .kConnected ∧
      x.client.writeCallback.isNone = true
  | .accept _ _ _ => True

instance (x : Objects Callback Buffer Address Socket Remote)
    (op : Operation Callback Buffer Address Socket Remote) : Decidable (x.MayCall op) :=
  match op with
  | .connect _ _ _ => inferInstanceAs (Decidable (_ ∧ _ ∧ _ ∧ _))
  | .readIfReady _ => inferInstanceAs (Decidable (_ ∧ _ ∧ _))
  | .read _ _ _ => inferInstanceAs (Decidable (_ ∧ _ ∧ _))
  | .write _ _ _ => inferInstanceAs (Decidable (_ ∧ _ ∧ _))
  | .accept _ _ _ => isTrue trivial

/-- The handler of a read finds what it uses; a pending `Read` also uses its callback and buffer. -/
def readSet (c : TCPClientImpl Callback Buffer Address) : Bool :=
  match c.readIfReadyCallback with
  | none => false
  | some (.user _) => true
  | some .retryRead => c.readCallback.isSome && c.readBuf.isSome

def writeSet (c : TCPClientImpl Callback Buffer Address) : Bool :=
  c.writeCallback.isSome && c.writeBuf.isSome

def connectSet (c : TCPClientImpl Callback Buffer Address) : Bool := c.connectCallback.isSome

def acceptSet (v : TCPServerImpl Callback Socket Remote) : Bool :=
  v.acceptCallback.isSome && v.acceptSocket.isSome

/-- A handler runs to its end, its callback included. `set` says whether it finds what it uses. -/
def System.handle (s : System Callback Buffer Address Socket Remote) (set : Bool)
    (handled : TCPClientImpl Callback Buffer Address × Option (Invocation Callback)) :
    System Callback Buffer Address Socket Remote :=
  { s with
    client := handled.1.resumeAll ((handled.2.map Invocation.rest).getD [])
    foundEmpty := s.foundEmpty || !set }

def step (s : System Callback Buffer Address Socket Remote) :
    Action Callback Buffer Address Socket Remote →
      Option (System Callback Buffer Address Socket Remote)
  | .call op =>
      if s.rest = [] ∧ s.MayCall op then some { s with rest := op.statements } else none
  | .statement o =>
      match s.rest with
      | [] => none
      | statement :: rest =>
          if TCPReadWrite.Possible o.watch then
            match s.execute o statement with
            | (true, x) => some { s with toObjects := x, rest := rest }
            | (false, x) => some { s with toObjects := x, rest := [] }
          else none
  | .readable doRead watch =>
      if s.client.readSocketController then
        some (s.handle (readSet s.client) (s.client.onFileReadable doRead watch))
      else none
  | .writable soError doWrite =>
      if s.client.connectSocketController || s.client.writeSocketController then
        some (s.handle
          (if s.client.connectState = .kConnecting then connectSet s.client else writeSet s.client)
          (s.client.onFileWritable soError doWrite))
      else none
  | .timeout =>
      if s.client.connectTimeoutController then
        some (s.handle (connectSet s.client)
          { s.client with connectTimeoutController := false }.onConnectTimeout)
      else none
  | .acceptable accepted adopted =>
      if s.server.acceptSocketController then
        some { s with
          server := (s.server.onFileReadable accepted adopted).1
          foundEmpty := s.foundEmpty || !acceptSet s.server }
      else none

/-- Where a controller or the connect timer is registered, its handler has what it uses, and no
handler has missed something. -/
structure Armed (s : System Callback Buffer Address Socket Remote) : Prop where
  connect : s.client.connectSocketController = true ∨ s.client.connectTimeoutController = true →
    connectSet s.client = true
  read : s.client.readSocketController = true → readSet s.client = true
  write : s.client.writeSocketController = true → writeSet s.client = true
  accept : s.server.acceptSocketController = true → acceptSet s.server = true
  found : s.foundEmpty = false

/-- The statement registers a controller or starts the timer. -/
def Statement.registers (o : Outcome) :
    Statement Callback Buffer Address Socket Remote → Bool
  | .startTimer timeout => !timeout.isInfinite
  | .watchConnect => o.watch = .registered
  | .watchRead => o.watch = .registered
  | .watchWrite => o.watch = .registered
  | .watchAccept => o.watch = .registered
  | _ => false

/-- The step registers nothing. -/
def NoneRegistered (s : System Callback Buffer Address Socket Remote) :
    Action Callback Buffer Address Socket Remote → Prop
  | .statement o => s.rest.head?.any (Statement.registers o) = false
  | _ => True

instance (s : System Callback Buffer Address Socket Remote)
    (a : Action Callback Buffer Address Socket Remote) : Decidable (NoneRegistered s a) :=
  match a with
  | .statement _ => inferInstanceAs (Decidable (_ = _))
  | .call _ | .readable _ _ | .writable _ _ | .timeout | .acceptable _ _ => isTrue trivial

/-- Nothing is registered, and nothing is stored for a handler that could be. -/
structure Unregistered (x : Objects Callback Buffer Address Socket Remote) : Prop where
  connectSocket : x.client.connectSocketController = false
  connectTimeout : x.client.connectTimeoutController = false
  connectCallback : x.client.connectCallback = none
  readSocket : x.client.readSocketController = false
  readIfReadyCallback : x.client.readIfReadyCallback = none
  writeSocket : x.client.writeSocketController = false
  writeCallback : x.client.writeCallback = none
  acceptSocketController : x.server.acceptSocketController = false
  acceptSocket : x.server.acceptSocket = none

/-- The caller is in no operation, or in one that it has not registered. -/
structure Quiet (s : System Callback Buffer Address Socket Remote) : Prop extends
    Unregistered s.toObjects where
  found : s.foundEmpty = false
  rest : s.rest = [] ∨ ∃ op : Operation Callback Buffer Address Socket Remote, ∃ left,
    left <:+ op.before ∧ s.rest = left ++ op.watch :: op.after

variable {s t : System Callback Buffer Address Socket Remote}
  {a : Action Callback Buffer Address Socket Remote}
  {x : Objects Callback Buffer Address Socket Remote} {o : Outcome}

theorem Quiet.armed (h : Quiet s) : Armed s where
  connect := by simp [h.connectSocket, h.connectTimeout]
  read := by simp [h.readSocket]
  write := by simp [h.writeSocket]
  accept := by simp [h.acceptSocketController]
  found := h.found

/-- The statements before a registration change nothing that a handler uses, but for the start of
the timer. -/
theorem Unregistered.execute_before (h : Unregistered x)
    {op : Operation Callback Buffer Address Socket Remote}
    {statement : Statement Callback Buffer Address Socket Remote} (hmem : statement ∈ op.before)
    (hnone : statement.registers o = false) : Unregistered (x.execute o statement).2 := by
  cases op with
  | connect address timeout callback =>
      simp only [Operation.before, List.mem_cons, List.not_mem_nil, or_false] at hmem
      rcases hmem with rfl | rfl | rfl | rfl
      · cases h
        constructor <;> assumption
      · cases h
        constructor <;> assumption
      · simp only [Objects.execute]
        split
        · cases h
          constructor <;> assumption
        · exact h
      · rw [Statement.registers, Bool.not_eq_false'] at hnone
        simp only [Objects.execute, hnone, if_true]
        exact h
  | readIfReady callback =>
      obtain rfl := List.mem_singleton.mp hmem
      exact h
  | read buf bufLen callback =>
      obtain rfl := List.mem_singleton.mp hmem
      exact h
  | write buf bufLen callback =>
      obtain rfl := List.mem_singleton.mp hmem
      exact h
  | accept socket callback remote =>
      simp only [Operation.before, List.mem_cons, List.not_mem_nil, or_false] at hmem
      rcases hmem with rfl | rfl
      · exact h
      · cases h
        constructor <;> assumption

/-- A registration that fails makes its operation return. -/
theorem Unregistered.execute_watch (h : Unregistered x)
    (op : Operation Callback Buffer Address Socket Remote) (hnone : op.watch.registers o = false) :
    ∃ y, x.execute o op.watch = (false, y) ∧ Unregistered y := by
  obtain ⟨sys, adopted, watch⟩ := o
  cases watch with
  | registered => cases op <;> exact Bool.noConfusion hnone
  | failed e =>
      cases op with
      | connect address timeout callback =>
          refine ⟨_, rfl, ?_⟩
          cases h
          constructor <;> assumption
      | readIfReady callback => exact ⟨x, rfl, h⟩
      | read buf bufLen callback => exact ⟨x, rfl, h⟩
      | write buf bufLen callback => exact ⟨x, rfl, h⟩
      | accept socket callback remote => exact ⟨x, rfl, h⟩

theorem quiet_step (h : Quiet s) (hnone : NoneRegistered s a) (hstep : step s a = some t) :
    Quiet t := by
  cases a with
  | call op =>
      simp only [step] at hstep
      split_ifs at hstep
      cases hstep
      exact ⟨h.toUnregistered, h.found, Or.inr ⟨op, op.before, List.suffix_refl _, rfl⟩⟩
  | statement o =>
      rcases h.rest with hrest | ⟨op, left, hleft, hrest⟩
      · simp [step, hrest] at hstep
      · cases left with
        | nil =>
            rw [List.nil_append] at hrest
            have hwatch : op.watch.registers o = false := by
              rwa [NoneRegistered, hrest] at hnone
            obtain ⟨y, hy, hquiet⟩ := h.execute_watch op hwatch
            simp only [step, hrest, hy] at hstep
            split_ifs at hstep
            cases hstep
            exact ⟨hquiet, h.found, Or.inl rfl⟩
        | cons statement left =>
            rw [List.cons_append] at hrest
            have hmem : statement ∈ op.before := hleft.subset List.mem_cons_self
            rw [NoneRegistered, hrest] at hnone
            have hbefore := h.execute_before hmem hnone
            simp only [step, hrest] at hstep
            split_ifs at hstep
            split at hstep
            · rename_i y hy
              rw [hy] at hbefore
              cases hstep
              refine ⟨hbefore, h.found, Or.inr ⟨op, left, ?_, rfl⟩⟩
              exact (List.suffix_cons statement left).trans hleft
            · rename_i y hy
              rw [hy] at hbefore
              cases hstep
              exact ⟨hbefore, h.found, Or.inl rfl⟩
  | readable doRead watch => simp [step, h.readSocket] at hstep
  | writable soError doWrite => simp [step, h.connectSocket, h.writeSocket] at hstep
  | timeout => simp [step, h.connectTimeout] at hstep
  | acceptable accepted adopted => simp [step, h.acceptSocketController] at hstep

/-- A statement that registers does so before anything is stored. -/
theorem Unregistered.execute_registers (h : Unregistered x)
    {statement : Statement Callback Buffer Address Socket Remote}
    (hregisters : statement.registers o = true)
    (rest : List (Statement Callback Buffer Address Socket Remote)) (foundEmpty : Bool) :
    ¬Armed ⟨(x.execute o statement).2, rest, foundEmpty⟩ := by
  intro harmed
  obtain ⟨sys, adopted, watch⟩ := o
  cases statement with
  | startTimer timeout =>
      have hfinite : timeout.isInfinite = false := by
        rwa [Statement.registers, Bool.not_eq_true'] at hregisters
      simp only [Objects.execute, hfinite] at harmed
      have hset : x.client.connectCallback.isSome = true := harmed.connect (Or.inr rfl)
      rw [h.connectCallback] at hset
      exact Bool.noConfusion hset
  | watchConnect =>
      obtain rfl : watch = .registered := of_decide_eq_true hregisters
      have hset : x.client.connectCallback.isSome = true := harmed.connect (Or.inl rfl)
      rw [h.connectCallback] at hset
      exact Bool.noConfusion hset
  | watchRead =>
      obtain rfl : watch = .registered := of_decide_eq_true hregisters
      have hset : readSet x.client = true := harmed.read rfl
      rw [readSet, h.readIfReadyCallback] at hset
      exact Bool.noConfusion hset
  | watchWrite =>
      obtain rfl : watch = .registered := of_decide_eq_true hregisters
      have hset : writeSet x.client = true := harmed.write rfl
      rw [writeSet, h.writeCallback] at hset
      exact Bool.noConfusion hset
  | watchAccept =>
      obtain rfl : watch = .registered := of_decide_eq_true hregisters
      have hset : acceptSet x.server = true := harmed.accept rfl
      rw [acceptSet, h.acceptSocket, Option.isSome_none, Bool.and_false] at hset
      exact Bool.noConfusion hset
  | _ => exact Bool.noConfusion hregisters

theorem not_armed_step (h : Quiet s) (hregistered : ¬NoneRegistered s a)
    (hstep : step s a = some t) : ¬Armed t := by
  cases a with
  | statement o =>
      rw [NoneRegistered, Bool.not_eq_false, Option.any_eq_true] at hregistered
      obtain ⟨statement, hhead, hregisters⟩ := hregistered
      obtain ⟨rest, hrest⟩ := List.head?_eq_some_iff.mp hhead
      simp only [step, hrest] at hstep
      split_ifs at hstep
      have hunarmed := h.toUnregistered.execute_registers hregisters
      split at hstep
      · rename_i y hy
        cases hstep
        rw [hy] at hunarmed
        exact hunarmed rest s.foundEmpty
      · rename_i y hy
        cases hstep
        rw [hy] at hunarmed
        exact hunarmed [] s.foundEmpty
  | call op => exact absurd trivial hregistered
  | readable doRead watch => exact absurd trivial hregistered
  | writable soError doWrite => exact absurd trivial hregistered
  | timeout => exact absurd trivial hregistered
  | acceptable accepted adopted => exact absurd trivial hregistered

/-- A client and a server with no operation pending. -/
def start (x : Objects Callback Buffer Address Socket Remote) :
    System Callback Buffer Address Socket Remote :=
  ⟨x, [], false⟩

/-- For all operations, answers of the system and events between the statements: wherever something
is registered its handler has what it uses, if and only if nothing is ever registered. -/
theorem handlers_armed_iff (x : Objects Callback Buffer Address Socket Remote)
    (hx : Unregistered x) (as : List (Action Callback Buffer Address Socket Remote)) :
    Transition.Along step Armed (start x) as ↔ Transition.Meets step NoneRegistered (start x) as :=
  Transition.along_iff_meets (fun _ _ _ hs ha hstep => quiet_step hs ha hstep)
    (fun _ _ _ hs ha hstep => not_armed_step hs ha hstep) (fun _ h => h.armed)
    ⟨hx, rfl, Or.inl rfl⟩

/-- A client that has adopted a connected socket, and a new server. -/
def connected : Objects Nat Unit Unit Unit Unit :=
  ⟨TCPClientImpl.new.adoptConnectedSocket 3 (), .new⟩

theorem unregistered_connected : Unregistered connected := by
  constructor <;> rfl

/-- A write that transfers its bytes at once. -/
theorem handlers_armed_write_at_once :
    Unregistered connected ∧
      Transition.Along step Armed (start connected)
        [.call (.write () 5 7), .statement ⟨.value 5, .ok, .registered⟩] :=
  ⟨unregistered_connected,
    (handlers_armed_iff connected unregistered_connected _).mpr (Transition.meets_of_check rfl)⟩

/-- A write that would block: the event that comes between the registration and the statements after
it finds neither buffer nor callback. -/
theorem write_handler_finds_empty :
    let blocked : Outcome := ⟨.error EAGAIN, .ok, .registered⟩
    let actions : List (Action Nat Unit Unit Unit Unit) :=
      [.call (.write () 5 7), .statement blocked, .statement blocked, .writable 0 (.value 5)]
    (∃ s, Transition.run step (start connected) actions = some s ∧ s.foundEmpty = true) ∧
      ¬Transition.Along step Armed (start connected) actions := by
  intro blocked actions
  refine ⟨⟨_, rfl, rfl⟩, ?_⟩
  rintro ⟨-, hcall⟩
  obtain ⟨-, hblocked⟩ := hcall _ rfl
  obtain ⟨-, hregistered⟩ := hblocked _ rfl
  obtain ⟨harmed, -⟩ := hregistered _ rfl
  exact Bool.noConfusion (harmed.write rfl)

end TCPArming

end Iomgr
