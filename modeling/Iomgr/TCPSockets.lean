import Iomgr.SockaddrStorage
import Iomgr.TCPServerImpl

/-!
Where the TCP classes get their sockets from and where they close them: `Open`, `Bind`, the factories
`TCPClient::Connect` and `TCPServer::Listen`, and `DoAccept` with `AdoptConnectedSocket`. What the
system answers to each call is an argument; the calls that open or close a descriptor are written down
in their order.
-/

namespace Iomgr

/-- How a `close` goes. The number is free also when the call is interrupted; before it is repeated,
another part of the program may have opened the number again. -/
inductive CloseResult
  | done
  | interrupted (reopened : Option Nat)
  deriving DecidableEq, Repr

/-- A call that concerns a descriptor: one that returns it, `::close`, and `FileOp::close`, which
repeats a call that was interrupted. -/
inductive DescriptorCall
  | opened (fd : Nat)
  | closed (fd : Nat)
  | fileClosed (fd : Nat) (result : CloseResult)
  deriving DecidableEq, Repr

def DescriptorCall.isInterrupted : DescriptorCall → Bool
  | .fileClosed _ (.interrupted _) => true
  | _ => false

namespace ScopedFD

/-- What a `ScopedFD` holds; -1 is no descriptor. -/
def descriptor (fd : Int) : Option Nat := if fd = -1 then none else some fd.toNat

/-- `reset()`. -/
def reset (fd : Int) : List DescriptorCall := ((descriptor fd).map DescriptorCall.closed).toList

/-- The destructor. -/
def destroy (fd : Int) (result : CloseResult) : List DescriptorCall :=
  ((descriptor fd).map fun fd => DescriptorCall.fileClosed fd result).toList

end ScopedFD

/-- A call whose result only matters by its success: `bind`, `listen`, `setsockopt`. -/
def SocketOp.check : SysResult → Status
  | .value _ => .ok
  | .error e => mapSystemError e

/-- The first status that is not ok. -/
def firstFailure (statuses : List Status) : Status :=
  (statuses.find? fun status => !status.isOk).getD .ok

def SocketOp.setKeepAlive (keepAlive keepIdle keepIntvl : SysResult) : Status :=
  firstFailure [check keepAlive, check keepIdle, check keepIntvl]

def O_NONBLOCK : Nat := 0x800

def FileOp.setNonBlocking (getfl setfl : SysResult) : Status :=
  match getfl with
  | .error e => mapSystemError e
  | .value flags => if flags &&& O_NONBLOCK ≠ 0 then .ok else SocketOp.check setfl

/-- What `SocketOp::socket` and `SocketOp::accept` are, that is what `status()` says of it, when the
system returns -1. -/
def SocketOp.failed (status : Status) : Status := (StatusOr.ofStatus status : StatusOr Nat).status

/-- The answers to the calls that make a socket ready. -/
structure OpenCalls where
  socket : SysResult
  getfl : SysResult
  setfl : SysResult
  close : CloseResult
  deriving DecidableEq, Repr

/-! ### The client -/

/-- The options of a client, and the answers to its calls. -/
structure TCPClient.Options where
  noDelay : Bool
  keepAlive : Bool
  connectTimeout : Time.Delta
  receiveBufferSize : Int
  sendBufferSize : Int

structure ConnectCalls extends OpenCalls where
  bind : SysResult
  noDelay : SysResult
  keepAlive : SysResult × SysResult × SysResult
  receiveBuffer : SysResult
  sendBuffer : SysResult
  connect : SysResult
  watch : Watch

abbrev TCPClientSocket (Callback Buffer : Type) := TCPClientImpl Callback Buffer SockaddrStorage

namespace TCPClientImpl

variable {Callback Buffer : Type}

/-- `Open`. -/
def openFd (c : TCPClientSocket Callback Buffer) (calls : OpenCalls) :
    Status × TCPClientSocket Callback Buffer × List DescriptorCall :=
  match calls.socket with
  | .error e => (SocketOp.failed (mapSystemError e), c, [])
  | .value fd =>
      let made := .opened fd :: ScopedFD.reset c.socketFd
      match FileOp.setNonBlocking calls.getfl calls.setfl with
      | .failed f =>
          (.failed f, { c with socketFd := -1 }, made ++ [.fileClosed fd calls.close])
      | .ok => (.ok, c.openSocket fd, made)

def bind (c : TCPClientSocket Callback Buffer) (localAddr : InetAddress) (bind : SysResult) :
    Status × TCPClientSocket Callback Buffer :=
  let address := SockaddrStorage.ofInetAddress localAddr
  if !address.isValid then (.failed ⟨.kInvalidArg, .text "Address is invalid", none⟩, c)
  else
    let status := SocketOp.check bind
    (status, if status.isOk then { c with localAddress := some address } else c)

/-- `AdoptConnectedSocket`. An address that is not valid is refused before the socket is taken. -/
def adopt (c : TCPClientSocket Callback Buffer) (socket : Nat) (remote : InetAddress)
    (getfl setfl : SysResult) (close : CloseResult) :
    Status × TCPClientSocket Callback Buffer × List DescriptorCall :=
  let address := SockaddrStorage.ofInetAddress remote
  if !address.isValid then (.failed ⟨.kInvalidArg, .text "Address is invalid", none⟩, c, [])
  else
    match FileOp.setNonBlocking getfl setfl with
    | .failed f => (.failed f, c, [.fileClosed socket close])
    | .ok => (.ok, c.adoptConnectedSocket socket address, ScopedFD.reset c.socketFd)

/-- The settings that the factory makes between `Open` and `Connect`, up to the first that fails. -/
def configure (c : TCPClientSocket Callback Buffer) (options : TCPClient.Options)
    (localAddr : Option InetAddress) (calls : ConnectCalls) :
    Status × TCPClientSocket Callback Buffer :=
  let bound := localAddr.elim (.ok, c) fun localAddr => c.bind localAddr calls.bind
  let (keepAlive, keepIdle, keepIntvl) := calls.keepAlive
  (firstFailure
    [bound.1,
      if options.noDelay then SocketOp.check calls.noDelay else .ok,
      if options.keepAlive then SocketOp.setKeepAlive keepAlive keepIdle keepIntvl else .ok,
      if options.receiveBufferSize > 0 then SocketOp.check calls.receiveBuffer else .ok,
      if options.sendBufferSize > 0 then SocketOp.check calls.sendBuffer else .ok],
    bound.2)

end TCPClientImpl

/-- `TCPClient::Connect`. The client that it gives to the caller, which it gives also when the connect
has failed; one that it does not give is destroyed. -/
def TCPClient.connect {Callback Buffer : Type} (remote : InetAddress) (options : TCPClient.Options)
    (callback : Callback) (localAddr : Option InetAddress) (calls : ConnectCalls) :
    Status × Option (TCPClientSocket Callback Buffer) × List DescriptorCall :=
  let address := SockaddrStorage.ofInetAddress remote
  if !address.isValid then
    (.failed ⟨.kInvalidArg, .text "Remote address is invalid", none⟩, none, [])
  else
    match TCPClientImpl.new.openFd calls.toOpenCalls with
    | (.failed f, c, made) => (.failed f, none, made ++ ScopedFD.reset c.socketFd)
    | (.ok, c, made) =>
        match c.configure options localAddr calls with
        | (.failed f, c) => (.failed f, none, made ++ ScopedFD.reset c.socketFd)
        | (.ok, c) =>
            let (status, c) :=
              c.connect (some address) options.connectTimeout callback calls.connect calls.watch
            (status, some c, made)

/-! ### The server -/

structure TCPServer.Options where
  reuseAddress : Bool

/-- The answers to the calls of a server; `name` is what `getsockname` stores, `destroy` the `close`
of the server that the factory destroys. -/
structure ListenCalls extends OpenCalls where
  bind : SysResult
  name : Option Bytes
  reuseAddr : SysResult
  listen : SysResult
  destroy : CloseResult

/-- A `TCPServerImpl` with its socket. The pointers that the caller hands in are numbers. -/
structure TCPServerSocket (Callback : Type) where
  socketFd : Int
  localAddress : Option SockaddrStorage
  server : TCPServerImpl Callback Nat Nat

namespace TCPServerSocket

variable {Callback : Type}

def new : TCPServerSocket Callback := ⟨-1, none, .new⟩

/-- `Open`. -/
def openFd (s : TCPServerSocket Callback) (calls : OpenCalls) :
    Status × TCPServerSocket Callback × List DescriptorCall :=
  match calls.socket with
  | .error e => (SocketOp.failed (mapSystemError e), s, [])
  | .value fd =>
      match FileOp.setNonBlocking calls.getfl calls.setfl with
      | .failed f => (.failed f, s, [.opened fd, .fileClosed fd calls.close])
      | .ok => (.ok, { s with socketFd := fd }, .opened fd :: ScopedFD.reset s.socketFd)

def bind (s : TCPServerSocket Callback) (localAddr : InetAddress) (bind : SysResult)
    (name : Option Bytes) : Status × TCPServerSocket Callback :=
  let address := SockaddrStorage.ofInetAddress localAddr
  if !address.isValid then (.failed ⟨.kInvalidArg, .text "Address is invalid", none⟩, s)
  else
    let status := SocketOp.check bind
    if !status.isOk then (status, s)
    else (status, name.elim s fun name => { s with localAddress := some (address.receive name) })

end TCPServerSocket

/-- `TCPServer::Listen`. -/
def TCPServer.listen {Callback : Type} (localAddr : InetAddress) (options : TCPServer.Options)
    (calls : ListenCalls) : Status × Option (TCPServerSocket Callback) × List DescriptorCall :=
  if !(SockaddrStorage.ofInetAddress localAddr).isValid then
    (.failed ⟨.kInvalidArg, .text "Address to listen is invalid", none⟩, none, [])
  else
    match TCPServerSocket.new.openFd calls.toOpenCalls with
    | (.failed f, s, made) => (.failed f, none, made ++ ScopedFD.destroy s.socketFd calls.destroy)
    | (.ok, s, made) =>
        let bound := s.bind localAddr calls.bind calls.name
        match firstFailure
          [bound.1, if options.reuseAddress then SocketOp.check calls.reuseAddr else .ok,
            SocketOp.check calls.listen] with
        | .failed f =>
            (.failed f, none, made ++ ScopedFD.destroy bound.2.socketFd calls.destroy)
        | .ok => (.ok, some bound.2, made)

/-- The answers to the calls of `DoAccept`; `peer` is the name that `accept` stores. -/
structure AcceptCalls where
  accept : SysResult
  peer : Bytes
  getfl : SysResult
  setfl : SysResult
  close : CloseResult
  deriving DecidableEq, Repr

namespace AcceptCalls

/-- `remote_address.ToInetAddress()`. -/
def remote (calls : AcceptCalls) : InetAddress :=
  (SockaddrStorage.new.receive calls.peer).toInetAddress

/-- The socket that `AdoptConnectedSocket` refuses with its address. -/
def leaked (calls : AcceptCalls) : List Nat :=
  match calls.accept with
  | .error _ => []
  | .value fd => if (SockaddrStorage.ofInetAddress calls.remote).isValid then [] else [fd]

end AcceptCalls

/-- `DoAccept`: what `AdoptConnectedSocket` returns, and the client for the caller. -/
def TCPServerSocket.doAccept {Callback Buffer : Type} (calls : AcceptCalls) :
    Status × Option (TCPClientSocket Callback Buffer) × List DescriptorCall :=
  match calls.accept with
  | .error e => (SocketOp.failed (mapSocketAcceptError e), none, [])
  | .value fd =>
      match TCPClientImpl.new.adopt fd calls.remote calls.getfl calls.setfl calls.close with
      | (.failed f, c, made) =>
          (.failed f, none, .opened fd :: made ++ ScopedFD.reset c.socketFd)
      | (.ok, c, made) => (.ok, some c, .opened fd :: made)

/-! ### What the factories open and close -/

/-- The call closes this descriptor. -/
def DescriptorCall.Closes (c : DescriptorCall) (fd : Nat) : Prop :=
  c = .closed fd ∨ ∃ result, c = .fileClosed fd result

/-- What is opened is closed again. -/
def Transient (cs : List DescriptorCall) : Prop :=
  cs = [] ∨ ∃ fd c, cs = [.opened fd, c] ∧ c.Closes fd

/-- What is held is closed. -/
def Closing (held : Option Nat) (cs : List DescriptorCall) : Prop :=
  (held = none ∧ cs = []) ∨ ∃ fd c, held = some fd ∧ cs = [c] ∧ c.Closes fd

theorem ScopedFD.descriptor_natCast (fd : Nat) : descriptor fd = some fd := by
  have hne : (fd : Int) ≠ -1 := by omega
  rw [descriptor, if_neg hne, Int.toNat_natCast]

theorem ScopedFD.reset_closing (fd : Int) : Closing (descriptor fd) (reset fd) := by
  rw [reset]
  cases descriptor fd with
  | none => exact .inl ⟨rfl, rfl⟩
  | some fd => exact .inr ⟨fd, _, rfl, rfl, .inl rfl⟩

theorem ScopedFD.destroy_closing (fd : Int) (result : CloseResult) :
    Closing (descriptor fd) (destroy fd result) := by
  rw [destroy]
  cases descriptor fd with
  | none => exact .inl ⟨rfl, rfl⟩
  | some fd => exact .inr ⟨fd, _, rfl, rfl, .inr ⟨result, rfl⟩⟩

theorem SocketOp.failed_ne_ok (status : Status) : SocketOp.failed status ≠ .ok := by
  rw [SocketOp.failed]
  cases status <;> exact Status.noConfusion

/-- Without an object nothing stays open, and an object has the one descriptor that was opened. -/
def Leaves {α : Type} (socketFd : α → Int) (object : Option α) (made : List DescriptorCall) : Prop :=
  match object with
  | none => Transient made
  | some o => ∃ fd : Nat, socketFd o = fd ∧ made = [.opened fd]

section Specs

variable {Callback Buffer : Type} {calls : OpenCalls} {made : List DescriptorCall} {f : Failure}

theorem TCPClientImpl.openFd_failed {c : TCPClientSocket Callback Buffer}
    (h : TCPClientImpl.new.openFd calls = (.failed f, c, made)) :
    c.socketFd = -1 ∧ Transient made := by
  unfold TCPClientImpl.openFd at h
  split at h
  · rw [Prod.mk.injEq, Prod.mk.injEq] at h
    obtain ⟨-, rfl, rfl⟩ := h
    exact ⟨rfl, .inl rfl⟩
  · next fd _ =>
      dsimp only at h
      split at h
      · cases h
        exact ⟨rfl, .inr ⟨fd, _, rfl, .inr ⟨_, rfl⟩⟩⟩
      · cases h

theorem TCPClientImpl.openFd_ok {c : TCPClientSocket Callback Buffer}
    (h : TCPClientImpl.new.openFd calls = (.ok, c, made)) :
    ∃ fd : Nat, c.socketFd = fd ∧ made = [.opened fd] := by
  unfold TCPClientImpl.openFd at h
  split at h
  · exact absurd (congrArg Prod.fst h) (SocketOp.failed_ne_ok _)
  · next fd _ =>
      dsimp only at h
      split at h
      · cases h
      · cases h
        exact ⟨fd, rfl, rfl⟩

theorem TCPClientImpl.configure_socketFd (c : TCPClientSocket Callback Buffer)
    (options : TCPClient.Options) (localAddr : Option InetAddress) (calls : ConnectCalls) :
    (c.configure options localAddr calls).2.socketFd = c.socketFd := by
  cases localAddr with
  | none => rfl
  | some localAddr =>
      change (c.bind localAddr calls.bind).2.socketFd = c.socketFd
      unfold TCPClientImpl.bind
      dsimp only
      split_ifs <;> rfl

theorem TCPClientImpl.connect_socketFd (c : TCPClientSocket Callback Buffer)
    (remote : Option SockaddrStorage) (timeout : Time.Delta) (callback : Callback)
    (doConnect : SysResult) (watch : Watch) :
    (c.connect remote timeout callback doConnect watch).2.socketFd = c.socketFd := by
  unfold TCPClientImpl.connect
  cases remote with
  | none => rfl
  | some address =>
      dsimp only
      split_ifs <;> cases watch <;> rfl

/-- Without a client nothing stays open, and a new client has the one descriptor that was opened. -/
theorem TCPClient.connect_leaves (remote : InetAddress) (options : TCPClient.Options)
    (callback : Callback) (localAddr : Option InetAddress) (calls : ConnectCalls)
    {status : Status} {client : Option (TCPClientSocket Callback Buffer)}
    (h : TCPClient.connect remote options callback localAddr calls = (status, client, made)) :
    Leaves TCPClientImpl.socketFd client made := by
  unfold TCPClient.connect at h
  dsimp only at h
  split at h
  · cases h
    exact .inl rfl
  · rcases hopen : (TCPClientImpl.new : TCPClientSocket Callback Buffer).openFd calls.toOpenCalls with
      ⟨_ | f, c, made'⟩
    · obtain ⟨fd, hfd, rfl⟩ := TCPClientImpl.openFd_ok hopen
      have hsame := c.configure_socketFd options localAddr calls
      rw [hopen] at h
      dsimp only at h
      rcases hconfigure : c.configure options localAddr calls with ⟨_ | f, c'⟩
      · rw [hconfigure] at hsame h
        cases h
        exact ⟨fd, (TCPClientImpl.connect_socketFd ..).trans (hsame.trans hfd), rfl⟩
      · rw [hconfigure] at hsame h
        cases h
        refine .inr ⟨fd, .closed fd, ?_, .inl rfl⟩
        rw [hsame, hfd, ScopedFD.reset, ScopedFD.descriptor_natCast]
        rfl
    · obtain ⟨hfd, hmade⟩ := TCPClientImpl.openFd_failed hopen
      rw [hopen] at h
      cases h
      rw [hfd, ScopedFD.reset, ScopedFD.descriptor, if_pos rfl]
      simpa [Leaves] using hmade

variable {server : Option (TCPServerSocket Callback)}

theorem TCPServerSocket.openFd_failed {s : TCPServerSocket Callback}
    (h : TCPServerSocket.new.openFd calls = (.failed f, s, made)) :
    s.socketFd = -1 ∧ Transient made := by
  unfold TCPServerSocket.openFd at h
  split at h
  · rw [Prod.mk.injEq, Prod.mk.injEq] at h
    obtain ⟨-, rfl, rfl⟩ := h
    exact ⟨rfl, .inl rfl⟩
  · next fd _ =>
      split at h
      · cases h
        exact ⟨rfl, .inr ⟨fd, _, rfl, .inr ⟨_, rfl⟩⟩⟩
      · cases h

theorem TCPServerSocket.openFd_ok {s : TCPServerSocket Callback}
    (h : TCPServerSocket.new.openFd calls = (.ok, s, made)) :
    ∃ fd : Nat, s.socketFd = fd ∧ made = [.opened fd] := by
  unfold TCPServerSocket.openFd at h
  split at h
  · exact absurd (congrArg Prod.fst h) (SocketOp.failed_ne_ok _)
  · next fd _ =>
      split at h
      · cases h
      · cases h
        exact ⟨fd, rfl, rfl⟩

theorem TCPServerSocket.bind_socketFd (s : TCPServerSocket Callback) (localAddr : InetAddress)
    (bind : SysResult) (name : Option Bytes) :
    (s.bind localAddr bind name).2.socketFd = s.socketFd := by
  unfold TCPServerSocket.bind
  dsimp only
  split_ifs
  · rfl
  · rfl
  · cases name <;> rfl

theorem TCPServer.listen_leaves (localAddr : InetAddress) (options : TCPServer.Options)
    (calls : ListenCalls) {status : Status}
    (h : TCPServer.listen localAddr options calls = (status, server, made)) :
    Leaves TCPServerSocket.socketFd server made := by
  unfold TCPServer.listen at h
  split at h
  · cases h
    exact .inl rfl
  · rcases hopen : (TCPServerSocket.new : TCPServerSocket Callback).openFd calls.toOpenCalls with
      ⟨_ | f, s, made'⟩
    · obtain ⟨fd, hfd, rfl⟩ := TCPServerSocket.openFd_ok hopen
      have hsame := s.bind_socketFd localAddr calls.bind calls.name
      rw [hopen] at h
      dsimp only at h
      split at h
      · cases h
        refine .inr ⟨fd, .fileClosed fd calls.destroy, ?_, .inr ⟨_, rfl⟩⟩
        rw [hsame, hfd, ScopedFD.destroy, ScopedFD.descriptor_natCast]
        rfl
      · cases h
        exact ⟨fd, hsame.trans hfd, rfl⟩
    · obtain ⟨hfd, hmade⟩ := TCPServerSocket.openFd_failed hopen
      rw [hopen] at h
      cases h
      rw [hfd, ScopedFD.destroy, ScopedFD.descriptor, if_pos rfl]
      simpa [Leaves] using hmade

/-- `DoAccept` is as careful as the factories, but for a socket that it has from a peer without a
valid address. -/
theorem TCPServerSocket.doAccept_leaves (calls : AcceptCalls) {status : Status}
    {client : Option (TCPClientSocket Callback Buffer)}
    (h : TCPServerSocket.doAccept calls = (status, client, made)) :
    Leaves TCPClientImpl.socketFd client made ∧ calls.leaked = [] ∨
      client = none ∧ ∃ fd, calls.leaked = [fd] ∧ made = [.opened fd] := by
  unfold TCPServerSocket.doAccept at h
  unfold AcceptCalls.leaked
  split at h
  · cases h
    exact .inl ⟨.inl rfl, rfl⟩
  · next fd _ =>
      unfold TCPClientImpl.adopt at h
      dsimp only at h
      by_cases hvalid : (SockaddrStorage.ofInetAddress calls.remote).isValid
      · rw [if_neg (by simp [hvalid])] at h
        rw [if_pos hvalid]
        rcases hnonblock : FileOp.setNonBlocking calls.getfl calls.setfl with _ | f
        · rw [hnonblock] at h
          cases h
          exact .inl ⟨⟨fd, rfl, rfl⟩, rfl⟩
        · rw [hnonblock] at h
          cases h
          exact .inl ⟨.inr ⟨fd, _, rfl, .inr ⟨_, rfl⟩⟩, rfl⟩
      · rw [if_pos (by simp [hvalid])] at h
        rw [if_neg hvalid]
        cases h
        exact .inr ⟨rfl, fd, rfl, rfl⟩

end Specs

end Iomgr
