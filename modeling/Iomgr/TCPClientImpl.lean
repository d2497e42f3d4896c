import Iomgr.Status
import Iomgr.Time

/-!
The TCP client. A handler that invokes a callback of the user is cut there: it says which callback
is invoked and with what, and which statements are left for when the callback returns, for the
callback may call the client again. The system calls are arguments. `StopWatching` succeeds, as the
code asserts; what happens when it does not is a matter of the I/O manager.
-/

namespace Iomgr

inductive ConnectState
  | kNone
  | kConnecting
  | kConnected
  deriving DecidableEq, Repr

/-- The content of `read_if_ready_callback_`: the callback of a `ReadIfReady`, or the `RetryRead`
that a pending `Read` has bound. -/
inductive ReadIfReadyCallback (Callback : Type)
  | user (callback : Callback)
  | retryRead
  deriving DecidableEq, Repr

/-- The members of a `TCPClientImpl`. Of the timer controller it is known whether the timer is
pending, of a socket controller whether it is watching. -/
structure TCPClientImpl (Callback Buffer Address : Type) where
  socketFd : Int
  connectTimeoutController : Bool
  connectSocketController : Bool
  connectCallback : Option Callback
  connectState : ConnectState
  readSocketController : Bool
  readBuf : Option Buffer
  readBufLen : Int
  readCallback : Option Callback
  readIfReadyCallback : Option (ReadIfReadyCallback Callback)
  writeSocketController : Bool
  writeBuf : Option Buffer
  writeBufLen : Int
  writeCallback : Option Callback
  localAddress : Option Address
  remoteAddress : Option Address
  deriving DecidableEq, Repr

/-- What a system call returns: a count, or -1 with the error number. -/
inductive SysResult
  | value (n : Nat)
  | error (osErrno : Int)
  deriving DecidableEq, Repr

/-- The result of `IOWatcher::WatchFileDescriptor`, with the error number when it fails. -/
inductive Watch
  | registered
  | failed (osErrno : Int)
  deriving DecidableEq, Repr

/-- `FileOp::read` and `FileOp::write`. -/
def FileOp.transfer : SysResult → StatusOr Nat
  | .value n => .value n
  | .error e => StatusOr.ofStatus (mapSystemError e)

/-- `SocketOp::connect`. -/
def SocketOp.connect : SysResult → Status
  | .value _ => .ok
  | .error e => mapSocketConnectError e

/-- The statements of a handler after the callback that it invokes. -/
inductive Frame
  | connectDone
  | readDone
  | retryRead
  | writeDone
  deriving DecidableEq, Repr

inductive Argument
  | status (status : Status)
  | statusOr (ret : StatusOr Nat)
  deriving DecidableEq, Repr

/-- A handler invokes a callback, `none` when the member it invokes is empty. `rest` is what the
handlers on the stack still have to do, the innermost first. -/
structure Invocation (Callback : Type) where
  callback : Option Callback
  argument : Argument
  rest : List Frame
  deriving DecidableEq, Repr

namespace TCPClientImpl

variable {Callback Buffer Address : Type}

def new : TCPClientImpl Callback Buffer Address where
  socketFd := -1
  connectTimeoutController := false
  connectSocketController := false
  connectCallback := none
  connectState := .kNone
  readSocketController := false
  readBuf := none
  readBufLen := 0
  readCallback := none
  readIfReadyCallback := none
  writeSocketController := false
  writeBuf := none
  writeBufLen := 0
  writeCallback := none
  localAddress := none
  remoteAddress := none

/-- `Open`, when the socket is made non-blocking. -/
def openSocket (c : TCPClientImpl Callback Buffer Address) (socket : Nat) :
    TCPClientImpl Callback Buffer Address :=
  { c with socketFd := socket }

/-- `AdoptConnectedSocket` with a valid address, when the socket is made non-blocking. -/
def adoptConnectedSocket (c : TCPClientImpl Callback Buffer Address) (socket : Nat)
    (remote : Address) : TCPClientImpl Callback Buffer Address :=
  { c with socketFd := socket, remoteAddress := some remote, connectState := .kConnected }

/-- `Connect`; the remote address is `none` when it is not valid. -/
def connect (c : TCPClientImpl Callback Buffer Address) (remote : Option Address)
    (connectTimeout : Time.Delta) (connectCallback : Callback) (doConnect : SysResult)
    (watch : Watch) : Status × TCPClientImpl Callback Buffer Address :=
  match remote with
  | none => (.failed ⟨.kInvalidArg, .text "remote address is invalid", none⟩, c)
  | some address =>
      let c := { c with connectState := .kConnecting, remoteAddress := some address }
      let status := SocketOp.connect doConnect
      if !status.isTryAgain then
        (status, { c with connectState := if status.isOk then .kConnected else .kNone })
      else
        let c := if connectTimeout.isInfinite then c else { c with connectTimeoutController := true }
        match watch with
        | .failed e => (mapSystemError e, { c with connectState := .kNone })
        | .registered =>
            (.tryAgain (.text "CONNECT PENDING"),
              { c with connectSocketController := true, connectCallback := some connectCallback })

def readIfReady (c : TCPClientImpl Callback Buffer Address)
    (readCallback : ReadIfReadyCallback Callback) (doRead : SysResult) (watch : Watch) :
    StatusOr Nat × TCPClientImpl Callback Buffer Address :=
  let ret := FileOp.transfer doRead
  if !ret.isTryAgain then (ret, c)
  else
    match watch with
    | .failed e => (StatusOr.ofStatus (mapSystemError e), c)
    | .registered =>
        (StatusOr.ofStatus (.tryAgain (.text "READ PENDING")),
          { c with readSocketController := true, readIfReadyCallback := some readCallback })

def read (c : TCPClientImpl Callback Buffer Address) (buf : Buffer) (bufLen : Int)
    (readCallback : Callback) (doRead : SysResult) (watch : Watch) :
    StatusOr Nat × TCPClientImpl Callback Buffer Address :=
  let (ret, c) := c.readIfReady .retryRead doRead watch
  if ret.isTryAgain then
    (ret, { c with readBuf := some buf, readBufLen := bufLen, readCallback := some readCallback })
  else (ret, c)

def cancelReadIfReady (c : TCPClientImpl Callback Buffer Address) :
    TCPClientImpl Callback Buffer Address :=
  { c with readSocketController := false, readIfReadyCallback := none }

def write (c : TCPClientImpl Callback Buffer Address) (buf : Buffer) (bufLen : Int)
    (writeCallback : Callback) (doWrite : SysResult) (watch : Watch) :
    StatusOr Nat × TCPClientImpl Callback Buffer Address :=
  let ret := FileOp.transfer doWrite
  if !ret.isTryAgain then (ret, c)
  else
    match watch with
    | .failed e => (StatusOr.ofStatus (mapSystemError e), c)
    | .registered =>
        (StatusOr.ofStatus (.tryAgain (.text "WRITE PENDING")),
          { c with
            writeSocketController := true
            writeBuf := some buf
            writeBufLen := bufLen
            writeCallback := some writeCallback })

/-- `Disconnect`. It clears the write members only when no write is pending. -/
def disconnect (c : TCPClientImpl Callback Buffer Address) :
    TCPClientImpl Callback Buffer Address where
  socketFd := -1
  connectTimeoutController := false
  connectSocketController := false
  connectCallback := none
  connectState := .kNone
  readSocketController := false
  readBuf := if c.readCallback.isSome then none else c.readBuf
  readBufLen := if c.readCallback.isSome then 0 else c.readBufLen
  readCallback := none
  readIfReadyCallback := none
  writeSocketController := false
  writeBuf := if c.writeCallback.isNone then none else c.writeBuf
  writeBufLen := if c.writeCallback.isNone then 0 else c.writeBufLen
  writeCallback := c.writeCallback
  localAddress := none
  remoteAddress := none

/-! ### Handlers -/

/-- The rest of a handler. -/
def resume (c : TCPClientImpl Callback Buffer Address) : Frame → TCPClientImpl Callback Buffer Address
  | .connectDone => { c with connectCallback := none }
  | .readDone => { c with readIfReadyCallback := none }
  | .retryRead => { c with readCallback := none }
  | .writeDone => { c with writeCallback := none }

/-- The rest of all handlers on the stack. -/
def resumeAll (c : TCPClientImpl Callback Buffer Address) (frames : List Frame) :
    TCPClientImpl Callback Buffer Address :=
  frames.foldl resume c

/-- `OnConnectDone`, where `getsockopt` gives `soError`. The mapped status is declared inside the
branch; the callback receives the status of the caller. -/
def onConnectDone (c : TCPClientImpl Callback Buffer Address) (status : Status) (soError : Int) :
    TCPClientImpl Callback Buffer Address × Option (Invocation Callback) :=
  if status.isOk then
    if (mapSocketConnectError soError).isTryAgain then (c, none)
    else
      ({ c with connectSocketController := false, connectState := .kConnected },
        some ⟨c.connectCallback, .status status, [.connectDone]⟩)
  else ({ c with connectState := .kNone }, some ⟨c.connectCallback, .status status, [.connectDone]⟩)

/-- `OnConnectTimeout`; with a status that is not ok the socket is not asked. -/
def onConnectTimeout (c : TCPClientImpl Callback Buffer Address) :
    TCPClientImpl Callback Buffer Address × Option (Invocation Callback) :=
  c.onConnectDone (.timeout (.text "Connect timeout")) 0

/-- `RetryRead`, entered from `OnReadDone` with `read_if_ready_callback_` still set. -/
def retryRead (c : TCPClientImpl Callback Buffer Address) (doRead : SysResult) (watch : Watch) :
    TCPClientImpl Callback Buffer Address × Option (Invocation Callback) :=
  let (ret, c) := c.readIfReady .retryRead doRead watch
  if ret.isTryAgain then (c, none)
  else
    ({ c with readBuf := none, readBufLen := 0 },
      some ⟨c.readCallback, .statusOr ret, [.retryRead]⟩)

def onReadDone (c : TCPClientImpl Callback Buffer Address) (doRead : SysResult) (watch : Watch) :
    TCPClientImpl Callback Buffer Address × Option (Invocation Callback) :=
  let c := { c with readSocketController := false }
  match c.readIfReadyCallback with
  | none => (c, some ⟨none, .status .ok, [.readDone]⟩)
  | some (.user callback) => (c, some ⟨some callback, .status .ok, [.readDone]⟩)
  | some .retryRead =>
      match c.retryRead doRead watch with
      | (c, none) => (c.resume .readDone, none)
      | (c, some invocation) =>
          (c, some { invocation with rest := invocation.rest ++ [.readDone] })

def onWriteDone (c : TCPClientImpl Callback Buffer Address) (doWrite : SysResult) :
    TCPClientImpl Callback Buffer Address × Option (Invocation Callback) :=
  let ret := FileOp.transfer doWrite
  if ret.isTryAgain then (c, none)
  else
    ({ c with writeSocketController := false, writeBuf := none, writeBufLen := 0 },
      some ⟨c.writeCallback, .statusOr ret, [.writeDone]⟩)

def onFileReadable (c : TCPClientImpl Callback Buffer Address) (doRead : SysResult)
    (watch : Watch) : TCPClientImpl Callback Buffer Address × Option (Invocation Callback) :=
  c.onReadDone doRead watch

def onFileWritable (c : TCPClientImpl Callback Buffer Address) (soError : Int)
    (doWrite : SysResult) : TCPClientImpl Callback Buffer Address × Option (Invocation Callback) :=
  if c.connectState = .kConnecting then c.onConnectDone .ok soError else c.onWriteDone doWrite

end TCPClientImpl

end Iomgr
