import Mathlib.Tactic.Common

/-!
The result of an operation, and how the error numbers of the system calls become one. The texts of
`strerror` belong to the C library: a message only says of which error number it is the text.
-/

namespace Iomgr

inductive Code
  | kUnknown
  | kInvalidArg
  | kNotFound
  | kNotSupported
  | kCorruption
  | kIOError
  | kTryAgain
  | kUnimplemented
  | kNoPermission
  | kOutOfMemory
  | kOutOfRange
  | kInUse
  | kTimeout
  | kInternal
  deriving DecidableEq, Repr

inductive Message
  | text (s : String)
  | strerror (osErrno : Int)
  deriving DecidableEq, Repr

/-- What a status that is not `kOk` carries. -/
structure Failure where
  code : Code
  msg : Message
  msg2 : Option Message := none
  deriving DecidableEq, Repr

inductive Status
  | ok
  | failed (failure : Failure)
  deriving DecidableEq, Repr

namespace Status

def isOk : Status → Bool
  | .ok => true
  | .failed _ => false

def hasCode (code : Code) : Status → Bool
  | .ok => false
  | .failed failure => failure.code = code

def isTryAgain : Status → Bool := hasCode .kTryAgain

def tryAgain (msg : Message) (msg2 : Option Message := none) : Status :=
  .failed ⟨.kTryAgain, msg, msg2⟩

def timeout (msg : Message) (msg2 : Option Message := none) : Status :=
  .failed ⟨.kTimeout, msg, msg2⟩

def noPermission (msg : Message) (msg2 : Option Message := none) : Status :=
  .failed ⟨.kNoPermission, msg, msg2⟩

end Status

/-- A value, or a status that is not ok. -/
inductive StatusOr (α : Type)
  | value (a : α)
  | failed (failure : Failure)
  deriving DecidableEq, Repr

namespace StatusOr

variable {α : Type}

/-- The conversion from a status. One that is ok carries no value and becomes an error. -/
def ofStatus : Status → StatusOr α
  | .ok => .failed ⟨.kUnknown, .text "Unknown status", none⟩
  | .failed failure => .failed failure

def status : StatusOr α → Status
  | .value _ => .ok
  | .failed failure => .failed failure

def isTryAgain (r : StatusOr α) : Bool := r.status.isTryAgain

@[simp] theorem isTryAgain_value (a : α) : (value a).isTryAgain = false := rfl

@[simp] theorem isTryAgain_ofStatus (s : Status) :
    (ofStatus s : StatusOr α).isTryAgain = s.isTryAgain := by
  cases s <;> rfl

end StatusOr

/-! ### Error numbers -/

def EPERM : Int := 1
def ENOENT : Int := 2
def EIO : Int := 5
def E2BIG : Int := 7
def EAGAIN : Int := 11
def EACCES : Int := 13
def EINVAL : Int := 22
def EBADFD : Int := 77
def ENOPROTOOPT : Int := 92
def EPFNOSUPPORT : Int := 96
def EAFNOSUPPORT : Int := 97
def EADDRINUSE : Int := 98
def EADDRNOTAVAIL : Int := 99
def ENETDOWN : Int := 100
def ENETUNREACH : Int := 101
def ENETRESET : Int := 102
def ECONNABORTED : Int := 103
def ECONNRESET : Int := 104
def ENOBUFS : Int := 105
def EISCONN : Int := 106
def ENOTCONN : Int := 107
def ESHUTDOWN : Int := 108
def ETIMEDOUT : Int := 110
def ECONNREFUSED : Int := 111
def EHOSTDOWN : Int := 112
def EHOSTUNREACH : Int := 113
def EINPROGRESS : Int := 115

/-- The error numbers `MapSystemError` takes to `kIOError`. -/
def ioErrors : List Int :=
  [ENOENT, EIO, EBADFD, EADDRNOTAVAIL, ENETDOWN, ENETUNREACH, ENETRESET, ECONNABORTED, ECONNRESET,
    ENOBUFS, ECONNREFUSED, EISCONN, ENOTCONN, ESHUTDOWN, EHOSTDOWN, EHOSTUNREACH]

/-- The code `MapSystemError` gives to an error number other than zero. `EWOULDBLOCK` is
`EAGAIN`. -/
def systemErrorCode (osErrno : Int) : Code :=
  if osErrno = EPERM then .kNoPermission
  else if osErrno ∈ ioErrors then .kIOError
  else if osErrno ∈ [E2BIG, EINVAL] then .kInvalidArg
  else if osErrno = EAGAIN then .kTryAgain
  else if osErrno ∈ [ENOPROTOOPT, EPFNOSUPPORT, EAFNOSUPPORT] then .kUnimplemented
  else if osErrno = EADDRINUSE then .kInUse
  else if osErrno = ETIMEDOUT then .kTimeout
  else .kUnknown

def mapSystemError (osErrno : Int) : Status :=
  if osErrno = 0 then .ok else .failed ⟨systemErrorCode osErrno, .strerror osErrno, none⟩

def mapSocketConnectError (osErrno : Int) : Status :=
  if osErrno = EINPROGRESS then .tryAgain (.text "IO pending") (some (.strerror osErrno))
  else if osErrno = EACCES then
    .noPermission (.text "Network acess denied") (some (.strerror osErrno))
  else if osErrno = ETIMEDOUT then
    .timeout (.text "Connection timeout") (some (.strerror osErrno))
  else mapSystemError osErrno

theorem systemErrorCode_tryAgain {e : Int} : systemErrorCode e = .kTryAgain ↔ e = EAGAIN := by
  constructor
  · intro h
    unfold systemErrorCode at h
    split_ifs at h with _ _ _ hagain
    exact hagain
  · rintro rfl
    decide

theorem mapSystemError_isTryAgain {e : Int} :
    (mapSystemError e).isTryAgain = true ↔ e = EAGAIN := by
  unfold mapSystemError
  split_ifs with hzero
  · subst hzero
    decide
  · simp only [Status.isTryAgain, Status.hasCode, decide_eq_true_eq]
    exact systemErrorCode_tryAgain

end Iomgr
