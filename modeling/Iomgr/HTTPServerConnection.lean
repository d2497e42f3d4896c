import Iomgr.HTTPResponse
import Iomgr.HTTPServer
import Iomgr.IOBuffer
import Iomgr.TransitionSystem

/-!
The life of one server connection: the read loop up to a response, then the write loop up to
`Finish`, which deletes the object. A call to `Read` or `Write` returns at once or is completed
later; its results are the actions. The bytes that a write has transferred are on the wire.

`DoWriteLoop` goes back to the start of the response each time it is entered, also when a deferred
write has put bytes on the wire. After a write error it calls `Finish` and goes on with its loop,
and `HandleReadResult` gives a connection up after a read error without calling `Finish`.
-/

namespace Iomgr

/-- `HTTPResponse::BadRequest`. -/
def HTTPResponse.badRequest : HTTPResponse :=
  { HTTPResponse.new with statusCode := .kBadRequest, version := .kHTTP11 }

namespace HTTPServerConnection

/-- What comes next: a call to `Read` or `Write`, the completion of one, or nothing. -/
inductive Control
  | read
  | reading
  | write
  | writing
  | idle
  deriving DecidableEq, Repr

/-- The members of an `InternalResponse`, the bytes on the wire, and the calls of `Finish`.
`usedAfterFinish` records that a statement has read or written a member after `Finish`. Statements
after `Finish` are executed on the memory as the object left it. -/
structure Connection where
  internal : InternalResponse
  outgoint : Option DrainableIOBuffer
  control : Control
  wire : Bytes
  finished : List Status
  usedAfterFinish : Bool

/-- The results of `Read` and `Write`, and those the callbacks are given. A deferred read or write
is completed with bytes or an error, never with `TryAgain`. -/
inductive Action
  | readReturns (read : StatusOr Bytes)
  | readCompletes (read : StatusOr Bytes)
  | writeReturns (write : StatusOr Nat)
  | writeCompletes (write : StatusOr Nat)
  deriving DecidableEq, Repr

namespace Connection

/-- A statement reads or writes a member. -/
def access (c : Connection) : Connection :=
  { c with usedAfterFinish := c.usedAfterFinish || !c.finished.isEmpty }

/-- `Finish`, which ends with `delete this`. -/
def finish (c : Connection) (status : Status) : Connection :=
  { c with finished := c.finished ++ [status] }

/-- `DoWriteLoop` from the test of its loop on. -/
def writeLoop (c : Connection) (outgoint : DrainableIOBuffer) : Connection :=
  let c := { c.access with outgoint := some outgoint }
  if outgoint.bytesRemaining ≠ 0 then { c with control := .write }
  else { c.finish .ok with control := .idle }

def doWriteLoop (c : Connection) (outgoint : DrainableIOBuffer) : Connection :=
  c.writeLoop (outgoint.setOffset 0)

/-- `SendResponse`, of a response with this text. -/
def sendResponse (c : Connection) (msg : Bytes) : Connection := c.doWriteLoop (.new msg)

/-- The bytes at the start of the buffer are put on the wire. -/
def transfer (c : Connection) (outgoint : DrainableIOBuffer) (n : Nat) : Connection :=
  { c with wire := c.wire ++ outgoint.data.take n }

/-- `DoWriteLoop` after its call to `Write`. -/
def writeReturns (c : Connection) (outgoint : DrainableIOBuffer) : StatusOr Nat → Connection
  | .value n => (c.transfer outgoint n).writeLoop (outgoint.didConsume n)
  | .failed failure =>
      if (Status.failed failure).isTryAgain then { c with control := .writing }
      else (c.finish (.failed failure)).writeLoop outgoint

/-- `OnWriteCompleted`. -/
def onWriteCompleted (c : Connection) (outgoint : DrainableIOBuffer) : StatusOr Nat → Connection
  | .value n => (c.transfer outgoint n).doWriteLoop outgoint
  | .failed failure => { c.access.finish (.failed failure) with control := .idle }

def doReadLoop (c : Connection) : Connection := { c.access with control := .read }

section Reads

variable (delegate : HTTPRequest → Bytes)

/-- The text of a response; `delegate` gives the text of the one that it fills. -/
def responseText (c : Connection) : ResponseKind → Bytes
  | .badRequest => HTTPResponse.badRequest.toString.getD []
  | .ofDelegate => delegate c.internal.request

def perform (c : Connection) : Output → Connection
  | .onHTTPRequest _ => c.access
  | .sendResponse kind => c.sendResponse (c.responseText delegate kind)
  | .finish status => c.finish status

/-- `HandleReadResult`, and the loop or callback around it. -/
def handleReadResult (c : Connection) (read : StatusOr Bytes) : Connection :=
  let (readMore, outputs, internal) := c.internal.handleReadResult read
  let c := outputs.foldl (perform delegate) { c.access with internal := internal, control := .idle }
  if readMore then c.doReadLoop else c

end Reads

end Connection

/-- A connection whose `DoReadLoop` starts; the line buffer of its parser holds whatever it
holds. -/
def start (curLine : Nat → UInt8) : Connection where
  internal := .new curLine
  outgoint := none
  control := .read
  wire := []
  finished := []
  usedAfterFinish := false

def step (delegate : HTTPRequest → Bytes) (c : Connection) : Action → Option Connection
  | .readReturns read =>
      match c.control with
      | .read =>
          some (if read.isTryAgain then { c with control := .reading }
            else c.handleReadResult delegate read)
      | _ => none
  | .readCompletes read =>
      match c.control with
      | .reading => if read.isTryAgain then none else some (c.handleReadResult delegate read)
      | _ => none
  | .writeReturns write =>
      match c.control, c.outgoint with
      | .write, some outgoint =>
          if write.Transferred outgoint.bytesRemaining then some (c.writeReturns outgoint write)
          else none
      | _, _ => none
  | .writeCompletes write =>
      match c.control, c.outgoint with
      | .writing, some outgoint =>
          if write.Transferred outgoint.bytesRemaining ∧ write.isTryAgain = false then
            some (c.onWriteCompleted outgoint write)
          else none
      | _, _ => none

variable {delegate : HTTPRequest → Bytes} {c d : Connection} {a : Action}

/-- What a step can do. -/
theorem step_cases (h : step delegate c a = some d) :
    (∃ read, a = .readReturns read ∧ c.control = .read ∧ read.isTryAgain = true ∧
      d = { c with control := .reading }) ∨
    (∃ read, (a = .readReturns read ∧ c.control = .read ∨
        a = .readCompletes read ∧ c.control = .reading) ∧
      read.isTryAgain = false ∧ d = c.handleReadResult delegate read) ∨
    (∃ outgoint write, a = .writeReturns write ∧ c.control = .write ∧ c.outgoint = some outgoint ∧
      write.Transferred outgoint.bytesRemaining ∧ d = c.writeReturns outgoint write) ∨
    ∃ outgoint write, a = .writeCompletes write ∧ c.control = .writing ∧
      c.outgoint = some outgoint ∧ write.Transferred outgoint.bytesRemaining ∧
      write.isTryAgain = false ∧ d = c.onWriteCompleted outgoint write := by
  cases a with
  | readReturns read =>
      simp only [step] at h
      split at h
      · rename_i hcontrol
        cases h
        cases hagain : read.isTryAgain with
        | true => exact Or.inl ⟨read, rfl, hcontrol, hagain, rfl⟩
        | false => exact Or.inr (Or.inl ⟨read, Or.inl ⟨rfl, hcontrol⟩, hagain, rfl⟩)
      · cases h
  | readCompletes read =>
      simp only [step] at h
      split at h
      · rename_i hcontrol
        split_ifs at h with hagain
        cases h
        exact Or.inr (Or.inl ⟨read, Or.inr ⟨rfl, hcontrol⟩, Bool.eq_false_iff.mpr hagain,
          rfl⟩)
      · cases h
  | writeReturns write =>
      simp only [step] at h
      split at h
      · rename_i outgoint hcontrol hout
        split_ifs at h with htransferred
        cases h
        exact Or.inr (Or.inr (Or.inl ⟨outgoint, write, rfl, hcontrol, hout, htransferred, rfl⟩))
      · cases h
  | writeCompletes write =>
      simp only [step] at h
      split at h
      · rename_i outgoint hcontrol hout
        split_ifs at h with htransferred
        cases h
        exact Or.inr (Or.inr (Or.inr ⟨outgoint, write, rfl, hcontrol, hout, htransferred.1,
          htransferred.2, rfl⟩))
      · cases h

/-! ### What is on the wire -/

/-- The bytes on the wire are the beginning of the response, and all of it once `Finish` has been
called with an ok status. -/
def OnWire (msg : Bytes) (c : Connection) : Prop :=
  c.wire <+: msg ∧ (.ok ∈ c.finished → c.wire = msg)

/-- No deferred write is completed with bytes. -/
def NoneDeferred (_ : Connection) : Action → Prop
  | .writeCompletes (.value _) => False
  | _ => True

/-- The response is being written, with the offset of the buffer at the bytes on the wire, or the
connection does nothing more. -/
def Sending (msg : Bytes) (c : Connection) : Prop :=
  OnWire msg c ∧
    (c.control = .idle ∨
      (c.control = .write ∨ c.control = .writing) ∧
        ∃ outgoint, c.outgoint = some outgoint ∧ outgoint.Sent msg c.wire ∧ .ok ∉ c.finished)

theorem sending_writeLoop {msg : Bytes} {outgoint : DrainableIOBuffer}
    (hlength : msg.length < 2 ^ 32) (hsent : outgoint.Sent msg c.wire)
    (hfinished : .ok ∉ c.finished) : Sending msg (c.writeLoop outgoint) := by
  unfold Connection.writeLoop
  dsimp only
  split_ifs with hremaining
  · exact ⟨⟨hsent.isPrefix, fun hok => absurd hok hfinished⟩,
      Or.inr ⟨Or.inl rfl, outgoint, rfl, hsent, hfinished⟩⟩
  · have hzero : outgoint.bytesRemaining = 0 := Decidable.not_not.mp hremaining
    exact ⟨⟨hsent.isPrefix, fun _ => hsent.eq_of_bytesRemaining hlength hzero⟩, Or.inl rfl⟩

theorem sending_sendResponse {msg : Bytes} (hlength : msg.length < 2 ^ 32) (hwire : c.wire = [])
    (hfinished : c.finished = []) : Sending msg (c.sendResponse msg) := by
  have hsent : ((DrainableIOBuffer.new msg).setOffset 0).Sent msg c.wire := by
    rw [hwire]
    exact DrainableIOBuffer.sent_new msg
  have hnone : .ok ∉ c.finished := by
    rw [hfinished]
    exact List.not_mem_nil
  rw [Connection.sendResponse, Connection.doWriteLoop]
  exact sending_writeLoop hlength hsent hnone

theorem sending_writeReturns {msg : Bytes} {outgoint : DrainableIOBuffer} {write : StatusOr Nat}
    (hlength : msg.length < 2 ^ 32) (hout : c.outgoint = some outgoint)
    (hsent : outgoint.Sent msg c.wire) (hfinished : .ok ∉ c.finished)
    (hwrite : write.Transferred outgoint.bytesRemaining) :
    Sending msg (c.writeReturns outgoint write) := by
  cases write with
  | value n => exact sending_writeLoop hlength (hsent.didConsume hwrite.2) hfinished
  | failed failure =>
      unfold Connection.writeReturns
      dsimp only
      split_ifs
      · exact ⟨⟨hsent.isPrefix, fun hok => absurd hok hfinished⟩,
          Or.inr ⟨Or.inr rfl, outgoint, hout, hsent, hfinished⟩⟩
      · have hnone : .ok ∉ (c.finish (.failed failure)).finished := by
          simpa [Connection.finish] using hfinished
        exact sending_writeLoop hlength hsent hnone

/-- A step keeps the offset of the buffer at the bytes on the wire, unless it completes a deferred
write with bytes. -/
theorem sending_step {msg : Bytes} (hlength : msg.length < 2 ^ 32) (h : Sending msg c)
    (hnone : NoneDeferred c a) (hstep : step delegate c a = some d) : Sending msg d := by
  obtain ⟨honwire, hcontrol⟩ := h
  obtain ⟨read, rfl, hread, -, rfl⟩ | ⟨read, hread, -, rfl⟩ |
    ⟨outgoint, write, rfl, hwrite, hout, htransferred, rfl⟩ |
    ⟨outgoint, write, rfl, hwriting, hout, -, -, rfl⟩ := step_cases hstep
  · simp [hread] at hcontrol
  · rcases hread with ⟨-, hread⟩ | ⟨-, hread⟩ <;> simp [hread] at hcontrol
  · simp only [hwrite, hout, reduceCtorEq, false_or, or_false, true_and, Option.some.injEq,
      exists_eq_left'] at hcontrol
    exact sending_writeReturns hlength hout hcontrol.1 hcontrol.2 htransferred
  · cases write with
    | value n => exact hnone.elim
    | failed failure =>
        refine ⟨⟨honwire.1, fun hok => honwire.2 ?_⟩, Or.inl rfl⟩
        simpa [Connection.onWriteCompleted, Connection.finish, Connection.access] using hok

/-- For every response of less than `2 ^ 32` bytes and all results of its writes: as long as no
deferred write is completed with bytes, what is on the wire is the beginning of the response, and
the whole of it when `Finish` is called with an ok status. -/
theorem response_sent_once (delegate : HTTPRequest → Bytes) (curLine : Nat → UInt8) (msg : Bytes)
    (hlength : msg.length < 2 ^ 32) (as : List Action)
    (hnone : Transition.Meets (step delegate) NoneDeferred ((start curLine).sendResponse msg) as) :
    Transition.Along (step delegate) (OnWire msg) ((start curLine).sendResponse msg) as :=
  Transition.along_of_meets (fun _ _ _ hs ha hstep => sending_step hlength hs ha hstep)
    (fun _ h => h.1) (sending_sendResponse hlength rfl rfl) hnone

instance (c : Connection) (a : Action) : Decidable (NoneDeferred c a) :=
  match a with
  | .writeCompletes (.value _) => isFalse id
  | .writeCompletes (.failed _) => isTrue trivial
  | .readReturns _ => isTrue trivial
  | .readCompletes _ => isTrue trivial
  | .writeReturns _ => isTrue trivial

/-- A `Write` that the socket was not ready for. -/
def writePending : StatusOr Nat := .failed ⟨.kTryAgain, .text "WRITE PENDING", none⟩

/-- Two writes at once: all four bytes are on the wire when `Finish` is called. -/
theorem response_sent_in_two_writes :
    let sending := (start fun _ => 0).sendResponse [72, 84, 84, 80]
    let writes := [.writeReturns (.value 1), .writeReturns (.value 3)]
    (∃ c, Transition.run (step fun _ => []) sending writes = some c ∧ c.finished = [.ok] ∧
      c.wire = [72, 84, 84, 80]) ∧
    Transition.Along (step fun _ => []) (OnWire [72, 84, 84, 80]) sending writes :=
  ⟨⟨_, rfl, rfl, rfl⟩,
    response_sent_once (fun _ => []) (fun _ => 0) [72, 84, 84, 80] (by decide) _
      (Transition.meets_of_check rfl)⟩

/-- The response for a bad request, of whose bytes a deferred write transfers four: these are sent
again, and `Finish` is called with an ok status. -/
theorem deferred_write_sent_again :
    let msg := HTTPResponse.badRequest.toString.getD []
    ∃ c, Transition.run (step fun _ => []) ((start fun _ => 0).sendResponse msg)
        [.writeReturns writePending, .writeCompletes (.value 4), .writeReturns (.value 28)] = some c ∧
      c.finished = [.ok] ∧ c.wire = msg.take 4 ++ msg ∧ ¬OnWire msg c := by
  intro msg
  have hrun : (Transition.run (step fun _ => []) ((start fun _ => 0).sendResponse msg)
      [.writeReturns writePending, .writeCompletes (.value 4), .writeReturns (.value 28)]).map
      (fun c => (c.finished, c.wire)) = some ([.ok], msg.take 4 ++ msg) := by
    decide +kernel
  obtain ⟨c, hc, heq⟩ := Option.map_eq_some_iff.mp hrun
  obtain ⟨hfinished, hwire⟩ := Prod.mk.inj heq
  refine ⟨c, hc, hfinished, hwire, fun h => ?_⟩
  have hlength := h.1.length_le
  rw [hwire] at hlength
  exact absurd hlength (by decide +kernel)

/-! ### The end of a connection -/

/-- `Finish` is called at most once, no member is used after it, and a connection that has no read
and no write pending has called it. -/
def EndsOnce (c : Connection) : Prop :=
  c.finished.length ≤ 1 ∧ c.usedAfterFinish = false ∧
    (c.control = .idle → c.finished.length = 1)

/-- No read fails, and no `Write` of the write loop does, but for a would-block result. The write
that is completed later may fail. -/
def NoneFailed (_ : Connection) : Action → Prop
  | .readReturns read => read.isTryAgain = true ∨ read.status.isOk = true
  | .readCompletes read => read.isTryAgain = true ∨ read.status.isOk = true
  | .writeReturns write => write.isTryAgain = true ∨ write.status.isOk = true
  | .writeCompletes _ => True

instance (c : Connection) (a : Action) : Decidable (NoneFailed c a) :=
  match a with
  | .readReturns _ => inferInstanceAs (Decidable (_ ∨ _))
  | .readCompletes _ => inferInstanceAs (Decidable (_ ∨ _))
  | .writeReturns _ => inferInstanceAs (Decidable (_ ∨ _))
  | .writeCompletes _ => isTrue trivial

/-- `Finish` has been called exactly when nothing is left to do. -/
structure Proper (c : Connection) : Prop where
  unused : c.usedAfterFinish = false
  finished : c.finished.length = if c.control = .idle then 1 else 0

theorem Proper.endsOnce (h : Proper c) : EndsOnce c := by
  refine ⟨?_, h.unused, fun hidle => ?_⟩
  · rw [h.finished]
    split_ifs <;> decide
  · rw [h.finished, if_pos hidle]

theorem proper_start (curLine : Nat → UInt8) : Proper (start curLine) := ⟨rfl, rfl⟩

/-- A connection that has not called `Finish` and has used nothing after it. -/
def Untouched (c : Connection) : Prop := c.usedAfterFinish = false ∧ c.finished = []

theorem Proper.untouched (h : Proper c) (hcontrol : c.control ≠ .idle) : Untouched c := by
  have hfinished := h.finished
  rw [if_neg hcontrol] at hfinished
  exact ⟨h.unused, List.length_eq_zero_iff.mp hfinished⟩

theorem Proper.untouched_of_read (h : Proper c) {read : StatusOr Bytes}
    (hread : a = .readReturns read ∧ c.control = .read ∨
      a = .readCompletes read ∧ c.control = .reading) : Untouched c := by
  apply h.untouched
  rcases hread with ⟨-, hread⟩ | ⟨-, hread⟩
  · simp [hread]
  · simp [hread]

theorem Untouched.access (h : Untouched c) : Untouched c.access := by
  refine ⟨?_, h.2⟩
  simp [Connection.access, h.1, h.2]

theorem proper_writeLoop (h : Untouched c) (outgoint : DrainableIOBuffer) :
    Proper (c.writeLoop outgoint) := by
  have haccess := h.access
  unfold Connection.writeLoop
  dsimp only
  split_ifs
  · refine ⟨haccess.1, ?_⟩
    change c.finished.length = _
    rw [h.2]
    rfl
  · refine ⟨haccess.1, ?_⟩
    change (c.finished ++ [Status.ok]).length = _
    rw [h.2]
    rfl

theorem proper_doWriteLoop (h : Untouched c) (outgoint : DrainableIOBuffer) :
    Proper (c.doWriteLoop outgoint) := by
  rw [Connection.doWriteLoop]
  exact proper_writeLoop h _

theorem proper_sendResponse (h : Untouched c) (msg : Bytes) : Proper (c.sendResponse msg) := by
  rw [Connection.sendResponse]
  exact proper_doWriteLoop h _

/-- What bytes make the server do: read on, send one response, or call `Finish`. -/
inductive Handled : Bool × List Output × InternalResponse → Prop
  | readMore (r : InternalResponse) : Handled (true, [], r)
  | badRequest (r : InternalResponse) : Handled (false, [.sendResponse .badRequest], r)
  | respond (r : InternalResponse) :
      Handled (false, [.onHTTPRequest r.request, .sendResponse .ofDelegate], r)
  | finish (r : InternalResponse) (status : Status) : Handled (false, [.finish status], r)

theorem handled_respond (r : InternalResponse) : Handled r.respond := by
  unfold InternalResponse.respond
  split_ifs
  · exact .badRequest r
  · exact .respond r
  · exact .readMore r
  · exact .readMore r

theorem handled_value (r : InternalResponse) (bytes : Bytes) :
    Handled (r.handleReadResult (.value bytes)) := by
  rw [InternalResponse.handleReadResult]
  by_cases hbytes : 0 < bytes.length
  · rw [if_pos hbytes]
    split
    · exact .finish _ _
    · exact handled_respond _
  · rw [if_neg hbytes]
    exact .badRequest r

theorem handleReadResult_eq {read : StatusOr Bytes} {readMore : Bool} {outputs : List Output}
    {internal : InternalResponse}
    (h : c.internal.handleReadResult read = (readMore, outputs, internal)) :
    c.handleReadResult delegate read =
      if readMore then
        (outputs.foldl (Connection.perform delegate)
          { c.access with internal := internal, control := .idle }).doReadLoop
      else outputs.foldl (Connection.perform delegate)
        { c.access with internal := internal, control := .idle } := by
  rw [Connection.handleReadResult, h]

theorem proper_handleReadResult (h : Untouched c) (bytes : Bytes) :
    Proper (c.handleReadResult delegate (.value bytes)) := by
  have hhandled := handled_value c.internal bytes
  obtain ⟨result, hresult⟩ : ∃ result, c.internal.handleReadResult (.value bytes) = result :=
    ⟨_, rfl⟩
  rw [hresult] at hhandled
  have huntouched (r : InternalResponse) :
      Untouched { c.access with internal := r, control := .idle } := h.access
  cases hhandled with
  | readMore r =>
      rw [handleReadResult_eq hresult, if_pos rfl, List.foldl_nil]
      refine ⟨(huntouched r).access.1, ?_⟩
      exact congrArg List.length h.2
  | badRequest r =>
      rw [handleReadResult_eq hresult, if_neg Bool.false_ne_true, List.foldl_cons, List.foldl_nil,
        Connection.perform]
      exact proper_sendResponse (huntouched r) _
  | respond r =>
      rw [handleReadResult_eq hresult, if_neg Bool.false_ne_true, List.foldl_cons, List.foldl_cons,
        List.foldl_nil, Connection.perform, Connection.perform]
      exact proper_sendResponse (huntouched r).access _
  | finish r status =>
      rw [handleReadResult_eq hresult, if_neg Bool.false_ne_true, List.foldl_cons, List.foldl_nil,
        Connection.perform]
      refine ⟨h.access.1, ?_⟩
      change (c.finished ++ [status]).length = 1
      rw [h.2, List.nil_append, List.length_singleton]

theorem isOk_or_of_not_tryAgain {α : Type} {ret : StatusOr α}
    (h : ret.isTryAgain = true ∨ ret.status.isOk = true) (hagain : ret.isTryAgain = false) :
    ∃ x, ret = .value x := by
  cases ret with
  | value x => exact ⟨x, rfl⟩
  | failed failure => simp [hagain, StatusOr.status, Status.isOk] at h

theorem proper_writeReturns (h : Untouched c) {outgoint : DrainableIOBuffer} {write : StatusOr Nat}
    (hwrite : write.isTryAgain = true ∨ write.status.isOk = true) :
    Proper (c.writeReturns outgoint write) := by
  cases write with
  | value n =>
      have huntouched : Untouched (c.transfer outgoint n) := h
      exact proper_writeLoop huntouched _
  | failed failure =>
      have hagain : (Status.failed failure).isTryAgain = true := by
        simpa [StatusOr.isTryAgain, StatusOr.status, Status.isOk] using hwrite
      rw [Connection.writeReturns, if_pos hagain]
      exact ⟨h.1, congrArg List.length h.2⟩

theorem proper_onWriteCompleted (h : Untouched c) (outgoint : DrainableIOBuffer)
    (write : StatusOr Nat) : Proper (c.onWriteCompleted outgoint write) := by
  cases write with
  | value n =>
      have huntouched : Untouched (c.transfer outgoint n) := h
      exact proper_doWriteLoop huntouched _
  | failed failure =>
      refine ⟨h.access.1, ?_⟩
      change (c.finished ++ [Status.failed failure]).length = _
      rw [h.2]
      rfl

theorem proper_step (h : Proper c) (hnone : NoneFailed c a) (hstep : step delegate c a = some d) :
    Proper d := by
  obtain ⟨read, rfl, hread, -, rfl⟩ | ⟨read, hread, hagain, rfl⟩ |
    ⟨outgoint, write, rfl, hwrite, -, -, rfl⟩ |
    ⟨outgoint, write, rfl, hwriting, -, -, -, rfl⟩ := step_cases hstep
  · have huntouched := h.untouched (by simp [hread])
    exact ⟨h.unused, congrArg List.length huntouched.2⟩
  · have huntouched := h.untouched_of_read hread
    obtain ⟨bytes, rfl⟩ : ∃ bytes, read = .value bytes := by
      rcases hread with ⟨rfl, -⟩ | ⟨rfl, -⟩ <;> exact isOk_or_of_not_tryAgain hnone hagain
    exact proper_handleReadResult huntouched bytes
  · exact proper_writeReturns (h.untouched (by simp [hwrite])) hnone
  · exact proper_onWriteCompleted (h.untouched (by simp [hwriting])) outgoint write

/-- A read that fails leaves a connection with nothing to do and no call of `Finish`. -/
theorem not_endsOnce_handleReadResult (h : Untouched c) (failure : Failure) :
    ¬EndsOnce (c.handleReadResult delegate (.failed failure)) := by
  intro hends
  have hfinished := hends.2.2 rfl
  change c.finished.length = 1 at hfinished
  rw [h.2] at hfinished
  exact absurd hfinished (by decide)

/-- After a `Write` that fails the loop tests the buffer of an object that is deleted. -/
theorem not_endsOnce_writeReturns {outgoint : DrainableIOBuffer} {failure : Failure}
    (hagain : (Status.failed failure).isTryAgain = false) :
    ¬EndsOnce (c.writeReturns outgoint (.failed failure)) := by
  intro hends
  have hunused := hends.2.1
  rw [Connection.writeReturns, hagain, if_neg Bool.false_ne_true] at hunused
  unfold Connection.writeLoop at hunused
  dsimp only at hunused
  split_ifs at hunused <;> simp [Connection.access, Connection.finish] at hunused

theorem not_endsOnce_step (h : Proper c) (hfailed : ¬NoneFailed c a)
    (hstep : step delegate c a = some d) : ¬EndsOnce d := by
  obtain ⟨read, rfl, hread, hagain, rfl⟩ | ⟨read, hread, hagain, rfl⟩ |
    ⟨outgoint, write, rfl, hwrite, -, -, rfl⟩ |
    ⟨outgoint, write, rfl, hwriting, -, -, -, rfl⟩ := step_cases hstep
  · exact absurd (Or.inl hagain) hfailed
  · have huntouched := h.untouched_of_read hread
    cases read with
    | failed failure => exact not_endsOnce_handleReadResult huntouched failure
    | value bytes =>
        rcases hread with ⟨rfl, -⟩ | ⟨rfl, -⟩ <;> exact absurd (Or.inr rfl) hfailed
  · cases write with
    | failed failure =>
        apply not_endsOnce_writeReturns
        exact Bool.eq_false_iff.mpr fun hagain => hfailed (Or.inl hagain)
    | value n => exact absurd (Or.inr rfl) hfailed
  · exact absurd trivial hfailed

/-- For all results of reads, of the parser and of writes: `Finish` is called at most once, no
member is used after it and no connection is left without it, if and only if no read fails and no
`Write` of the write loop does, but for would-block results. -/
theorem connection_ends_once_iff (delegate : HTTPRequest → Bytes) (curLine : Nat → UInt8)
    (as : List Action) :
    Transition.Along (step delegate) EndsOnce (start curLine) as ↔
      Transition.Meets (step delegate) NoneFailed (start curLine) as :=
  Transition.along_iff_meets (fun _ _ _ hs ha hstep => proper_step hs ha hstep)
    (fun _ _ _ hs ha hstep => not_endsOnce_step hs ha hstep) (fun _ h => h.endsOnce)
    (proper_start curLine)

def connectionReset : Failure := ⟨.kIOError, .strerror ECONNRESET, none⟩

/-- A read error leaves the connection behind; after the end of the input, a write error makes the
loop use the deleted object. -/
theorem connection_left_and_used :
    ¬Transition.Along (step fun _ => []) EndsOnce (start fun _ => 0)
        [.readReturns (.failed connectionReset)] ∧
      ¬Transition.Along (step fun _ => []) EndsOnce (start fun _ => 0)
        [.readReturns (.value []), .writeReturns (.failed connectionReset)] := by
  constructor
  · rintro ⟨-, hnext⟩
    have hends : EndsOnce _ := hnext _ rfl
    exact absurd (hends.2.2 rfl) (by decide)
  · rintro ⟨-, hnext⟩
    obtain ⟨-, hlast⟩ := hnext _ rfl
    have hends : EndsOnce _ := hlast _ rfl
    exact absurd hends.2.1 (by decide +kernel)

end HTTPServerConnection

end Iomgr
