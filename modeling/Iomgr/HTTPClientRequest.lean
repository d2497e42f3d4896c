import Iomgr.HTTPChunking
import Iomgr.HTTPClientWrites
import Iomgr.HTTPResponse

/-!
The life of a client's request: the connection, the write loop, the read loop, and `Finish`, which
calls `on_done` and deletes the object. Each call to `Connect`, `Write` or `Read` returns at once or is
completed later. The parser is given the bytes of each read; the end of the stream ends the request,
and whether all headers have come decides how.
-/

namespace Iomgr

namespace HTTPParser

variable {T : Type} [HTTPMessage T] {p p' p'' : HTTPParser T} {as bs : Bytes} {s s' : Nat}

/-- The parser goes on from where the first bytes have led it. -/
theorem parse_append (h : p.parse as = (true, s, p')) (bs : Bytes) :
    (p.parse (as ++ bs)).1 = (p'.parse bs).1 ∧ (p.parse (as ++ bs)).2.2 = (p'.parse bs).2.2 := by
  have happend : p.parse (as ++ bs) = p'.parseFrom (0 + as.length) bs s := by
    rw [parse, parseFrom_append, ← parse, h]
  rw [happend]
  exact p'.parseFrom_shift (0 + as.length) bs s

theorem parse_append_of_true (h : p.parse as = (true, s, p')) (h' : p'.parse bs = (true, s', p'')) :
    ∃ t, p.parse (as ++ bs) = (true, t, p'') := by
  obtain ⟨hverdict, hparser⟩ := parse_append h bs
  rw [h'] at hverdict hparser
  exact ⟨(p.parse (as ++ bs)).2.1, Prod.ext hverdict (Prod.ext rfl hparser)⟩

/-- What is accepted is accepted from its beginning on. -/
theorem parse_append_eq_true (h : (p.parse (as ++ bs)).1 = true) : (p.parse as).1 = true := by
  rw [parse, parseFrom_append, ← parse] at h
  split at h
  · cases h
  · next hparse => rw [hparse]

end HTTPParser

namespace HTTPClientRequest

/-- Where `DoConnect` is: about to call `Connect`, waiting for `OnConnectCompleted`, or past it. -/
inductive Connect
  | call
  | waiting
  | done
  deriving DecidableEq, Repr

/-- An `InternalRequest` with its write side, the threads that are in `DoReadLoop`, each at its call to
`Read`, and the reads that are pending. `received` has the bytes of all reads; `eof` records that one
of them was empty. `usedAfterFinish` records that a function of the object has been entered after
`Finish`. -/
structure Request where
  connect : Connect
  writes : HTTPClientWrites.InternalRequest
  readLoops : Nat
  reading : Nat
  parser : HTTPParser HTTPResponse
  received : Bytes
  eof : Bool
  finished : List Status
  usedAfterFinish : Bool

inductive Action
  | connectReturns (status : Status)
  | connectCompletes (status : Status)
  | write (a : HTTPClientWrites.Action)
  | readReturns (read : StatusOr Bytes)
  | readCompletes (read : StatusOr Bytes)
  deriving DecidableEq, Repr

def parseFailed : Failure := ⟨.kIOError, .text "Failed to parse incoming data", none⟩

def headersMissing : Failure := ⟨.kIOError, .text "Failed to recieve all headers", none⟩

namespace Request

def access (r : Request) : Request :=
  { r with usedAfterFinish := r.usedAfterFinish || !r.finished.isEmpty }

def finish (r : Request) (status : Status) : Request :=
  { r with finished := r.finished ++ [status] }

/-- A step of the write side, with the threads it sends into `DoReadLoop` and its calls of `Finish`. -/
def absorb (r : Request) (writes : HTTPClientWrites.InternalRequest) : Request :=
  { r with
    writes := writes
    readLoops := r.readLoops + (writes.readLoops.length - r.writes.readLoops.length)
    finished := r.finished ++ writes.finished.drop r.writes.finished.length }

def doWriteLoop (r : Request) : Request := r.absorb r.writes.doWriteLoop

/-- `DoConnect` after its call to `Connect`. -/
def connectReturns (r : Request) (status : Status) : Request :=
  if status.isOk then { r with connect := .done }.doWriteLoop
  else if status.isTryAgain then { r with connect := .waiting }
  else { r with connect := .done }.finish status

def onConnectCompleted (r : Request) (status : Status) : Request :=
  if status.isOk then { r with connect := .done }.doWriteLoop
  else { r with connect := .done }.finish status

/-- `HandleReadResult`, with the bytes of the read. The result says whether to read on. -/
def handleReadResult (r : Request) : StatusOr Bytes → Bool × Request
  | .failed failure => (false, r.finish (.failed failure))
  | .value bytes =>
      let r := { r with received := r.received ++ bytes }
      if 0 < bytes.length then
        match r.parser.parse bytes with
        | (false, _, parser) => (false, { r with parser := parser }.finish (.failed parseFailed))
        | (true, _, parser) => (true, { r with parser := parser })
      else
        (false, { r with eof := true }.finish
          (if r.parser.recievedAllHeaders then .ok else .failed headersMissing))

/-- A thread that has the result of a read goes on to the next read, or leaves. -/
def readResult (r : Request) (read : StatusOr Bytes) : Request :=
  let (readMore, r) := r.handleReadResult read
  if readMore then { r with readLoops := r.readLoops + 1 } else r

end Request

/-- A request whose `DoConnect` starts; the line buffer of its parser holds whatever it holds. -/
def start (requestText : Bytes) (curLine : Nat → UInt8) : Request where
  connect := .call
  writes := .new requestText
  readLoops := 0
  reading := 0
  parser := .new .new curLine
  received := []
  eof := false
  finished := []
  usedAfterFinish := false

def step (r : Request) : Action → Option Request
  | .connectReturns status =>
      if r.connect = .call then some (r.access.connectReturns status) else none
  | .connectCompletes status =>
      if r.connect = .waiting then some (r.access.onConnectCompleted status) else none
  | .write a => (HTTPClientWrites.step r.writes a).map r.access.absorb
  | .readReturns read =>
      if 0 < r.readLoops then
        let r := { r.access with readLoops := r.readLoops - 1 }
        some (if read.isTryAgain then { r with reading := r.reading + 1 } else r.readResult read)
      else none
  | .readCompletes read =>
      if 0 < r.reading ∧ read.isTryAgain = false then
        some ({ r.access with reading := r.reading - 1 }.readResult read)
      else none

/-- `Write` never returns `TryAgain`. -/
def NeverBlocked (r : Request) : Action → Prop
  | .write a => HTTPClientWrites.NeverBlocked r.writes a
  | _ => True

instance (r : Request) (a : Action) : Decidable (NeverBlocked r a) :=
  match a with
  | .write a => inferInstanceAs (Decidable (HTTPClientWrites.NeverBlocked r.writes a))
  | .connectReturns _ | .connectCompletes _ | .readReturns _ | .readCompletes _ => isTrue trivial

/-- What is under way: a connection attempt, threads in the two loops and reads. -/
def Request.outstanding (r : Request) : Nat :=
  (if r.connect = .done then 0 else 1) + r.writes.loops + r.readLoops + r.reading

/-! ### The write side -/

section Writes

open HTTPClientWrites (InternalRequest Writing)

variable {requestText : Bytes} {w w' : InternalRequest}

theorem bytesRemaining_eq {b : DrainableIOBuffer} {text wire : Bytes} (h : b.Sent text wire)
    (hlength : text.length < 2 ^ 31) : b.bytesRemaining = b.size - b.used := by
  have h0 := h.used_nonneg
  have hle := h.used_le
  have hsize := h.size_eq
  unfold DrainableIOBuffer.bytesRemaining
  exact Int.bmod_eq_of_le (by omega) (by omega)

/-- A thread at the test of the loop goes on to `Write` or into the read loop. -/
theorem doWriteLoop_cases (hlength : requestText.length < 2 ^ 31)
    (h : w.outgoing.Sent requestText w.wire) :
    w.doWriteLoop = { w with loops := w.loops + 1 } ∨
      w.doWriteLoop = { w with readLoops := w.readLoops ++ [w.wire] } := by
  have hle := h.used_le
  have hremaining := bytesRemaining_eq h hlength
  unfold InternalRequest.doWriteLoop
  split_ifs with hmore hzero
  · exact .inl rfl
  · exact .inr rfl
  · omega

/-- How the one thread of the write side leaves a step: in one of the two loops, or through `Finish`
with an error. -/
def Left (w w' : InternalRequest) : Prop :=
  (w'.finished = w.finished ∧ w'.loops + w'.readLoops.length = 1) ∨
    ∃ failure, w'.finished = w.finished ++ [.failed failure] ∧ w'.loops = 0 ∧ w'.readLoops = []

theorem left_doWriteLoop (hlength : requestText.length < 2 ^ 31)
    (h : w.outgoing.Sent requestText w.wire) (hloops : w.loops = 0) (hreads : w.readLoops = []) :
    Left w w.doWriteLoop := by
  rcases doWriteLoop_cases hlength h with heq | heq
  · rw [heq]
    exact .inl ⟨rfl, by simp [hloops, hreads]⟩
  · rw [heq]
    exact .inl ⟨rfl, by simp [hloops, hreads]⟩

theorem left_step {a : HTTPClientWrites.Action} (hlength : requestText.length < 2 ^ 31)
    (h : Writing requestText w) (hblock : HTTPClientWrites.NeverBlocked w a)
    (hstep : HTTPClientWrites.step w a = some w') :
    w.loops = 1 ∧ w.readLoops = [] ∧ Writing requestText w' ∧ Left w w' := by
  have hwriting : Writing requestText w' :=
    HTTPClientWrites.writing_step (by omega) h hblock hstep
  obtain ⟨loops, ret, rfl, hloops, hret, rfl⟩ | ⟨requested, ret, rfl, hpending, -, -, -⟩ :=
    HTTPClientWrites.step_cases hstep
  · have honce := h.once
    have hreads : w.readLoops = [] := List.length_eq_zero_iff.mp (by omega)
    refine ⟨by omega, hreads, hwriting, ?_⟩
    have hzero : loops = 0 := by omega
    cases ret with
    | value n =>
        exact left_doWriteLoop (w := { w with
            loops := loops
            overlapped := w.overlapped || w.pending.isSome
            wire := w.wire ++ w.outgoing.data.take n
            outgoing := w.outgoing.didConsume n }) hlength (h.sent.didConsume hret.2) hzero hreads
    | failed failure =>
        change (Status.failed failure).isTryAgain = false at hblock
        rw [InternalRequest.writeReturns, hblock, if_neg Bool.false_ne_true]
        exact .inr ⟨failure, rfl, hzero, hreads⟩
  · rw [h.pending] at hpending
    cases hpending

end Writes

/-! ### The request -/

section Request

variable {requestText : Bytes} {curLine : Nat → UInt8} {r r' : Request}

/-- The parser has accepted the bytes of all reads. -/
def Accepted (curLine : Nat → UInt8) (r : Request) : Prop :=
  ∃ s, (HTTPParser.new HTTPResponse.new curLine).parse r.received = (true, s, r.parser)

/-- `Finish` has not been called, and one thing is under way. -/
structure Running (requestText : Bytes) (curLine : Nat → UInt8) (r : Request) : Prop where
  finished : r.finished = []
  unused : r.usedAfterFinish = false
  eof : r.eof = false
  outstanding : r.outstanding = 1
  accepted : Accepted curLine r
  before : r.connect ≠ .done → r.writes = .new requestText
  after : r.connect = .done → HTTPClientWrites.Writing requestText r.writes ∧
    r.readLoops + r.reading = r.writes.readLoops.length

/-- How the status of `Finish` comes about: an empty read ends the request, and it is ok if all headers
have come; anything else that ends it is an error. -/
def Outcome (requestText : Bytes) (curLine : Nat → UInt8) (r : Request) (status : Status) : Prop :=
  (r.eof = true → r.writes.readLoops = [requestText] ∧ Accepted curLine r ∧
    status = if r.parser.recievedAllHeaders then .ok else .failed headersMissing) ∧
  (r.eof = false → status.isOk = false)

/-- `Finish` has been called, and nothing is under way. -/
structure Ended (requestText : Bytes) (curLine : Nat → UInt8) (r : Request) : Prop where
  once : ∃ status, r.finished = [status] ∧ Outcome requestText curLine r status
  unused : r.usedAfterFinish = false
  outstanding : r.outstanding = 0
  pending : r.writes.pending = none
  wire : r.writes.wire <+: requestText

theorem running_start (requestText : Bytes) (curLine : Nat → UInt8) :
    Running requestText curLine (start requestText curLine) where
  finished := rfl
  unused := rfl
  eof := rfl
  outstanding := rfl
  accepted := ⟨0, rfl⟩
  before _ := rfl
  after h := by cases h

theorem Running.access (h : Running requestText curLine r) : r.access = r := by
  have hused : (r.usedAfterFinish || !r.finished.isEmpty) = r.usedAfterFinish := by
    simp [h.finished]
  rw [Request.access, hused]

/-- What there is to say of the object besides its write side, when a step of that is absorbed. -/
theorem absorb_running {w : HTTPClientWrites.InternalRequest} (hfinished : r.finished = [])
    (hunused : r.usedAfterFinish = false) (heof : r.eof = false) (haccepted : Accepted curLine r)
    (hconnect : r.connect = .done) (hreads : r.writes.readLoops = []) (hloops : r.readLoops = 0)
    (hreading : r.reading = 0) (hwriting : HTTPClientWrites.Writing requestText w)
    (hleft : Left r.writes w) :
    Running requestText curLine (r.absorb w) ∨ Ended requestText curLine (r.absorb w) := by
  rcases hleft with ⟨hkept, hone⟩ | ⟨failure, hended, hzero, hnone⟩
  · refine .inl ⟨?_, hunused, heof, ?_, haccepted, fun h => absurd hconnect h, fun _ => ⟨hwriting, ?_⟩⟩
    · simp [Request.absorb, hfinished, hkept]
    · simp only [Request.outstanding, Request.absorb, hconnect, if_true, hreads, hloops, hreading,
        List.length_nil]
      omega
    · simp only [Request.absorb, hreads, hloops, hreading, List.length_nil]
      omega
  · refine .inr ⟨⟨.failed failure, ?_, ?_, fun _ => rfl⟩, hunused, ?_, hwriting.pending,
      hwriting.sent.isPrefix⟩
    · simp [Request.absorb, hfinished, hended]
    · intro h
      exact absurd (heof.symm.trans h) Bool.false_ne_true
    · simp [Request.outstanding, Request.absorb, hconnect, hzero, hnone, hloops, hreading]

/-- `Finish` with an error, when nothing is left under way. -/
theorem ended_failed {failure : Failure} (hfinished : r.finished = [])
    (hunused : r.usedAfterFinish = false) (heof : r.eof = false) (houtstanding : r.outstanding = 0)
    (hpending : r.writes.pending = none) (hwire : r.writes.wire <+: requestText) :
    Ended requestText curLine (r.finish (.failed failure)) := by
  refine ⟨⟨.failed failure, ?_, ?_, fun _ => rfl⟩, hunused, houtstanding, hpending, hwire⟩
  · rw [Request.finish, hfinished, List.nil_append]
  · intro h
    exact absurd (heof.symm.trans h) Bool.false_ne_true

/-- A connection that is established, before the write loop is entered. -/
theorem Running.connected (h : Running requestText curLine r) (hlength : requestText.length < 2 ^ 31)
    (hconnect : r.connect ≠ .done) :
    Running requestText curLine ({ r with connect := .done }.doWriteLoop) ∨
      Ended requestText curLine ({ r with connect := .done }.doWriteLoop) := by
  have hnew := h.before hconnect
  have hzero := h.outstanding
  simp only [Request.outstanding, if_neg hconnect] at hzero
  have hsent : r.writes.outgoing.Sent requestText r.writes.wire := by
    rw [hnew]
    exact DrainableIOBuffer.sent_new requestText
  apply absorb_running (r := { r with connect := .done }) h.finished h.unused h.eof h.accepted rfl
  · exact congrArg HTTPClientWrites.InternalRequest.readLoops hnew
  · show r.readLoops = 0
    omega
  · show r.reading = 0
    omega
  · show HTTPClientWrites.Writing requestText r.writes.doWriteLoop
    rw [hnew]
    exact HTTPClientWrites.writing_start (by omega)
  · apply left_doWriteLoop hlength hsent
    · show r.writes.loops = 0
      omega
    · exact congrArg HTTPClientWrites.InternalRequest.readLoops hnew

/-- A connection that cannot be established. -/
theorem Running.not_connected (h : Running requestText curLine r) (hconnect : r.connect ≠ .done)
    (failure : Failure) :
    Ended requestText curLine ({ r with connect := .done }.finish (.failed failure)) := by
  have hzero := h.outstanding
  simp only [Request.outstanding, if_neg hconnect] at hzero
  apply ended_failed (r := { r with connect := .done }) h.finished h.unused h.eof
  · simp only [Request.outstanding, if_true]
    omega
  · exact congrArg HTTPClientWrites.InternalRequest.pending (h.before hconnect)
  · show r.writes.wire <+: requestText
    rw [h.before hconnect]
    exact List.nil_prefix

/-- The thread that has the result of a read is the only thing under way. -/
structure Reads (requestText : Bytes) (curLine : Nat → UInt8) (r : Request) : Prop where
  finished : r.finished = []
  unused : r.usedAfterFinish = false
  eof : r.eof = false
  connect : r.connect = .done
  outstanding : r.outstanding = 0
  accepted : Accepted curLine r
  writing : HTTPClientWrites.Writing requestText r.writes
  readLoops : r.writes.readLoops = [requestText]

theorem Running.done_of_reads (h : Running requestText curLine r)
    (hreads : 0 < r.readLoops + r.reading) : r.connect = .done := by
  by_contra hconnect
  have hzero := h.outstanding
  simp only [Request.outstanding, if_neg hconnect] at hzero
  omega

/-- The counters that a read leaves. -/
theorem Running.reads (h : Running requestText curLine r) (readLoops reading : Nat)
    (hreads : readLoops + reading + 1 = r.readLoops + r.reading) :
    Reads requestText curLine { r with readLoops := readLoops, reading := reading } := by
  have hconnect := h.done_of_reads (by omega)
  obtain ⟨hwriting, hcount⟩ := h.after hconnect
  have hone := h.outstanding
  simp only [Request.outstanding, if_pos hconnect] at hone
  refine ⟨h.finished, h.unused, h.eof, hconnect, ?_, h.accepted, hwriting, ?_⟩
  · simp only [Request.outstanding, if_pos hconnect]
    omega
  · have hlength : r.writes.readLoops.length = 1 := by omega
    obtain ⟨wire, hwire⟩ := List.length_eq_one_iff.mp hlength
    have hall := hwriting.readLoops wire (by rw [hwire]; exact List.mem_singleton.mpr rfl)
    exact hwire.trans (congrArg (fun x => [x]) hall)

theorem accepted_append (h : Accepted curLine r) {bytes : Bytes} {s : Nat}
    {parser : HTTPParser HTTPResponse} (hparse : r.parser.parse bytes = (true, s, parser)) :
    Accepted curLine { r with received := r.received ++ bytes, parser := parser } := by
  obtain ⟨s0, h0⟩ := h
  exact HTTPParser.parse_append_of_true h0 hparse

theorem Reads.readResult (h : Reads requestText curLine r) {read : StatusOr Bytes}
    (hread : read.isTryAgain = false) :
    Running requestText curLine (r.readResult read) ∨ Ended requestText curLine (r.readResult read) := by
  cases read with
  | failed failure =>
      exact .inr (ended_failed h.finished h.unused h.eof h.outstanding h.writing.pending
        h.writing.sent.isPrefix)
  | value bytes =>
      rw [Request.readResult, Request.handleReadResult]
      dsimp only
      by_cases hbytes : 0 < bytes.length
      · rw [if_pos hbytes]
        split
        · next hparse =>
            rw [if_neg Bool.false_ne_true]
            exact .inr (ended_failed h.finished h.unused h.eof h.outstanding h.writing.pending
              h.writing.sent.isPrefix)
        · next s parser hparse =>
            have hzero := h.outstanding
            simp only [Request.outstanding, h.connect, if_true] at hzero
            rw [if_pos rfl]
            refine .inl ⟨h.finished, h.unused, h.eof, ?_, accepted_append h.accepted hparse,
              fun hnot => absurd h.connect hnot, fun _ => ⟨h.writing, ?_⟩⟩
            · simp only [Request.outstanding, h.connect, if_true]
              omega
            · show r.readLoops + 1 + r.reading = r.writes.readLoops.length
              rw [h.readLoops, List.length_singleton]
              omega
      · rw [if_neg hbytes]
        have hnil : bytes = [] := List.length_eq_zero_iff.mp (by omega)
        subst hnil
        obtain ⟨s, hs⟩ := h.accepted
        refine .inr ⟨⟨_, ?_, fun _ => ⟨h.readLoops, ⟨s, ?_⟩, rfl⟩, fun hnot => by cases hnot⟩, h.unused,
          h.outstanding, h.writing.pending, h.writing.sent.isPrefix⟩
        · exact (congrArg (· ++ [_]) h.finished).trans (List.nil_append _)
        · exact (congrArg _ (List.append_nil _)).trans hs

/-- A step of a request that has not ended leaves one thing under way, or ends the request. -/
theorem running_step (hlength : requestText.length < 2 ^ 31) (h : Running requestText curLine r)
    {a : Action} (hblock : NeverBlocked r a) (hstep : step r a = some r') :
    Running requestText curLine r' ∨ Ended requestText curLine r' := by
  cases a with
  | connectReturns status =>
      simp only [step, h.access] at hstep
      split_ifs at hstep with hcall
      cases hstep
      have hconnect : r.connect ≠ .done := by simp [hcall]
      have hzero := h.outstanding
      rw [Request.connectReturns]
      cases status with
      | ok => exact h.connected hlength hconnect
      | failed failure =>
          simp only [Status.isOk, Bool.false_eq_true, if_false]
          split_ifs
          · refine .inl ⟨h.finished, h.unused, h.eof, ?_, h.accepted, fun _ => h.before hconnect,
              fun hdone => by cases hdone⟩
            simp only [Request.outstanding, hcall] at hzero ⊢
            exact hzero
          · exact .inr (h.not_connected hconnect failure)
  | connectCompletes status =>
      simp only [step, h.access] at hstep
      split_ifs at hstep with hwaiting
      cases hstep
      have hconnect : r.connect ≠ .done := by simp [hwaiting]
      rw [Request.onConnectCompleted]
      cases status with
      | ok => exact h.connected hlength hconnect
      | failed failure => exact .inr (h.not_connected hconnect failure)
  | write a =>
      simp only [step, h.access] at hstep
      obtain ⟨w, hw, rfl⟩ := Option.map_eq_some_iff.mp hstep
      have hone := h.outstanding
      have hconnect : r.connect = .done := by
        by_contra hconnect
        rw [h.before hconnect] at hw
        obtain ⟨loops, ret, rfl, hloops, -, -⟩ | ⟨requested, ret, rfl, hpending, -, -, -⟩ :=
          HTTPClientWrites.step_cases hw
        · cases hloops
        · cases hpending
      obtain ⟨hwriting, hcount⟩ := h.after hconnect
      obtain ⟨hloops, hreads, hwriting', hleft⟩ := left_step hlength hwriting hblock hw
      simp only [Request.outstanding, if_pos hconnect] at hone
      exact absorb_running h.finished h.unused h.eof h.accepted hconnect hreads (by omega) (by omega)
        hwriting' hleft
  | readReturns read =>
      simp only [step, h.access] at hstep
      split_ifs at hstep with hloops hagain
      · cases hstep
        have hone := h.outstanding
        have hconnect := h.done_of_reads (by omega)
        refine .inl ⟨h.finished, h.unused, h.eof, ?_, h.accepted, h.before, fun hdone => ?_⟩
        · simp only [Request.outstanding, if_pos hconnect] at hone ⊢
          omega
        · obtain ⟨hwriting, hcount⟩ := h.after hdone
          refine ⟨hwriting, ?_⟩
          show r.readLoops - 1 + (r.reading + 1) = r.writes.readLoops.length
          omega
      · cases hstep
        have hreads := h.reads (r.readLoops - 1) r.reading (by omega)
        exact hreads.readResult (Bool.eq_false_iff.mpr hagain)
  | readCompletes read =>
      simp only [step, h.access] at hstep
      split_ifs at hstep with hreading
      cases hstep
      have hreads := h.reads r.readLoops (r.reading - 1) (by omega)
      exact hreads.readResult hreading.2

/-- Nothing happens to a request after it has ended. -/
theorem Ended.step_eq_none (h : Ended requestText curLine r) (a : Action) : step r a = none := by
  have hzero := h.outstanding
  unfold Request.outstanding at hzero
  have hconnect : r.connect = .done := by
    by_contra hnot
    rw [if_neg hnot] at hzero
    omega
  cases a with
  | connectReturns status => simp [step, hconnect]
  | connectCompletes status => simp [step, hconnect]
  | write a =>
      have hloops : r.writes.loops = 0 := by omega
      cases a with
      | write ret => simp [step, HTTPClientWrites.step, hloops]
      | complete ret => simp [step, HTTPClientWrites.step, h.pending]
  | readReturns read =>
      have hloops : r.readLoops = 0 := by omega
      simp [step, hloops]
  | readCompletes read =>
      have hreading : r.reading = 0 := by omega
      simp [step, hreading]

theorem running_or_ended_step (hlength : requestText.length < 2 ^ 31) (r : Request) (a : Action)
    (r' : Request) (h : Running requestText curLine r ∨ Ended requestText curLine r)
    (hblock : NeverBlocked r a) (hstep : step r a = some r') :
    Running requestText curLine r' ∨ Ended requestText curLine r' := by
  rcases h with h | h
  · exact running_step hlength h hblock hstep
  · rw [h.step_eq_none a] at hstep
    cases hstep

end Request

/-- One thing is under way until `Finish` is called, once; nothing is under way and no member is used
after that. The status of `Finish` is ok when the stream has ended behind complete headers, with the
whole request sent and all bytes read accepted by the parser, and in no other case. -/
def EndsOnce (requestText : Bytes) (curLine : Nat → UInt8) (r : Request) : Prop :=
  r.outstanding + r.finished.length = 1 ∧ r.usedAfterFinish = false ∧
    ∀ status ∈ r.finished, Outcome requestText curLine r status

theorem endsOnce_of_running_or_ended {requestText : Bytes} {curLine : Nat → UInt8} {r : Request}
    (h : Running requestText curLine r ∨ Ended requestText curLine r) :
    EndsOnce requestText curLine r := by
  rcases h with h | h
  · refine ⟨by rw [h.outstanding, h.finished]; rfl, h.unused, fun status hstatus => ?_⟩
    rw [h.finished] at hstatus
    cases hstatus
  · obtain ⟨status, hfinished, houtcome⟩ := h.once
    refine ⟨by rw [h.outstanding, hfinished]; rfl, h.unused, fun status' hstatus => ?_⟩
    rw [hfinished, List.mem_singleton] at hstatus
    exact hstatus ▸ houtcome

/-- For every request text below `2 ^ 31` bytes and all results of `Connect`, `Write` and `Read`, at
once or later: as long as no `Write` returns `TryAgain`, the request ends once and says how. -/
theorem request_ends_once (requestText : Bytes) (curLine : Nat → UInt8)
    (hlength : requestText.length < 2 ^ 31) (actions : List Action)
    (hblock : Transition.Meets step NeverBlocked (start requestText curLine) actions) :
    Transition.Along step (EndsOnce requestText curLine) (start requestText curLine) actions :=
  Transition.along_of_meets (running_or_ended_step hlength)
    (fun _ h => endsOnce_of_running_or_ended h) (.inl (running_start requestText curLine)) hblock

/-- A status line and the end of the headers in two reads, the first one deferred. -/
theorem request_ends_once_two_reads :
    ∃ r, Transition.run step (start [71] fun _ => 0)
        [.connectReturns (.tryAgain (.text "CONNECT PENDING")), .connectCompletes .ok,
          .write (.write (.value 1)), .readReturns (.failed ⟨.kTryAgain, .text "READ PENDING", none⟩),
          .readCompletes (.value (bytesOf "HTTP/1.1 200 OK\r\n".toList)),
          .readReturns (.value [CR, LF]), .readReturns (.value [])] = some r ∧
      r.finished = [.ok] ∧ EndsOnce [71] (fun _ => 0) r := by
  obtain ⟨r, hrun, hfinished⟩ : ∃ r, Transition.run step (start [71] fun _ => 0)
        [.connectReturns (.tryAgain (.text "CONNECT PENDING")), .connectCompletes .ok,
          .write (.write (.value 1)), .readReturns (.failed ⟨.kTryAgain, .text "READ PENDING", none⟩),
          .readCompletes (.value (bytesOf "HTTP/1.1 200 OK\r\n".toList)),
          .readReturns (.value [CR, LF]), .readReturns (.value [])] = some r ∧
      r.finished = [.ok] := ⟨_, rfl, by decide +kernel⟩
  exact ⟨r, hrun, hfinished, (request_ends_once [71] (fun _ => 0) (by decide) _
    (Transition.meets_of_check (by decide +kernel))).end_good hrun⟩

end HTTPClientRequest

end Iomgr
