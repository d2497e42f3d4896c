import Iomgr.HTTPRequest
import Iomgr.IOBuffer
import Iomgr.Status
import Iomgr.TransitionSystem

/-!
The write side of a client's request. When `Write` returns `TryAgain`, `DoWriteLoop` does not
return: the bytes remain, so that it calls `Write` again while the first one is pending. The
completion of the pending write enters the loop a second time, on another thread, without consuming
the bytes it is told of.
-/

namespace Iomgr

namespace HTTPClientWrites

/-- What the write side of an `InternalRequest` uses, the number of threads that are in
`DoWriteLoop`, each at its call to `Write`, and the write that is pending, by the length it was
called with. `overlapped` records that `Write` was called while one was pending; `readLoops` has the
bytes that were on the wire each time the write side entered `DoReadLoop`. -/
structure InternalRequest where
  outgoing : DrainableIOBuffer
  loops : Nat
  pending : Option Int
  wire : Bytes
  overlapped : Bool
  readLoops : List Bytes
  finished : List Status
  deriving DecidableEq, Repr

/-- A `Write` that `DoWriteLoop` calls and its result, and the result `OnWriteCompleted` is given.
-/
inductive Action
  | write (ret : StatusOr Nat)
  | complete (ret : StatusOr Nat)
  deriving DecidableEq, Repr

namespace InternalRequest

/-- A request whose connection is established, before its `DoWriteLoop`. -/
def new (requestText : Bytes) : InternalRequest where
  outgoing := .new requestText
  loops := 0
  pending := none
  wire := []
  overlapped := false
  readLoops := []
  finished := []

/-- A thread that is at the test of the loop: it goes on to `Write`, or leaves the loop. -/
def doWriteLoop (r : InternalRequest) : InternalRequest :=
  if 0 < r.outgoing.bytesRemaining then { r with loops := r.loops + 1 }
  else if r.outgoing.bytesRemaining = 0 then { r with readLoops := r.readLoops ++ [r.wire] }
  else r

def finish (r : InternalRequest) (status : Status) : InternalRequest :=
  { r with finished := r.finished ++ [status] }

/-- The bytes at the start of the buffer are put on the wire. -/
def transfer (r : InternalRequest) (n : Nat) : InternalRequest :=
  { r with wire := r.wire ++ r.outgoing.data.take n }

/-- The rest of the loop after its call to `Write`, of a thread that is not counted among the
others. -/
def writeReturns (r : InternalRequest) : StatusOr Nat → InternalRequest
  | .value n =>
      let r := r.transfer n
      { r with outgoing := r.outgoing.didConsume n }.doWriteLoop
  | .failed failure =>
      if (Status.failed failure).isTryAgain then
        { r with pending := some r.outgoing.bytesRemaining }.doWriteLoop
      else r.finish (.failed failure)

/-- `OnWriteCompleted`. -/
def onWriteCompleted (r : InternalRequest) : StatusOr Nat → InternalRequest
  | .value n => (r.transfer n).doWriteLoop
  | .failed failure => r.finish (.failed failure)

end InternalRequest

def step (r : InternalRequest) : Action → Option InternalRequest
  | .write ret =>
      match r.loops with
      | 0 => none
      | loops + 1 =>
          if ret.Transferred r.outgoing.bytesRemaining then
            let r := { r with loops := loops, overlapped := r.overlapped || r.pending.isSome }
            some (r.writeReturns ret)
          else none
  | .complete ret =>
      match r.pending with
      | none => none
      | some requested =>
          if ret.Transferred requested ∧ ret.isTryAgain = false then
            some ({ r with pending := none }.onWriteCompleted ret)
          else none

def start (requestText : Bytes) : InternalRequest := (InternalRequest.new requestText).doWriteLoop

/-- No `Write` is called while one is pending, the bytes on the wire are the beginning of the
request, and the write side enters `DoReadLoop` at most once, with the whole request on the wire. -/
def SentOnce (requestText : Bytes) (r : InternalRequest) : Prop :=
  r.overlapped = false ∧ r.wire <+: requestText ∧ (∀ wire ∈ r.readLoops, wire = requestText) ∧
    r.readLoops.length ≤ 1

/-- `Write` never returns `TryAgain`. -/
def NeverBlocked (_ : InternalRequest) : Action → Prop
  | .write ret => ret.isTryAgain = false
  | .complete _ => True

instance (r : InternalRequest) (a : Action) : Decidable (NeverBlocked r a) :=
  match a with
  | .write _ => inferInstanceAs (Decidable (_ = _))
  | .complete _ => isTrue trivial

/-- No write is pending, and at most one thread is in the loop, none once the read loop has been
entered. -/
structure Writing (requestText : Bytes) (r : InternalRequest) : Prop where
  sent : r.outgoing.Sent requestText r.wire
  pending : r.pending = none
  overlapped : r.overlapped = false
  readLoops : ∀ wire ∈ r.readLoops, wire = requestText
  once : r.loops + r.readLoops.length ≤ 1

variable {requestText : Bytes} {r r' : InternalRequest} {a : Action}

theorem Writing.sentOnce (h : Writing requestText r) : SentOnce requestText r :=
  ⟨h.overlapped, h.sent.isPrefix, h.readLoops, (Nat.le_add_left _ _).trans h.once⟩

/-- A thread at the test of the loop, when it is the only one. -/
theorem writing_doWriteLoop (hlength : requestText.length < 2 ^ 32) (h : Writing requestText r)
    (hloops : r.loops + r.readLoops.length = 0) : Writing requestText r.doWriteLoop := by
  have hnone : r.loops = 0 ∧ r.readLoops.length = 0 := Nat.add_eq_zero_iff.mp hloops
  have hempty : r.readLoops = [] := List.length_eq_zero_iff.mp hnone.2
  unfold InternalRequest.doWriteLoop
  split_ifs with hmore hzero
  · refine ⟨h.sent, h.pending, h.overlapped, h.readLoops, ?_⟩
    change r.loops + 1 + r.readLoops.length ≤ 1
    omega
  · have hall : r.wire = requestText := h.sent.eq_of_bytesRemaining hlength hzero
    refine ⟨h.sent, h.pending, h.overlapped, ?_, ?_⟩
    · intro wire hwire
      change wire ∈ r.readLoops ++ [r.wire] at hwire
      rw [hempty, List.nil_append, List.mem_singleton] at hwire
      exact hwire.trans hall
    · change r.loops + (r.readLoops ++ [r.wire]).length ≤ 1
      rw [hnone.1, hempty, List.nil_append, List.length_singleton]
  · exact h

theorem writing_start (hlength : requestText.length < 2 ^ 32) :
    Writing requestText (start requestText) := by
  apply writing_doWriteLoop hlength
  · exact ⟨DrainableIOBuffer.sent_new requestText, rfl, rfl, by simp [InternalRequest.new],
      Nat.zero_le 1⟩
  · rfl

theorem step_cases (h : step r a = some r') :
    (∃ loops ret, a = .write ret ∧ r.loops = loops + 1 ∧
      ret.Transferred r.outgoing.bytesRemaining ∧
      r' = { r with
        loops := loops
        overlapped := r.overlapped || r.pending.isSome }.writeReturns ret) ∨
    ∃ requested ret, a = .complete ret ∧ r.pending = some requested ∧
      ret.Transferred requested ∧ ret.isTryAgain = false ∧
      r' = { r with pending := none }.onWriteCompleted ret := by
  cases a with
  | write ret =>
      simp only [step] at h
      split at h
      · cases h
      · rename_i loops hloops
        split_ifs at h with htransferred
        cases h
        exact Or.inl ⟨loops, ret, rfl, hloops, htransferred, rfl⟩
  | complete ret =>
      simp only [step] at h
      split at h
      · cases h
      · rename_i requested hpending
        split_ifs at h with htransferred
        cases h
        exact Or.inr ⟨requested, ret, rfl, hpending, htransferred.1, htransferred.2, rfl⟩

theorem writing_writeReturns (hlength : requestText.length < 2 ^ 32) (h : Writing requestText r)
    (hloops : r.loops + r.readLoops.length = 0) {ret : StatusOr Nat}
    (hret : ret.Transferred r.outgoing.bytesRemaining) (hblock : ret.isTryAgain = false) :
    Writing requestText (r.writeReturns ret) := by
  cases ret with
  | value n =>
      rw [InternalRequest.writeReturns]
      apply writing_doWriteLoop hlength
      · exact ⟨h.sent.didConsume hret.2, h.pending, h.overlapped, h.readLoops, h.once⟩
      · exact hloops
  | failed failure =>
      change (Status.failed failure).isTryAgain = false at hblock
      rw [InternalRequest.writeReturns, hblock, if_neg Bool.false_ne_true]
      exact ⟨h.sent, h.pending, h.overlapped, h.readLoops, h.once⟩

theorem writing_step (hlength : requestText.length < 2 ^ 32) (h : Writing requestText r)
    (hblock : NeverBlocked r a) (hstep : step r a = some r') : Writing requestText r' := by
  obtain ⟨loops, ret, rfl, hloops, hret, rfl⟩ | ⟨requested, ret, rfl, hpending, -, -, rfl⟩ :=
    step_cases hstep
  · have honce := h.once
    have hfree : loops + r.readLoops.length = 0 := by omega
    have hwriting : Writing requestText
        { r with loops := loops, overlapped := r.overlapped || r.pending.isSome } := by
      refine ⟨h.sent, h.pending, ?_, h.readLoops, hfree.trans_le (Nat.zero_le 1)⟩
      simp [h.overlapped, h.pending]
    exact writing_writeReturns hlength hwriting hfree hret hblock
  · -- no write is pending, so that none is completed
    rw [h.pending] at hpending
    cases hpending

/-- For every request of less than `2 ^ 32` bytes and all results of its writes: as long as no
`Write` returns `TryAgain`, no two writes overlap, what is on the wire is the beginning of the
request, and the write side starts the read loop once at most, with all of the request sent. -/
theorem request_sent_once (requestText : Bytes) (hlength : requestText.length < 2 ^ 32)
    (as : List Action) (hblock : Transition.Meets step NeverBlocked (start requestText) as) :
    Transition.Along step (SentOnce requestText) (start requestText) as :=
  Transition.along_of_meets (fun _ _ _ hs ha hstep => writing_step hlength hs ha hstep)
    (fun _ h => h.sentOnce) (writing_start hlength) hblock

/-- The request `GET` in two writes. -/
theorem request_sent_in_two_writes :
    (∃ r, Transition.run step (start [71, 69, 84]) [.write (.value 1), .write (.value 2)] = some r ∧
      r.wire = [71, 69, 84] ∧ r.readLoops = [[71, 69, 84]]) ∧
    Transition.Along step (SentOnce [71, 69, 84]) (start [71, 69, 84])
      [.write (.value 1), .write (.value 2)] :=
  ⟨⟨_, rfl, rfl, rfl⟩, request_sent_once [71, 69, 84] (by decide) _ (Transition.meets_of_check rfl)⟩

/-- A `Write` is deferred, and the loop calls `Write` again at once. When the deferred write is
completed as well, all bytes have been sent twice. -/
theorem blocked_write_sent_twice :
    let pending : StatusOr Nat := .failed ⟨.kTryAgain, .text "WRITE PENDING", none⟩
    ∃ r, Transition.run step (start [71, 69, 84])
        [.write pending, .write pending, .complete (.value 3), .write (.value 3)] = some r ∧
      r.overlapped = true ∧ r.wire = [71, 69, 84, 71, 69, 84] ∧ ¬SentOnce [71, 69, 84] r := by
  intro pending
  have hrun : Transition.run step (start [71, 69, 84])
      [.write pending, .write pending, .complete (.value 3), .write (.value 3)] =
      some ⟨⟨[71, 69, 84], 3, 3⟩, 1, none, [71, 69, 84, 71, 69, 84], true,
        [[71, 69, 84, 71, 69, 84]], []⟩ := by
    decide +kernel
  refine ⟨_, hrun, rfl, rfl, ?_⟩
  rintro ⟨hoverlapped, -⟩
  exact absurd hoverlapped (by decide)

end HTTPClientWrites

end Iomgr
