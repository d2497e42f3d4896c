import Iomgr.TCPClientImpl
import Iomgr.TransitionSystem

/-!
One asynchronous connect. After `Connect` the timer thread may post the expiry, the expiry and
writable events are delivered one at a time, and the user may disconnect. Two defects meet here:
`OnConnectDone` reports the status of its caller and not the one of the socket, and of the two
events that can end the connect neither disarms the other.
-/

namespace Iomgr

namespace TCPConnect

/-- `timerFires` takes the pending timer and posts its closure, which no cancel can reach any more;
`expiry` runs the closure. -/
inductive Event
  | timerFires
  | expiry
  | writable (soError : Int) (doWrite : SysResult)
  | disconnect
  deriving DecidableEq, Repr

/-- What happened in a handler: the connect state around it, whether a connect had ended with
`kConnected` and whether an expiry had been delivered before it, and what `connect_callback_` was
invoked with, `none` standing for an empty one. -/
structure Entry (Callback : Type) where
  event : Event
  connected : Bool
  timedOut : Bool
  before : ConnectState
  invoked : Option (Option Callback × Status)
  after : ConnectState
  deriving DecidableEq, Repr

structure System (Callback Buffer Address : Type) where
  client : TCPClientImpl Callback Buffer Address
  posted : Nat
  connected : Bool
  timedOut : Bool
  log : List (Entry Callback)

/-- The arguments of `Connect`, and what the system calls in it return. -/
structure Call (Callback Address : Type) where
  remote : Option Address
  connectTimeout : Time.Delta
  connectCallback : Callback
  doConnect : SysResult
  watch : Watch

variable {Callback Buffer Address : Type}

/-- An open client after the call of `Connect`. -/
def start (socket : Nat) (call : Call Callback Address) : System Callback Buffer Address :=
  let c := ((TCPClientImpl.new.openSocket socket).connect call.remote call.connectTimeout
    call.connectCallback call.doConnect call.watch).2
  ⟨c, 0, c.connectState = .kConnected, false, []⟩

/-- The invocation of `connect_callback_`, if it is one. -/
def connectInvocation : Invocation Callback → Option (Option Callback × Status)
  | ⟨callback, .status status, [.connectDone]⟩ => some (callback, status)
  | _ => none

/-- A handler runs to its end. -/
def System.deliver (s : System Callback Buffer Address) (event : Event)
    (handled : TCPClientImpl Callback Buffer Address × Option (Invocation Callback)) :
    System Callback Buffer Address :=
  let client := handled.1.resumeAll (handled.2.elim [] Invocation.rest)
  { s with
    client := client
    connected := s.connected || decide (client.connectState = .kConnected)
    timedOut := s.timedOut || decide (event = .expiry)
    log := ⟨event, s.connected, s.timedOut, s.client.connectState,
      handled.2.bind connectInvocation, client.connectState⟩ :: s.log }

def step (s : System Callback Buffer Address) : Event → Option (System Callback Buffer Address)
  | .timerFires =>
      if s.client.connectTimeoutController then
        some { s with
          client := { s.client with connectTimeoutController := false }
          posted := s.posted + 1 }
      else none
  | .expiry =>
      if s.posted = 0 then none
      else some ({ s with posted := s.posted - 1 }.deliver .expiry s.client.onConnectTimeout)
  | .writable soError doWrite =>
      if s.client.connectSocketController then
        some (s.deliver (.writable soError doWrite) (s.client.onFileWritable soError doWrite))
      else none
  | .disconnect => some { s with client := s.client.disconnect }

/-! ### The handlers, run to their end -/

theorem deliver_log (s : System Callback Buffer Address) (event : Event)
    (handled : TCPClientImpl Callback Buffer Address × Option (Invocation Callback)) :
    (s.deliver event handled).log = ⟨event, s.connected, s.timedOut, s.client.connectState,
      handled.2.bind connectInvocation, (s.deliver event handled).client.connectState⟩ :: s.log :=
  rfl

/-- The socket is still connecting. -/
theorem onFileWritable_pending {c : TCPClientImpl Callback Buffer Address}
    (hstate : c.connectState = .kConnecting) {soError : Int}
    (hpending : (mapSocketConnectError soError).isTryAgain = true) (doWrite : SysResult) :
    c.onFileWritable soError doWrite = (c, none) := by
  simp [TCPClientImpl.onFileWritable, TCPClientImpl.onConnectDone, Status.isOk, hstate, hpending]

/-- The socket is done, with whatever error: the callback is told that all is well. -/
theorem onFileWritable_done {c : TCPClientImpl Callback Buffer Address}
    (hstate : c.connectState = .kConnecting) {soError : Int}
    (hdone : (mapSocketConnectError soError).isTryAgain = false) (doWrite : SysResult) :
    c.onFileWritable soError doWrite =
      ({ c with connectSocketController := false, connectState := .kConnected },
        some ⟨c.connectCallback, .status .ok, [.connectDone]⟩) := by
  simp [TCPClientImpl.onFileWritable, TCPClientImpl.onConnectDone, Status.isOk, hstate, hdone]

theorem onFileWritable_write {c : TCPClientImpl Callback Buffer Address}
    (hstate : c.connectState ≠ .kConnecting) (soError : Int) (doWrite : SysResult) :
    c.onFileWritable soError doWrite = c.onWriteDone doWrite :=
  if_neg hstate

theorem onWriteDone_connectInvocation (c : TCPClientImpl Callback Buffer Address)
    (doWrite : SysResult) : (c.onWriteDone doWrite).2.bind connectInvocation = none := by
  unfold TCPClientImpl.onWriteDone
  dsimp only
  split_ifs <;> rfl

/-! ### What the callback is told -/

/-- The callback is told OK exactly for the error 0, the mapped error otherwise, and the client is
connected exactly when it is told OK. -/
def TruthfulAt (soError : Int) (status : Status) (after : ConnectState) : Prop :=
  (status.isOk = true ↔ soError = 0) ∧ (soError ≠ 0 → status = mapSocketConnectError soError) ∧
    (after = .kConnected ↔ status.isOk = true)

def Entry.Truthful (e : Entry Callback) : Prop :=
  ∀ soError doWrite callback status, e.event = .writable soError doWrite →
    e.invoked = some (callback, status) → TruthfulAt soError status e.after

def Truthful (s : System Callback Buffer Address) : Prop := ∀ e ∈ s.log, e.Truthful

/-- The condition on a run: a writable event that finds the connect pending finds no error on the
socket, or one that means that the connect goes on. -/
def FindsNoError (s : System Callback Buffer Address) : Event → Prop
  | .writable soError _ => s.client.connectState = .kConnecting →
      soError = 0 ∨ (mapSocketConnectError soError).isTryAgain = true
  | _ => True

/-- The entry a writable event leaves. -/
theorem writable_entry (s : System Callback Buffer Address) (soError : Int) (doWrite : SysResult) :
    (s.client.connectState = .kConnecting ∧ (mapSocketConnectError soError).isTryAgain = false ∧
      (s.client.onFileWritable soError doWrite).2.bind connectInvocation =
        some (s.client.connectCallback, .ok) ∧
      (s.deliver (.writable soError doWrite)
        (s.client.onFileWritable soError doWrite)).client.connectState = .kConnected) ∨
    (¬(s.client.connectState = .kConnecting ∧
        (mapSocketConnectError soError).isTryAgain = false) ∧
      (s.client.onFileWritable soError doWrite).2.bind connectInvocation = none) := by
  by_cases hstate : s.client.connectState = .kConnecting
  · cases hpending : (mapSocketConnectError soError).isTryAgain with
    | true =>
        rw [onFileWritable_pending hstate hpending]
        exact Or.inr ⟨fun h => Bool.noConfusion h.2, rfl⟩
    | false =>
        rw [onFileWritable_done hstate hpending]
        exact Or.inl ⟨hstate, rfl, rfl, rfl⟩
  · rw [onFileWritable_write hstate]
    exact Or.inr ⟨fun h => hstate h.1, onWriteDone_connectInvocation _ _⟩

theorem truthful_cons {s t : System Callback Buffer Address} {e : Entry Callback}
    (hlog : t.log = e :: s.log) : Truthful t ↔ e.Truthful ∧ Truthful s := by
  simp only [Truthful, hlog, List.forall_mem_cons]

/-- What a step does to the log. -/
theorem step_log {s t : System Callback Buffer Address} {a : Event} (h : step s a = some t) :
    t.log = s.log ∧ (a = .timerFires ∨ a = .disconnect) ∨
    (∃ e, t.log = e :: s.log ∧ e.event = .expiry ∧ a = .expiry) ∨
    ∃ soError doWrite, a = .writable soError doWrite ∧
      t = s.deliver (.writable soError doWrite) (s.client.onFileWritable soError doWrite) := by
  cases a with
  | timerFires =>
      simp only [step] at h
      split_ifs at h
      cases h
      exact Or.inl ⟨rfl, Or.inl rfl⟩
  | expiry =>
      simp only [step] at h
      split_ifs at h
      cases h
      exact Or.inr (Or.inl ⟨_, rfl, rfl, rfl⟩)
  | writable soError doWrite =>
      simp only [step] at h
      split_ifs at h
      cases h
      exact Or.inr (Or.inr ⟨soError, doWrite, rfl, rfl⟩)
  | disconnect =>
      cases h
      exact Or.inl ⟨rfl, Or.inr rfl⟩

theorem truthfulAt_ok {soError : Int} : TruthfulAt soError .ok .kConnected ↔ soError = 0 := by
  constructor
  · intro h
    exact h.1.mp rfl
  · intro h
    exact ⟨⟨fun _ => h, fun _ => rfl⟩, fun hne => absurd h hne, ⟨fun _ => rfl, fun _ => rfl⟩⟩

theorem step_truthful_iff {s t : System Callback Buffer Address} {a : Event} (hs : Truthful s)
    (hstep : step s a = some t) : Truthful t ↔ FindsNoError s a := by
  rcases step_log hstep with ⟨hlog, ha⟩ | ⟨e, hlog, hevent, rfl⟩ | ⟨soError, doWrite, rfl, rfl⟩
  · have ht : Truthful t := by
      intro e he
      rw [hlog] at he
      exact hs e he
    rcases ha with rfl | rfl
    · exact iff_of_true ht trivial
    · exact iff_of_true ht trivial
  · refine iff_of_true ((truthful_cons hlog).mpr ⟨fun soError doWrite _ _ hw => ?_, hs⟩) trivial
    rw [hevent] at hw
    cases hw
  · rw [truthful_cons (deliver_log s _ _), and_iff_left hs]
    rcases writable_entry s soError doWrite with ⟨hstate, hdone, hinv, hafter⟩ | ⟨hnot, hinv⟩
    · rw [hinv, hafter]
      constructor
      · intro h _
        exact Or.inl (truthfulAt_ok.mp (h soError doWrite _ _ rfl rfl))
      · rintro h e w callback status ⟨⟩ ⟨⟩
        rcases h hstate with hzero | htry
        · exact truthfulAt_ok.mpr hzero
        · rw [hdone] at htry
          cases htry
    · rw [hinv]
      refine iff_of_true (fun _ _ _ _ _ hnone => by cases hnone) fun hstate => Or.inr ?_
      by_contra htry
      exact hnot ⟨hstate, Bool.not_eq_true _ ▸ htry⟩

theorem start_truthful (socket : Nat) (call : Call Callback Address) :
    Truthful (start socket call : System Callback Buffer Address) :=
  fun _ he => absurd he List.not_mem_nil

/-- The result of a connect is reported truthfully along a run if and only if no writable event
that ends the connect finds an error on the socket. -/
theorem connect_reported_iff (socket : Nat) (call : Call Callback Address) (events : List Event) :
    Transition.Along step Truthful (start socket call : System Callback Buffer Address) events ↔
      Transition.Meets step FindsNoError (start socket call : System Callback Buffer Address)
        events :=
  Transition.along_iff_meets (fun _ _ _ hs hcond hstep => (step_truthful_iff hs hstep).mpr hcond)
    (fun _ _ _ hs hmiss hstep => mt (step_truthful_iff hs hstep).mp hmiss) (fun _ h => h)
    (start_truthful socket call)

/-- The peer refuses: the callback is told OK and the client is connected. -/
theorem connect_refused_reported_ok :
    ∃ s : System Unit Unit Unit,
      Transition.run step
        (start 5 ⟨some (), .infinite, (), .error EINPROGRESS, .registered⟩)
        [.writable ECONNREFUSED (.value 0)] = some s ∧
      s.log.map Entry.invoked = [some (some (), .ok)] ∧ s.client.connectState = .kConnected ∧
      mapSocketConnectError ECONNREFUSED ≠ .ok ∧ ¬Truthful s := by
  refine ⟨_, rfl, rfl, rfl, by decide, fun h => ?_⟩
  have hzero := truthfulAt_ok.mp (h _ (List.mem_singleton.mpr rfl) _ _ _ _ rfl rfl)
  exact absurd hzero (by decide)

end TCPConnect

end Iomgr
