import Iomgr.TCPClientImpl
import Iomgr.TransitionSystem

/-!
The TCP server and its `Accept`. An accept that would block sets `pending_accept_` before the socket
is registered; when the registration fails, the flag stays set and no later `Accept` gets past it.
The handler clears its members before it invokes the callback and does nothing after it, so that a
callback that accepts again is an `Accept` after the event.
-/

namespace Iomgr

def mapSocketAcceptError (osErrno : Int) : Status :=
  if osErrno = ECONNABORTED then .tryAgain (.text "IO pending") (some (.strerror osErrno))
  else mapSystemError osErrno

/-- The members of a `TCPServerImpl` that `Accept` and its handler use. `Socket` and `Remote` are
the pointers that the caller hands in. -/
structure TCPServerImpl (Callback Socket Remote : Type) where
  acceptSocketController : Bool
  acceptCallback : Option Callback
  acceptSocket : Option Socket
  remote : Option Remote
  pendingAccept : Bool
  deriving DecidableEq, Repr

namespace TCPServerImpl

variable {Callback Socket Remote : Type}

def new : TCPServerImpl Callback Socket Remote where
  acceptSocketController := false
  acceptCallback := none
  acceptSocket := none
  remote := none
  pendingAccept := false

/-- `DoAccept`, where the new client's `AdoptConnectedSocket` returns `adopted`. -/
def doAccept (accepted : SysResult) (adopted : Status) : Status :=
  match accepted with
  | .error e => mapSocketAcceptError e
  | .value _ => adopted

def accept (s : TCPServerImpl Callback Socket Remote) (socket : Socket) (callback : Callback)
    (remote : Option Remote) (accepted : SysResult) (adopted : Status) (watch : Watch) :
    Status × TCPServerImpl Callback Socket Remote :=
  if s.pendingAccept then (.failed ⟨.kCorruption, .text "UNEXPECTED ERROR", none⟩, s)
  else
    let status := doAccept accepted adopted
    if !status.isTryAgain then (status, s)
    else
      let s := { s with pendingAccept := true }
      match watch with
      | .failed e => (mapSystemError e, s)
      | .registered =>
          (.tryAgain (.text "ACCEPT PENDING"),
            { s with
              acceptSocketController := true
              acceptCallback := some callback
              acceptSocket := some socket
              remote := remote })

/-- `Accept` up to its last three statements; no status where it comes to them. -/
def acceptRegister (s : TCPServerImpl Callback Socket Remote) (accepted : SysResult)
    (adopted : Status) (watch : Watch) : Option Status × TCPServerImpl Callback Socket Remote :=
  if s.pendingAccept then (some (.failed ⟨.kCorruption, .text "UNEXPECTED ERROR", none⟩), s)
  else
    let status := doAccept accepted adopted
    if !status.isTryAgain then (some status, s)
    else
      let s := { s with pendingAccept := true }
      match watch with
      | .failed e => (some (mapSystemError e), s)
      | .registered => (none, { s with acceptSocketController := true })

/-- The last three statements of `Accept`. -/
def acceptStore (s : TCPServerImpl Callback Socket Remote) (socket : Socket) (callback : Callback)
    (remote : Option Remote) : TCPServerImpl Callback Socket Remote :=
  { s with acceptCallback := some callback, acceptSocket := some socket, remote := remote }

/-- With nothing in between the two parts are `Accept`. -/
theorem accept_eq_register_store (s : TCPServerImpl Callback Socket Remote) (socket : Socket)
    (callback : Callback) (remote : Option Remote) (accepted : SysResult) (adopted : Status)
    (watch : Watch) : s.accept socket callback remote accepted adopted watch =
      match s.acceptRegister accepted adopted watch with
      | (some status, s) => (status, s)
      | (none, s) => (.tryAgain (.text "ACCEPT PENDING"), s.acceptStore socket callback remote) := by
  unfold accept acceptRegister
  dsimp only
  split_ifs
  · rfl
  · rfl
  · cases watch <;> rfl

/-- `OnFileReadable`, with the callback that it invokes and the status it passes. The member keeps
the callback that has been invoked. -/
def onFileReadable (s : TCPServerImpl Callback Socket Remote) (accepted : SysResult)
    (adopted : Status) :
    TCPServerImpl Callback Socket Remote × Option (Option Callback × Status) :=
  let status := doAccept accepted adopted
  if status.isTryAgain then (s, none)
  else
    ({ s with
        acceptSocketController := false
        acceptSocket := none
        remote := none
        pendingAccept := false },
      some (s.acceptCallback, status))

end TCPServerImpl

namespace TCPAccept

/-- The server, and the calls of `Accept` by their number: those that returned `TryAgain`, and those
whose callback was invoked, the latest first. `shutOut` records that an `Accept` found none pending,
returned an error other than `TryAgain` and left the server unable to accept. -/
structure System (Socket Remote : Type) where
  server : TCPServerImpl Nat Socket Remote
  awaiting : List Nat
  invoked : List Nat
  next : Nat
  shutOut : Bool

/-- A call of `Accept`, from anywhere or from within a callback, and a readable event. -/
inductive Action (Socket Remote : Type)
  | accept (socket : Socket) (remote : Option Remote) (accepted : SysResult) (adopted : Status)
      (watch : Watch)
  | readable (accepted : SysResult) (adopted : Status)
  deriving DecidableEq, Repr

variable {Socket Remote : Type}

def start : System Socket Remote := ⟨.new, [], [], 0, false⟩

/-- An `Accept` returns. -/
def System.accepts (s : System Socket Remote) (ret : Status × TCPServerImpl Nat Socket Remote) :
    System Socket Remote where
  server := ret.2
  awaiting := if ret.1.isTryAgain then s.next :: s.awaiting else s.awaiting
  invoked := s.invoked
  next := s.next + 1
  shutOut := s.shutOut || (!ret.1.isOk && !ret.1.isTryAgain && !s.server.pendingAccept &&
    ret.2.pendingAccept)

/-- The handler returns, or has invoked a callback. -/
def System.handles (s : System Socket Remote)
    (ret : TCPServerImpl Nat Socket Remote × Option (Option Nat × Status)) :
    System Socket Remote :=
  { s with
    server := ret.1
    invoked := ((ret.2.bind Prod.fst).toList ++ s.invoked) }

def step (s : System Socket Remote) : Action Socket Remote → Option (System Socket Remote)
  | .accept socket remote accepted adopted watch =>
      some (s.accepts (s.server.accept socket s.next remote accepted adopted watch))
  | .readable accepted adopted =>
      if s.server.acceptSocketController then
        some (s.handles (s.server.onFileReadable accepted adopted))
      else none

/-- An accept is pending exactly when the server has the caller's pointer, and exactly when it
watches its socket. -/
def Consistent (server : TCPServerImpl Nat Socket Remote) : Prop :=
  (server.pendingAccept = true ↔ server.acceptSocket.isSome = true) ∧
    (server.acceptSocket.isSome = true ↔ server.acceptSocketController = true)

/-- The members agree, no failed `Accept` has shut the server, and only callbacks of an `Accept`
that returned `TryAgain` were invoked, none of them twice. -/
structure Sound (s : System Socket Remote) : Prop where
  consistent : Consistent s.server
  open_ : s.shutOut = false
  once : s.invoked.Nodup
  awaited : ∀ i ∈ s.invoked, i ∈ s.awaiting

/-- The registration of an accept that would block succeeds. -/
def Registered (s : System Socket Remote) : Action Socket Remote → Prop
  | .accept _ _ accepted adopted watch =>
      s.server.pendingAccept = false → (TCPServerImpl.doAccept accepted adopted).isTryAgain = true →
        watch = .registered
  | .readable _ _ => True

instance (s : System Socket Remote) (a : Action Socket Remote) : Decidable (Registered s a) :=
  match a with
  | .accept _ _ _ _ _ => inferInstanceAs (Decidable (_ → _ → _))
  | .readable _ _ => isTrue trivial

/-- The accounts of a sound system: numbers are new, and the callback of a pending accept has not
been invoked. -/
structure Inv (s : System Socket Remote) : Prop extends Sound s where
  fresh : ∀ i ∈ s.awaiting, i < s.next
  pending : s.server.pendingAccept = true →
    ∃ i, s.server.acceptCallback = some i ∧ i ∈ s.awaiting ∧ i ∉ s.invoked

theorem inv_start : Inv (start : System Socket Remote) where
  consistent := by simp [Consistent, start, TCPServerImpl.new]
  open_ := rfl
  once := List.nodup_nil
  awaited := by simp [start]
  fresh := by simp [start]
  pending := by simp [start, TCPServerImpl.new]

variable {s t : System Socket Remote} {socket : Socket} {remote : Option Remote}
  {accepted : SysResult} {adopted : Status} {watch : Watch}

/-- An `Accept` that finds one pending, or does not block. -/
theorem accept_unchanged (server : TCPServerImpl Nat Socket Remote) (i : Nat)
    (h : ¬(server.pendingAccept = false ∧
      (TCPServerImpl.doAccept accepted adopted).isTryAgain = true)) :
    ∃ status, status.isTryAgain = false ∧
      server.accept socket i remote accepted adopted watch = (status, server) := by
  cases hpending : server.pendingAccept with
  | true => exact ⟨_, rfl, by rw [TCPServerImpl.accept, if_pos hpending]⟩
  | false =>
      have hdone : (TCPServerImpl.doAccept accepted adopted).isTryAgain = false :=
        Bool.eq_false_iff.mpr fun hagain => h ⟨hpending, hagain⟩
      refine ⟨_, hdone, ?_⟩
      simp [TCPServerImpl.accept, hpending, hdone]

section Blocked

variable {server : TCPServerImpl Nat Socket Remote} (hfree : server.pendingAccept = false)
  (hagain : (TCPServerImpl.doAccept accepted adopted).isTryAgain = true) (i : Nat)

include hfree hagain

theorem accept_registered :
    server.accept socket i remote accepted adopted .registered =
      (.tryAgain (.text "ACCEPT PENDING"), ⟨true, some i, some socket, remote, true⟩) := by
  simp [TCPServerImpl.accept, hfree, hagain]

theorem accept_failed (e : Int) :
    server.accept socket i remote accepted adopted (.failed e) =
      (mapSystemError e, { server with pendingAccept := true }) := by
  simp [TCPServerImpl.accept, hfree, hagain]

end Blocked

/-- An `Accept` that returns with no effect. -/
theorem Inv.accepts_unchanged (h : Inv s) {status : Status} (hstatus : status.isTryAgain = false) :
    Inv (s.accepts (status, s.server)) where
  consistent := h.consistent
  open_ := by simp [System.accepts, h.open_]
  once := h.once
  awaited := by simpa [System.accepts, hstatus] using h.awaited
  fresh := by
    intro i hi
    have hold : i ∈ s.awaiting := by simpa [System.accepts, hstatus] using hi
    exact Nat.lt_succ_of_lt (h.fresh i hold)
  pending := by simpa [System.accepts, hstatus] using h.pending

/-- An `Accept` that is pending. -/
theorem Inv.accepts_pending (h : Inv s) {status : Status} (hstatus : status.isTryAgain = true) :
    Inv (s.accepts (status, ⟨true, some s.next, some socket, remote, true⟩)) where
  consistent := by simp [System.accepts, Consistent]
  open_ := by simp [System.accepts, h.open_, hstatus]
  once := h.once
  awaited := by
    intro i hi
    simp only [System.accepts, hstatus, if_true]
    exact List.mem_cons_of_mem _ (h.awaited i hi)
  fresh := by
    intro i hi
    simp only [System.accepts, hstatus, if_true] at hi ⊢
    rcases List.mem_cons.mp hi with rfl | hold
    · exact Nat.lt_succ_self _
    · exact Nat.lt_succ_of_lt (h.fresh i hold)
  pending := by
    intro _
    refine ⟨s.next, rfl, ?_, fun hinvoked => ?_⟩
    · simp only [System.accepts, hstatus, if_true]
      exact List.mem_cons_self
    · exact Nat.lt_irrefl _ (h.fresh _ (h.awaited _ hinvoked))

/-- The handler of a pending accept, when it does not find that it would block. -/
theorem Inv.handles_done (h : Inv s) (hwatching : s.server.acceptSocketController = true)
    (hagain : (TCPServerImpl.doAccept accepted adopted).isTryAgain = false) :
    Inv (s.handles (s.server.onFileReadable accepted adopted)) := by
  have hpending : s.server.pendingAccept = true :=
    h.consistent.1.mpr (h.consistent.2.mpr hwatching)
  obtain ⟨i, hcallback, hawaiting, hinvoked⟩ := h.pending hpending
  have hhandler : s.server.onFileReadable accepted adopted =
      (⟨false, s.server.acceptCallback, none, none, false⟩,
        some (some i, TCPServerImpl.doAccept accepted adopted)) := by
    simp [TCPServerImpl.onFileReadable, hagain, hcallback]
  rw [hhandler]
  refine ⟨⟨?_, h.open_, ?_, ?_⟩, h.fresh, fun hnone => absurd hnone Bool.false_ne_true⟩
  · simp [System.handles, Consistent]
  · exact List.nodup_cons.mpr ⟨hinvoked, h.once⟩
  · intro j hj
    rcases List.mem_cons.mp hj with rfl | hold
    · exact hawaiting
    · exact h.awaited j hold

theorem step_inv {a : Action Socket Remote} (h : Inv s) (hregistered : Registered s a)
    (hstep : step s a = some t) : Inv t := by
  cases a with
  | accept socket remote accepted adopted watch =>
      cases hstep
      by_cases hblocked : s.server.pendingAccept = false ∧
          (TCPServerImpl.doAccept accepted adopted).isTryAgain = true
      · obtain rfl : watch = .registered := hregistered hblocked.1 hblocked.2
        rw [accept_registered hblocked.1 hblocked.2]
        exact h.accepts_pending rfl
      · obtain ⟨status, hstatus, heq⟩ := accept_unchanged s.server s.next hblocked
        rw [heq]
        exact h.accepts_unchanged hstatus
  | readable accepted adopted =>
      simp only [step] at hstep
      split_ifs at hstep with hwatching
      cases hstep
      cases hagain : (TCPServerImpl.doAccept accepted adopted).isTryAgain with
      | false => exact h.handles_done hwatching hagain
      | true =>
          have hhandler : s.server.onFileReadable accepted adopted = (s.server, none) := by
            simp [TCPServerImpl.onFileReadable, hagain]
          rw [hhandler]
          exact h

/-- After a registration that has failed, an accept is pending for which the server has no
pointer. -/
theorem step_unsound {a : Action Socket Remote} (h : Inv s) (hfailed : ¬Registered s a)
    (hstep : step s a = some t) : ¬Sound t := by
  cases a with
  | readable accepted adopted => exact absurd trivial hfailed
  | accept socket remote accepted adopted watch =>
      cases hstep
      simp only [Registered, Classical.not_imp] at hfailed
      obtain ⟨hfree, hagain, hwatch⟩ := hfailed
      cases watch with
      | registered => exact absurd rfl hwatch
      | failed e =>
          rw [accept_failed hfree hagain]
          intro hsound
          have hsome : s.server.acceptSocket.isSome = true := hsound.consistent.1.mp rfl
          have hpending : s.server.pendingAccept = true := h.consistent.1.mpr hsome
          exact Bool.noConfusion (hfree.symm.trans hpending)

/-- For all calls of `Accept`, from anywhere and from within callbacks, and all events: the three
members agree, no failed `Accept` shuts the server, and no callback is invoked twice, if and only if
the registration of each accept that would block succeeds. -/
theorem accept_sound_iff (as : List (Action Socket Remote)) :
    Transition.Along step Sound (start : System Socket Remote) as ↔
      Transition.Meets step Registered (start : System Socket Remote) as :=
  Transition.along_iff_meets (fun _ _ _ hs ha hstep => step_inv hs ha hstep)
    (fun _ _ _ hs ha hstep => step_unsound hs ha hstep) (fun _ h => h.toSound) inv_start

/-- The error number of `epoll_ctl` when no more watches are allowed. -/
def ENOSPC : Int := 28

/-- The limit of watches is reached: `Accept` returns an error, and the next one finds an accept
pending though none is. -/
theorem accept_shut_out :
    let failed : Action Unit Unit := .accept () none (.error EAGAIN) .ok (.failed ENOSPC)
    ∃ s, Transition.run step (start : System Unit Unit) [failed] = some s ∧
      s.server.pendingAccept = true ∧ s.server.acceptSocket = none ∧
      s.server.acceptSocketController = false ∧ s.shutOut = true ∧ ¬Sound s ∧
      (s.server.accept () 1 none (.value 5) .ok .registered).1 =
        .failed ⟨.kCorruption, .text "UNEXPECTED ERROR", none⟩ := by
  intro failed
  refine ⟨_, rfl, rfl, rfl, rfl, rfl, ?_, rfl⟩
  intro hsound
  exact Bool.noConfusion hsound.open_

end TCPAccept

end Iomgr
