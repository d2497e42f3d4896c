import Iomgr.TCPServerImpl

/-!
The accept loop of the HTTP server over the queue of the listening socket. The socket is watched for
edges: an event comes when the socket is registered while a connection waits and when one arrives, and
not again for the connections that a handler leaves waiting. The loop ends for good at the first
`Accept` that fails otherwise than by `TryAgain`. `Accept` registers the socket before it stores the
pointer for the client, and an event may come in between.
-/

namespace Iomgr

namespace HTTPServerAccept

variable {Conn : Type}

/-- What `accept` finds: a connection, with what `AdoptConnectedSocket` then returns; no connection;
or an error. With `ECONNABORTED` the connection that was its turn is gone. -/
inductive Outcome
  | connection (adopted : Status)
  | empty
  | failed (osErrno : Int)
  deriving DecidableEq, Repr

/-- The server with its `accepted_socket_`, the queue of its socket and the event that is due, the
connections that `accept` has returned, and the `tcp_` of each `InternalResponse` that was made.
`looping` says that `DoAcceptLoop` is about to call `Accept`, `storing` that the last three statements
of an `Accept` are still to come. -/
structure System (Conn : Type) where
  backlog : List Conn
  edge : Bool
  server : TCPServerImpl Unit Unit Unit
  acceptedSocket : Option Conn
  accepted : List Conn
  responses : List (Option Conn)
  looping : Bool
  storing : Bool
  deriving DecidableEq

/-- The constructor has posted `DoAcceptLoop`. -/
def start : System Conn := ⟨[], false, .new, none, [], [], true, false⟩

inductive Action (Conn : Type)
  | arrive (c : Conn)
  | accept (outcome : Outcome) (watch : Watch)
  | store
  | readable (outcome : Outcome)
  deriving DecidableEq, Repr

/-- The call of `accept` by a `DoAccept` that was given a pointer: its result, what
`AdoptConnectedSocket` returns, and the system after them. Through a pointer that is null the client is
lost, when the program survives that. -/
def System.call (s : System Conn) (socket : Option Unit) :
    Outcome → Option (SysResult × Status × System Conn)
  | .connection adopted =>
      match s.backlog with
      | [] => none
      | c :: rest =>
          let s := { s with backlog := rest, accepted := s.accepted ++ [c] }
          some (.value 0, adopted,
            if adopted.isOk && socket.isSome then { s with acceptedSocket := some c } else s)
  | .empty => if s.backlog = [] then some (.error EAGAIN, .ok, s) else none
  | .failed e =>
      if e = 0 ∨ e = EAGAIN then none
      else some (.error e, .ok,
        if e = ECONNABORTED then { s with backlog := s.backlog.tail } else s)

/-- `HandleAcceptResult`. -/
def System.handleAcceptResult (s : System Conn) (status : Status) : Bool × System Conn :=
  if !status.isOk then (false, s)
  else
    (true, { s with responses := s.responses ++ [s.acceptedSocket], acceptedSocket := none })

/-- One turn of `DoAcceptLoop`, up to the last three statements of `Accept` where it comes to them. -/
def System.doAcceptLoop (s : System Conn) (accepted : SysResult) (adopted : Status) (watch : Watch) :
    System Conn :=
  let (returned, server) := s.server.acceptRegister accepted adopted watch
  let s := { s with
    server := server, edge := server.acceptSocketController && !s.backlog.isEmpty, looping := false }
  match returned with
  | none => { s with storing := true }
  | some status =>
      if status.isOk then
        let (acceptMore, s) := s.handleAcceptResult status
        { s with looping := acceptMore }
      else s

/-- `OnFileReadable` and, where it invokes the callback, `OnAcceptCompleted`. -/
def System.onFileReadable (s : System Conn) (accepted : SysResult) (adopted : Status) : System Conn :=
  let (server, invoked) := s.server.onFileReadable accepted adopted
  let s := { s with server := server, edge := false }
  match invoked with
  | some (some _, status) =>
      let (acceptMore, s) := s.handleAcceptResult status
      { s with looping := acceptMore }
  | _ => s

def step (s : System Conn) : Action Conn → Option (System Conn)
  | .arrive c =>
      some { s with
        backlog := s.backlog ++ [c], edge := s.edge || s.server.acceptSocketController }
  | .accept outcome watch =>
      if s.looping then
        (s.call (some ()) outcome).map fun r => r.2.2.doAcceptLoop r.1 r.2.1 watch
      else none
  | .store =>
      if s.storing then
        some { s with server := s.server.acceptStore () () none, storing := false }
      else none
  | .readable outcome =>
      if s.edge && !s.looping then
        (s.call s.server.acceptSocket outcome).map fun r => r.2.2.onFileReadable r.1 r.2.1
      else none

/-- Each connection that `accept` returned has its own `InternalResponse`, in their order; and the
server is about to accept, or it watches its socket and an event is due when a connection waits. -/
structure Serving (s : System Conn) : Prop where
  responses : s.responses = s.accepted.map some
  attentive : s.looping = true ∨
    s.server.acceptSocketController = true ∧ (s.backlog ≠ [] → s.edge = true)

/-- `accept` has no error but that no connection waits or that one was aborted, of which the second
must not leave others waiting when an event has come; sockets are adopted, and registered; and no event
brings a connection before `Accept` has stored the pointer for it. -/
def Smooth (s : System Conn) : Action Conn → Prop
  | .arrive _ => True
  | .accept outcome watch =>
      outcome = .connection .ok ∨
        (outcome = .empty ∨ outcome = .failed ECONNABORTED) ∧ watch = .registered
  | .store => True
  | .readable outcome =>
      (outcome = .connection .ok ∧ s.storing = false) ∨ outcome = .empty ∨
        outcome = .failed ECONNABORTED ∧ s.backlog.tail = []

/-- Between two steps no client is in `accepted_socket_`, and none is pending while the loop is about to
call `Accept`. The pointer for the next client is null until `Accept` has stored it, and from then on
the callback is there, too. -/
structure Inv (s : System Conn) : Prop extends Serving s where
  socket : s.acceptedSocket = none
  idle : s.looping = true → s.server.pendingAccept = false ∧
    s.server.acceptSocketController = false ∧ s.storing = false
  unset : s.looping = true ∨ s.storing = true → s.server.acceptSocket = none
  stored : s.looping = false → s.storing = false →
    s.server.acceptSocket = some () ∧ s.server.acceptCallback = some ()

theorem start_inv : Inv (start : System Conn) where
  responses := rfl
  attentive := .inl rfl
  socket := rfl
  idle _ := ⟨rfl, rfl, rfl⟩
  unset _ := rfl
  stored h := Bool.noConfusion h

variable {s t : System Conn} {accepted : SysResult} {adopted : Status} {watch : Watch}

theorem Inv.watching (h : Inv s) (hlooping : s.looping = false) :
    s.server.acceptSocketController = true := by
  rcases h.attentive with hloop | ⟨hwatching, -⟩
  · rw [hlooping] at hloop
    cases hloop
  · exact hwatching

/-! ### The two ways to accept -/

section Loop

variable (hfree : s.server.pendingAccept = false)

include hfree

/-- The loop gets a client, and goes on. -/
theorem doAcceptLoop_ok (hstatus : TCPServerImpl.doAccept accepted adopted = .ok) :
    s.doAcceptLoop accepted adopted watch =
      { s with
        edge := s.server.acceptSocketController && !s.backlog.isEmpty
        responses := s.responses ++ [s.acceptedSocket], acceptedSocket := none, looping := true } := by
  simp [System.doAcceptLoop, TCPServerImpl.acceptRegister, hfree, hstatus,
    System.handleAcceptResult, Status.isOk, Status.isTryAgain, Status.hasCode]

/-- It would block, and the socket is registered. -/
theorem doAcceptLoop_pending (hagain : (TCPServerImpl.doAccept accepted adopted).isTryAgain = true) :
    s.doAcceptLoop accepted adopted .registered =
      { s with
        server := { s.server with pendingAccept := true, acceptSocketController := true }
        edge := !s.backlog.isEmpty, looping := false, storing := true } := by
  simp [System.doAcceptLoop, TCPServerImpl.acceptRegister, hfree, hagain]

/-- It ends without the socket being registered; with an error number of zero it would go on without a
client. -/
theorem doAcceptLoop_failed
    (hstatus : (TCPServerImpl.doAccept accepted adopted).isOk = false)
    (hfailed : (TCPServerImpl.doAccept accepted adopted).isTryAgain = true →
      ∃ e, watch = .failed e) :
    ((s.doAcceptLoop accepted adopted watch).responses = s.responses ∧
        (s.doAcceptLoop accepted adopted watch).looping = false ∧
        (s.doAcceptLoop accepted adopted watch).server.acceptSocketController =
          s.server.acceptSocketController) ∨
      (s.doAcceptLoop accepted adopted watch).responses = s.responses ++ [s.acceptedSocket] ∧
        (TCPServerImpl.doAccept accepted adopted).isTryAgain = true := by
  cases hagain : (TCPServerImpl.doAccept accepted adopted).isTryAgain with
  | false =>
      left
      simp [System.doAcceptLoop, TCPServerImpl.acceptRegister, hfree, hagain, hstatus]
  | true =>
      obtain ⟨e, rfl⟩ := hfailed hagain
      by_cases he : mapSystemError e = .ok
      · right
        simp [System.doAcceptLoop, TCPServerImpl.acceptRegister, hfree, hagain, he, Status.isOk,
          System.handleAcceptResult]
      · left
        have hnot : (mapSystemError e).isOk = false := by
          cases hmap : mapSystemError e with
          | ok => exact absurd hmap he
          | failed f => rfl
        simp [System.doAcceptLoop, TCPServerImpl.acceptRegister, hfree, hagain, hnot]

end Loop

theorem doAcceptLoop_accepted :
    (s.doAcceptLoop accepted adopted watch).accepted = s.accepted := by
  simp only [System.doAcceptLoop, System.handleAcceptResult]
  split
  · rfl
  · split_ifs <;> rfl

theorem onFileReadable_ok (hcallback : s.server.acceptCallback = some ())
    (hstatus : TCPServerImpl.doAccept accepted adopted = .ok) :
    s.onFileReadable accepted adopted =
      { s with
        server := ⟨false, some (), none, none, false⟩, edge := false
        responses := s.responses ++ [s.acceptedSocket], acceptedSocket := none, looping := true } := by
  simp [System.onFileReadable, TCPServerImpl.onFileReadable, hstatus, hcallback,
    System.handleAcceptResult, Status.isOk, Status.isTryAgain, Status.hasCode]

theorem onFileReadable_again
    (hagain : (TCPServerImpl.doAccept accepted adopted).isTryAgain = true) :
    s.onFileReadable accepted adopted = { s with edge := false } := by
  simp [System.onFileReadable, TCPServerImpl.onFileReadable, hagain]

theorem onFileReadable_accepted :
    (s.onFileReadable accepted adopted).accepted = s.accepted := by
  simp only [System.onFileReadable, System.handleAcceptResult]
  split
  · split_ifs <;> rfl
  · rfl

/-- What the handler adds to the responses is the client in `accepted_socket_`, if anything. -/
theorem onFileReadable_responses :
    (s.onFileReadable accepted adopted).responses = s.responses ∨
      (s.onFileReadable accepted adopted).responses = s.responses ++ [s.acceptedSocket] := by
  simp only [System.onFileReadable, System.handleAcceptResult]
  split
  · split_ifs
    · exact Or.inl rfl
    · exact Or.inr rfl
  · exact Or.inl rfl

theorem onFileReadable_failed (hlooping : s.looping = false)
    (hstatus : (TCPServerImpl.doAccept accepted adopted).isOk = false)
    (hagain : (TCPServerImpl.doAccept accepted adopted).isTryAgain = false) :
    s.onFileReadable accepted adopted =
      { s with server := ⟨false, s.server.acceptCallback, none, none, false⟩, edge := false } := by
  cases hcallback : s.server.acceptCallback with
  | none => simp [System.onFileReadable, TCPServerImpl.onFileReadable, hagain, hcallback]
  | some callback =>
      simp [System.onFileReadable, TCPServerImpl.onFileReadable, hagain, hcallback,
        System.handleAcceptResult, hstatus, hlooping]

/-! ### Outcomes -/

theorem doAccept_aborted : (TCPServerImpl.doAccept (.error ECONNABORTED) adopted).isTryAgain = true :=
  rfl

theorem doAccept_empty : (TCPServerImpl.doAccept (.error EAGAIN) adopted).isTryAgain = true := rfl

/-- Any other error neither blocks nor is it none. -/
theorem doAccept_failed (adopted : Status) {e : Int} (hzero : e ≠ 0) (hagain : e ≠ EAGAIN)
    (haborted : e ≠ ECONNABORTED) :
    (TCPServerImpl.doAccept (.error e) adopted).isOk = false ∧
      (TCPServerImpl.doAccept (.error e) adopted).isTryAgain = false := by
  have hmap : TCPServerImpl.doAccept (.error e) adopted = mapSystemError e := if_neg haborted
  rw [hmap]
  constructor
  · rw [mapSystemError, if_neg hzero]
    rfl
  · exact Bool.eq_false_iff.mpr fun h => hagain (mapSystemError_isTryAgain.mp h)

theorem isOk_eq_false {status : Status} (h : status ≠ .ok) : status.isOk = false := by
  cases status with
  | ok => exact absurd rfl h
  | failed f => rfl

variable {socket : Option Unit} {r : SysResult × Status × System Conn}

theorem call_connection (h : s.call socket (.connection adopted) = some r) :
    ∃ c rest, s.backlog = c :: rest ∧ r = (.value 0, adopted,
      { s with
        backlog := rest, accepted := s.accepted ++ [c]
        acceptedSocket :=
          if adopted.isOk && socket.isSome then some c else s.acceptedSocket }) := by
  unfold System.call at h
  dsimp only at h
  split at h
  · cases h
  · next c rest hbacklog =>
      refine ⟨c, rest, hbacklog, ?_⟩
      cases h
      split_ifs <;> rfl

theorem call_empty (h : s.call socket .empty = some r) :
    s.backlog = [] ∧ r = (.error EAGAIN, .ok, s) := by
  simp only [System.call] at h
  split at h
  · next hempty =>
      cases h
      exact ⟨hempty, rfl⟩
  · cases h

theorem call_failed {e : Int} (h : s.call socket (.failed e) = some r) :
    (e ≠ 0 ∧ e ≠ EAGAIN) ∧ r = (.error e, .ok,
      if e = ECONNABORTED then { s with backlog := s.backlog.tail } else s) := by
  simp only [System.call] at h
  split at h
  · cases h
  · next hne =>
      cases h
      exact ⟨not_or.mp hne, rfl⟩

theorem step_accept {outcome : Outcome} (hstep : step s (.accept outcome watch) = some t) :
    s.looping = true ∧ ∃ r, s.call (some ()) outcome = some r ∧
      t = r.2.2.doAcceptLoop r.1 r.2.1 watch := by
  simp only [step] at hstep
  split at hstep
  · next hlooping =>
      obtain ⟨r, hcall, rfl⟩ := Option.map_eq_some_iff.mp hstep
      exact ⟨hlooping, r, hcall, rfl⟩
  · cases hstep

theorem step_readable {outcome : Outcome} (hstep : step s (.readable outcome) = some t) :
    s.looping = false ∧ ∃ r, s.call s.server.acceptSocket outcome = some r ∧
      t = r.2.2.onFileReadable r.1 r.2.1 := by
  simp only [step] at hstep
  split at hstep
  · next hready =>
      rw [Bool.and_eq_true, Bool.not_eq_true'] at hready
      obtain ⟨r, hcall, rfl⟩ := Option.map_eq_some_iff.mp hstep
      exact ⟨hready.2, r, hcall, rfl⟩
  · cases hstep

/-! ### Smooth steps -/

theorem arrive_inv {c : Conn} (h : Inv s) (hstep : step s (.arrive c) = some t) : Inv t := by
  cases hstep
  refine ⟨⟨h.responses, ?_⟩, h.socket, h.idle, h.unset, h.stored⟩
  rcases h.attentive with hloop | ⟨hwatching, -⟩
  · exact .inl hloop
  · refine .inr ⟨hwatching, fun _ => ?_⟩
    dsimp only
    rw [hwatching, Bool.or_true]

/-- The socket is registered, and the pointer not yet stored. -/
theorem registered_inv (h : Inv s) (hlooping : s.looping = true) {u : System Conn}
    (hresponses : u.responses = u.accepted.map some) (hsocket : u.acceptedSocket = none)
    (hserver : u.server = s.server) :
    Inv { u with
      server := { u.server with pendingAccept := true, acceptSocketController := true }
      edge := !u.backlog.isEmpty, looping := false, storing := true } where
  responses := hresponses
  attentive := .inr ⟨rfl, fun hne => by simpa using hne⟩
  socket := hsocket
  idle hloop := Bool.noConfusion hloop
  unset _ := (congrArg TCPServerImpl.acceptSocket hserver).trans (h.unset (.inl hlooping))
  stored _ hstoring := Bool.noConfusion hstoring

theorem accept_inv {outcome : Outcome} (h : Inv s) (hsmooth : Smooth s (.accept outcome watch))
    (hstep : step s (.accept outcome watch) = some t) : Inv t := by
  obtain ⟨hlooping, r, hcall, rfl⟩ := step_accept hstep
  obtain ⟨hfree, hwatching, hstoring⟩ := h.idle hlooping
  rcases hsmooth with rfl | ⟨rfl | rfl, rfl⟩
  · obtain ⟨c, rest, -, rfl⟩ := call_connection hcall
    rw [doAcceptLoop_ok]
    · refine ⟨⟨?_, .inl rfl⟩, rfl, fun _ => ⟨hfree, hwatching, hstoring⟩,
        fun _ => h.unset (.inl hlooping), fun hloop => Bool.noConfusion hloop⟩
      simp [h.responses, Status.isOk]
    · exact hfree
    · rfl
  · obtain ⟨-, rfl⟩ := call_empty hcall
    rw [doAcceptLoop_pending hfree doAccept_empty]
    exact registered_inv h hlooping h.responses h.socket rfl
  · obtain ⟨-, rfl⟩ := call_failed hcall
    rw [if_pos rfl, doAcceptLoop_pending]
    · exact registered_inv h hlooping h.responses h.socket rfl
    · exact hfree
    · exact doAccept_aborted

theorem store_inv (h : Inv s) (hstep : step s .store = some t) : Inv t := by
  simp only [step] at hstep
  split at hstep
  · next hstoring =>
      cases hstep
      have hlooping : s.looping = false := by
        rw [Bool.eq_false_iff]
        intro hloop
        exact Bool.noConfusion (hstoring.symm.trans (h.idle hloop).2.2)
      refine ⟨⟨h.responses, h.attentive⟩, h.socket, fun hloop => ?_, ?_, fun _ _ => ⟨rfl, rfl⟩⟩
      · exact Bool.noConfusion (hlooping.symm.trans hloop)
      · rintro (hloop | hstored)
        · exact Bool.noConfusion (hlooping.symm.trans hloop)
        · cases hstored
  · cases hstep

/-- An event that brings nothing. -/
theorem again_inv (h : Inv s) (hlooping : s.looping = false) {rest : List Conn} (hrest : rest = []) :
    Inv { s with backlog := rest, edge := false } :=
  ⟨⟨h.responses, .inr ⟨h.watching hlooping, fun hne => absurd hrest hne⟩⟩, h.socket, h.idle, h.unset,
    h.stored⟩

theorem readable_inv {outcome : Outcome} (h : Inv s) (hsmooth : Smooth s (.readable outcome))
    (hstep : step s (.readable outcome) = some t) : Inv t := by
  obtain ⟨hlooping, r, hcall, rfl⟩ := step_readable hstep
  rcases hsmooth with ⟨rfl, hstoring⟩ | rfl | ⟨rfl, htail⟩
  · obtain ⟨hpointer, hcallback⟩ := h.stored hlooping hstoring
    obtain ⟨c, rest, -, rfl⟩ := call_connection hcall
    rw [onFileReadable_ok]
    · refine ⟨⟨?_, .inl rfl⟩, rfl, fun _ => ⟨rfl, rfl, hstoring⟩, fun _ => rfl,
        fun hloop => Bool.noConfusion hloop⟩
      simp [h.responses, Status.isOk, hpointer]
    · exact hcallback
    · rfl
  · obtain ⟨hempty, rfl⟩ := call_empty hcall
    rw [onFileReadable_again doAccept_empty]
    exact again_inv h hlooping hempty
  · obtain ⟨-, rfl⟩ := call_failed hcall
    rw [if_pos rfl, onFileReadable_again doAccept_aborted]
    exact again_inv h hlooping htail

theorem step_inv (s : System Conn) (a : Action Conn) (t : System Conn) (h : Inv s)
    (hsmooth : Smooth s a) (hstep : step s a = some t) : Inv t := by
  cases a with
  | arrive c => exact arrive_inv h hstep
  | accept outcome watch => exact accept_inv h hsmooth hstep
  | store => exact store_inv h hstep
  | readable outcome => exact readable_inv h hsmooth hstep

/-! ### The other ones -/

/-- A connection that `accept` has returned and that no `InternalResponse` got. -/
theorem not_serving_of_length (h : t.responses.length ≠ t.accepted.length) : ¬Serving t := by
  intro hserving
  apply h
  rw [hserving.responses, List.length_map]

/-- The server neither accepts nor watches. -/
theorem not_serving_of_stopped (hlooping : t.looping = false)
    (hwatch : t.server.acceptSocketController = false) : ¬Serving t := by
  intro hserving
  rcases hserving.attentive with hloop | ⟨hwatching, -⟩
  · rw [hlooping] at hloop
    cases hloop
  · rw [hwatch] at hwatching
    cases hwatching

/-- The connection that `accept` returned last has no response, or one without a client. -/
theorem not_serving_of_lost (h : Serving s) {c : Conn} (haccepted : t.accepted = s.accepted ++ [c])
    (hresponses : t.responses = s.responses ∨ t.responses = s.responses ++ [none]) :
    ¬Serving t := by
  intro hserving
  have heq := hserving.responses
  rw [haccepted, List.map_append] at heq
  rcases hresponses with hsame | hmore
  · rw [hsame, h.responses] at heq
    exact absurd (congrArg List.length heq) (by simp)
  · rw [hmore] at heq
    have hlast := List.append_inj_right' heq rfl
    simp at hlast

/-- The loop does not get a client, and the socket is not registered: either it is over, or there is a
response too many. -/
theorem not_serving_of_failed (h : Inv s) (hlooping : s.looping = true) {rest : List Conn}
    (hstatus : (TCPServerImpl.doAccept accepted adopted).isOk = false)
    (hfailed : (TCPServerImpl.doAccept accepted adopted).isTryAgain = true →
      ∃ e, watch = .failed e) :
    ¬Serving (({ s with backlog := rest } : System Conn).doAcceptLoop accepted adopted watch) := by
  obtain ⟨hfree, hwatching, -⟩ := h.idle hlooping
  have hfree' : ({ s with backlog := rest } : System Conn).server.pendingAccept = false := hfree
  rcases doAcceptLoop_failed hfree' hstatus hfailed with ⟨-, hloop, hcontroller⟩ | ⟨hmore, -⟩
  · exact not_serving_of_stopped hloop (hcontroller.trans hwatching)
  · apply not_serving_of_length
    rw [hmore, doAcceptLoop_accepted, List.length_append]
    simp [h.responses]

/-- A connection that was accepted and refused leaves the loop without a response of its own. -/
theorem not_serving_of_refused (h : Inv s) (hlooping : s.looping = true) {c : Conn} {rest : List Conn}
    (hadopted : adopted.isOk = false) :
    ¬Serving (({ s with
      backlog := rest, accepted := s.accepted ++ [c] } : System Conn).doAcceptLoop (.value 0)
        adopted watch) := by
  obtain ⟨hfree, -, -⟩ := h.idle hlooping
  apply not_serving_of_lost h.toServing doAcceptLoop_accepted
  by_cases hpending : adopted.isTryAgain = true ∧ watch = .registered
  · obtain ⟨hagain, rfl⟩ := hpending
    left
    rw [doAcceptLoop_pending]
    · exact hfree
    · exact hagain
  · have hfailed : (TCPServerImpl.doAccept (.value 0) adopted).isTryAgain = true →
        ∃ e, watch = .failed e := by
      intro hagain
      cases watch with
      | registered => exact absurd ⟨hagain, rfl⟩ hpending
      | failed e => exact ⟨e, rfl⟩
    rw [← h.socket]
    have hstatus : (TCPServerImpl.doAccept (.value 0) adopted).isOk = false := hadopted
    rcases doAcceptLoop_failed (s := { s with
        backlog := rest, accepted := s.accepted ++ [c] }) hfree hstatus hfailed with
      ⟨hsame, -, -⟩ | ⟨hmore, -⟩
    · exact Or.inl hsame
    · exact Or.inr hmore

theorem accept_not_serving {outcome : Outcome} (h : Inv s)
    (hrough : ¬Smooth s (.accept outcome watch))
    (hstep : step s (.accept outcome watch) = some t) : ¬Serving t := by
  obtain ⟨hlooping, r, hcall, rfl⟩ := step_accept hstep
  have hblocked : (outcome = .empty ∨ outcome = .failed ECONNABORTED) →
      ∃ e, watch = .failed e := by
    intro houtcome
    cases watch with
    | registered => exact absurd (.inr ⟨houtcome, rfl⟩) hrough
    | failed e => exact ⟨e, rfl⟩
  cases outcome with
  | connection adopted =>
      have hadopted : adopted.isOk = false := isOk_eq_false fun hok => hrough (.inl (hok ▸ rfl))
      obtain ⟨c, rest, -, rfl⟩ := call_connection hcall
      rw [hadopted, Bool.false_and, if_neg Bool.false_ne_true]
      exact not_serving_of_refused h hlooping hadopted
  | empty =>
      obtain ⟨-, rfl⟩ := call_empty hcall
      exact not_serving_of_failed h hlooping rfl fun _ => hblocked (.inl rfl)
  | failed e =>
      obtain ⟨⟨hzero, hagain⟩, rfl⟩ := call_failed hcall
      by_cases haborted : e = ECONNABORTED
      · subst haborted
        rw [if_pos rfl]
        exact not_serving_of_failed h hlooping rfl fun _ => hblocked (.inr rfl)
      · obtain ⟨hstatus, hnot⟩ := doAccept_failed .ok hzero hagain haborted
        rw [if_neg haborted]
        exact not_serving_of_failed h hlooping hstatus fun htrue =>
          Bool.noConfusion (hnot.symm.trans htrue)

theorem readable_not_serving {outcome : Outcome} (h : Inv s)
    (hrough : ¬Smooth s (.readable outcome)) (hstep : step s (.readable outcome) = some t) :
    ¬Serving t := by
  obtain ⟨hlooping, r, hcall, rfl⟩ := step_readable hstep
  cases outcome with
  | connection adopted =>
      -- the client is refused, or the pointer for it is null
      have hlost : (adopted.isOk && s.server.acceptSocket.isSome) = false := by
        cases hadopted : adopted.isOk with
        | false => rfl
        | true =>
            have hok : adopted = .ok := by
              cases adopted with
              | ok => rfl
              | failed f => cases hadopted
            have hstoring : s.storing = true := by
              by_contra hstored
              exact hrough (.inl ⟨hok ▸ rfl, Bool.eq_false_iff.mpr hstored⟩)
            rw [h.unset (.inr hstoring)]
            rfl
      obtain ⟨c, rest, -, rfl⟩ := call_connection hcall
      rw [hlost, if_neg Bool.false_ne_true]
      apply not_serving_of_lost h.toServing onFileReadable_accepted
      rw [← h.socket]
      exact onFileReadable_responses
  | empty => exact absurd (.inr (.inl rfl)) hrough
  | failed e =>
      obtain ⟨⟨hzero, hagain⟩, rfl⟩ := call_failed hcall
      by_cases haborted : e = ECONNABORTED
      · subst haborted
        have hwaiting : s.backlog.tail ≠ [] := fun htail => hrough (.inr (.inr ⟨rfl, htail⟩))
        rw [if_pos rfl, onFileReadable_again doAccept_aborted]
        rintro ⟨-, hloop | ⟨-, hedge⟩⟩
        · exact Bool.noConfusion (hlooping.symm.trans hloop)
        · exact Bool.noConfusion (hedge hwaiting)
      · obtain ⟨hstatus, hnot⟩ := doAccept_failed .ok hzero hagain haborted
        rw [if_neg haborted, onFileReadable_failed hlooping hstatus hnot]
        exact not_serving_of_stopped hlooping rfl

theorem step_not_serving (s : System Conn) (a : Action Conn) (t : System Conn) (h : Inv s)
    (hrough : ¬Smooth s a) (hstep : step s a = some t) : ¬Serving t := by
  cases a with
  | arrive c => exact absurd trivial hrough
  | accept outcome watch => exact accept_not_serving h hrough hstep
  | store => exact absurd trivial hrough
  | readable outcome => exact readable_not_serving h hrough hstep

/-- In every run, each connection that `accept` returns gets an `InternalResponse` of its own, in order,
and the server never rests while a connection waits and no event is due, if and only if no step has
`accept` fail, find a connection aborted before others that wait, or return a socket that is not
adopted, each registration succeeds, and no event brings a connection before `Accept` has stored the
pointer for it. -/
theorem connections_served_iff (actions : List (Action Conn)) :
    Transition.Along step Serving (start : System Conn) actions ↔
      Transition.Meets step Smooth (start : System Conn) actions :=
  Transition.along_iff_meets step_inv step_not_serving (fun _ h => h.toServing) start_inv

/-- The first of two waiting connections is aborted: the second waits for good, since no event is due. -/
example : (Transition.run step (start : System Nat)
    [.accept .empty .registered, .store, .arrive 1, .arrive 2, .readable (.failed ECONNABORTED)]).map
      (fun s => (s.backlog, s.edge, s.looping)) = some ([2], false, false) := by
  decide

/-- A connection comes while `Accept` has not yet stored the pointer: its response is never made. -/
example : (Transition.run step (start : System Nat)
    [.accept .empty .registered, .arrive 1, .readable (.connection .ok), .store]).map
      (fun s => (s.accepted, s.responses)) = some ([1], []) := by
  decide

end HTTPServerAccept

end Iomgr
