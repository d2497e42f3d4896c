import Iomgr.Ownership
import Iomgr.TCPSockets
import Iomgr.TransitionSystem
import Mathlib.Data.Finset.Basic

/-!
The descriptors of a program that uses the TCP classes: clients and servers in the pointers that the
program keeps, each with its `ScopedFD`, and descriptors that other parts of the program open and
close. A number that is closed may be given out again at once, so that closing one twice would close
that of somebody else.
-/

namespace Iomgr

namespace DescriptorOwnership

variable {Callback Buffer : Type}

/-- A call of a client, or an event or the rest of a handler that runs on it, other than
`Disconnect`. -/
inductive ClientCall (Callback Buffer : Type)
  | readIfReady (callback : Callback) (doRead : SysResult) (watch : Watch)
  | read (buf : Buffer) (bufLen : Int) (callback : Callback) (doRead : SysResult) (watch : Watch)
  | cancelReadIfReady
  | write (buf : Buffer) (bufLen : Int) (callback : Callback) (doWrite : SysResult) (watch : Watch)
  | onFileReadable (doRead : SysResult) (watch : Watch)
  | onFileWritable (soError : Int) (doWrite : SysResult)
  | onConnectTimeout
  | resume (frame : Frame)

def ClientCall.apply (c : TCPClientSocket Callback Buffer) :
    ClientCall Callback Buffer → TCPClientSocket Callback Buffer
  | .readIfReady callback doRead watch => (c.readIfReady (.user callback) doRead watch).2
  | .read buf bufLen callback doRead watch => (c.read buf bufLen callback doRead watch).2
  | .cancelReadIfReady => c.cancelReadIfReady
  | .write buf bufLen callback doWrite watch => (c.write buf bufLen callback doWrite watch).2
  | .onFileReadable doRead watch => (c.onFileReadable doRead watch).1
  | .onFileWritable soError doWrite => (c.onFileWritable soError doWrite).1
  | .onConnectTimeout => ({ c with connectTimeoutController := false }.onConnectTimeout).1
  | .resume frame => c.resume frame

/-- The process. `stray` are the calls of `close` on a number that is not open, `leaked` the sockets
that `DoAccept` got and neither kept nor closed. -/
structure Process (Callback Buffer : Type) where
  live : Finset Nat
  stray : List Nat
  clients : Nat → Option (TCPClientSocket Callback Buffer)
  servers : Nat → Option (TCPServerSocket Callback)
  others : Nat → Option Nat
  leaked : List Nat

def start : Process Callback Buffer := ⟨∅, [], fun _ => none, fun _ => none, fun _ => none, []⟩

/-- What the program and the system do. -/
inductive Action (Callback Buffer : Type)
  | connect (x : Nat) (remote : InetAddress) (options : TCPClient.Options) (callback : Callback)
      (localAddr : Option InetAddress) (calls : ConnectCalls)
  | listen (v : Nat) (localAddr : InetAddress) (options : TCPServer.Options) (calls : ListenCalls)
  | accept (v x : Nat) (callback : Callback) (remote : Option Nat) (calls : AcceptCalls)
      (watch : Watch)
  | acceptReadable (v : Nat) (calls : AcceptCalls)
  | client (x : Nat) (call : ClientCall Callback Buffer)
  | disconnect (x : Nat)
  | destroyClient (x : Nat)
  | destroyServer (v : Nat) (result : CloseResult)
  | otherOpen (n fd : Nat)
  | otherClose (n : Nat)

namespace Process

variable (s : Process Callback Buffer)

def setClient (x : Nat) (c : Option (TCPClientSocket Callback Buffer)) : Process Callback Buffer :=
  { s with clients := Function.update s.clients x c }

def setServer (v : Nat) (server : Option (TCPServerSocket Callback)) : Process Callback Buffer :=
  { s with servers := Function.update s.servers v server }

def setOther (n : Nat) (fd : Option Nat) : Process Callback Buffer :=
  { s with others := Function.update s.others n fd }

/-- `close`, on a number that is open or not. -/
def close (fd : Nat) : Process Callback Buffer :=
  if fd ∈ s.live then { s with live := s.live.erase fd } else { s with stray := fd :: s.stray }

/-- The system returns a number that is not open. -/
def opens (fd : Nat) : Option (Process Callback Buffer) :=
  if fd ∈ s.live then none else some { s with live := insert fd s.live }

/-- Another part of the program opens one. -/
def otherOpens (n fd : Nat) : Option (Process Callback Buffer) :=
  if (s.others n).isSome then none else (s.opens fd).map fun s => s.setOther n (some fd)

def call : DescriptorCall → Option (Process Callback Buffer)
  | .opened fd => s.opens fd
  | .closed fd => some (s.close fd)
  | .fileClosed fd .done => some (s.close fd)
  | .fileClosed fd (.interrupted none) => some ((s.close fd).close fd)
  | .fileClosed fd (.interrupted (some n)) =>
      ((s.close fd).otherOpens n fd).map fun s => s.close fd

def callAll : Process Callback Buffer → List DescriptorCall → Option (Process Callback Buffer)
  | s, [] => some s
  | s, c :: cs => (s.call c).bind fun s => s.callAll cs

/-- Sockets are left open that nothing holds. -/
def leak (fds : List Nat) : Process Callback Buffer := { s with leaked := s.leaked ++ fds }

/-- What the pointer's client closes when it is destroyed, by its `Disconnect`. -/
def closeClient (x : Nat) : List DescriptorCall :=
  ((s.clients x).map fun c => ScopedFD.reset c.socketFd).getD []

def closeServer (v : Nat) (result : CloseResult) : List DescriptorCall :=
  ((s.servers v).map fun server => ScopedFD.destroy server.socketFd result).getD []

/-- `DoAccept` into the pointer `x`: its status, its calls, and what it leaves. A client that was
there is destroyed when there is a new one. -/
def accepts (x : Nat) (calls : AcceptCalls) :
    Status × List DescriptorCall × (Process Callback Buffer → Process Callback Buffer) :=
  match TCPServerSocket.doAccept calls with
  | (status, some c, made) => (status, made ++ s.closeClient x, fun t => t.setClient x (some c))
  | (status, none, made) =>
      (status, made, fun t => t.leak calls.leaked)

/-- The calls of an action, and what it leaves in the pointers. -/
def plan : Action Callback Buffer →
    Option (List DescriptorCall × (Process Callback Buffer → Process Callback Buffer))
  | .connect x remote options callback localAddr calls =>
      match TCPClient.connect remote options callback localAddr calls with
      | (_, some c, made) => some (made ++ s.closeClient x, fun t => t.setClient x (some c))
      | (_, none, made) => some (made, id)
  | .listen v localAddr options calls =>
      match TCPServer.listen localAddr options calls with
      | (_, some server, made) =>
          some (made ++ s.closeServer v calls.destroy, fun t => t.setServer v (some server))
      | (_, none, made) => some (made, id)
  | .accept v x callback remote calls watch =>
      (s.servers v).map fun server =>
        if server.server.pendingAccept then ([], id)
        else
          let (adopted, made, finish) := s.accepts x calls
          (made, fun t => (finish t).setServer v (some { server with
            server := (server.server.accept x callback remote calls.accept adopted watch).2 }))
  | .acceptReadable v calls =>
      (s.servers v).bind fun server =>
        if server.server.acceptSocketController then
          server.server.acceptSocket.map fun x =>
            let (adopted, made, finish) := s.accepts x calls
            (made, fun t => (finish t).setServer v (some { server with
              server := (server.server.onFileReadable calls.accept adopted).1 }))
        else none
  | .client x call =>
      (s.clients x).map fun c => ([], fun t => t.setClient x (some (call.apply c)))
  | .disconnect x =>
      (s.clients x).map fun c => (s.closeClient x, fun t => t.setClient x (some c.disconnect))
  | .destroyClient x =>
      (s.clients x).map fun _ => (s.closeClient x, fun t => t.setClient x none)
  | .destroyServer v result =>
      (s.servers v).map fun _ => (s.closeServer v result, fun t => t.setServer v none)
  | .otherOpen n fd =>
      if (s.others n).isSome then none else some ([.opened fd], fun t => t.setOther n (some fd))
  | .otherClose n =>
      (s.others n).map fun fd => ([.closed fd], fun t => t.setOther n none)

end Process

def step (s : Process Callback Buffer) (a : Action Callback Buffer) :
    Option (Process Callback Buffer) :=
  (s.plan a).bind fun plan => (s.callAll plan.1).map plan.2

/-! ### Who holds what -/

/-- The clients, the servers, the other parts of the program, and the record of the sockets that were
refused and stay open, which is no object of the program. -/
inductive Owner
  | client (x : Nat)
  | server (v : Nat)
  | other (n : Nat)
  | leaked (k : Nat)
  deriving DecidableEq

def held (s : Process Callback Buffer) : Owner → Option Nat
  | .client x => (s.clients x).bind fun c => ScopedFD.descriptor c.socketFd
  | .server v => (s.servers v).bind fun server => ScopedFD.descriptor server.socketFd
  | .other n => s.others n
  | .leaked k => s.leaked[k]?

/-- No `close` has missed, and the open descriptors are those that are held or on record as refused,
each once. -/
structure Sound (s : Process Callback Buffer) : Prop where
  stray : s.stray = []
  owns : Ownership.Owns (held s) (s.live : Set Nat)

/-- What the objects and the other parts of the program hold. -/
def heldByProgram (s : Process Callback Buffer) : Owner → Option Nat
  | .leaked _ => none
  | o => held s o

/-- No `close` has missed, and the open descriptors are those that the program holds, each by one
object or one other part of it. -/
structure Owned (s : Process Callback Buffer) : Prop where
  stray : s.stray = []
  owns : Ownership.Owns (heldByProgram s) (s.live : Set Nat)

/-- No `FileOp::close` of the action is interrupted. -/
def Uninterrupted (s : Process Callback Buffer) (a : Action Callback Buffer) : Prop :=
  ∀ plan, s.plan a = some plan → ∀ c ∈ plan.1, c.isInterrupted = false

variable {s t : Process Callback Buffer}

theorem sound_start : Sound (start : Process Callback Buffer) where
  stray := rfl
  owns := by
    have hheld : held (start : Process Callback Buffer) = fun _ => none := by
      funext o
      cases o <;> rfl
    have hlive : ((start : Process Callback Buffer).live : Set Nat) = ∅ := Finset.coe_empty
    rw [hheld, hlive]
    exact Ownership.owns_empty

/-- Of the descriptors on record only the refused ones are not held by the program. -/
theorem Sound.owned_iff (h : Sound s) : Owned s ↔ s.leaked = [] := by
  constructor
  · intro howned
    by_contra hne
    obtain ⟨fd, rest, hleaked⟩ := List.exists_cons_of_ne_nil hne
    have hrecord : held s (.leaked 0) = some fd := by rw [held, hleaked, List.getElem?_cons_zero]
    obtain ⟨o, ho⟩ := (howned.owns.live_iff fd).mp (h.owns.mem_live hrecord)
    cases o with
    | client x => cases h.owns.unique (o := .client x) ho hrecord
    | server v => cases h.owns.unique (o := .server v) ho hrecord
    | other n => cases h.owns.unique (o := .other n) ho hrecord
    | leaked k => cases ho
  · intro hnone
    have hheld : heldByProgram s = held s := by
      funext o
      cases o with
      | leaked k =>
          rw [held, hnone, List.getElem?_nil]
          rfl
      | client x => rfl
      | server v => rfl
      | other n => rfl
    refine ⟨h.stray, ?_⟩
    rw [hheld]
    exact h.owns

section Held

variable (s)

theorem held_setClient (x : Nat) (c : Option (TCPClientSocket Callback Buffer)) :
    held (s.setClient x c) =
      Function.update (held s) (.client x) (c.bind fun c => ScopedFD.descriptor c.socketFd) := by
  funext o
  cases o with
  | client y =>
      by_cases hy : y = x
      · subst hy
        simp [held, Process.setClient]
      · have hne : Owner.client y ≠ .client x := fun h => hy (Owner.client.inj h)
        simp [held, Process.setClient, hy, hne]
  | server v => rfl
  | other n => rfl
  | leaked k => rfl

theorem held_setServer (v : Nat) (server : Option (TCPServerSocket Callback)) :
    held (s.setServer v server) =
      Function.update (held s) (.server v)
        (server.bind fun server => ScopedFD.descriptor server.socketFd) := by
  funext o
  cases o with
  | server w =>
      by_cases hw : w = v
      · subst hw
        simp [held, Process.setServer]
      · have hne : Owner.server w ≠ .server v := fun h => hw (Owner.server.inj h)
        simp [held, Process.setServer, hw, hne]
  | client x => rfl
  | other n => rfl
  | leaked k => rfl

theorem held_setOther (n : Nat) (fd : Option Nat) :
    held (s.setOther n fd) = Function.update (held s) (.other n) fd := by
  funext o
  cases o with
  | other m =>
      by_cases hm : m = n
      · subst hm
        simp [held, Process.setOther]
      · have hne : Owner.other m ≠ .other n := fun h => hm (Owner.other.inj h)
        simp [held, Process.setOther, hm, hne]
  | client x => rfl
  | server v => rfl
  | leaked k => rfl

theorem leak_nil : s.leak [] = s := by
  rw [Process.leak, List.append_nil]

theorem held_leak (fd : Nat) :
    held (s.leak [fd]) =
      Function.update (held s) (.leaked s.leaked.length) (some fd) := by
  funext o
  cases o with
  | leaked k =>
      by_cases hk : k = s.leaked.length
      · subst hk
        simp [held, Process.leak]
      · have hne : Owner.leaked k ≠ .leaked s.leaked.length := fun h => hk (Owner.leaked.inj h)
        rw [Function.update_of_ne hne]
        simp only [held, Process.leak]
        rcases Nat.lt_or_gt_of_ne hk with hlt | hgt
        · rw [List.getElem?_append_left hlt]
        · rw [List.getElem?_eq_none (by simp; omega), List.getElem?_eq_none (by omega)]
  | client x => rfl
  | server v => rfl
  | other n => rfl

end Held

/-! ### What a step can do -/

/-- What an action does to the descriptors: what it opens it closes again; or an owner gets the one
that is opened and what it had is closed; or what an owner had is closed. -/
inductive Effect (s : Process Callback Buffer) :
    List DescriptorCall → (Process Callback Buffer → Process Callback Buffer) → Prop
  | keep {cs : List DescriptorCall} {finish : Process Callback Buffer → Process Callback Buffer}
      (transient : Transient cs)
      (heldAfter : ∀ live, held (finish { s with live := live }) = held s) : Effect s cs finish
  | replace {cs : List DescriptorCall} {finish : Process Callback Buffer → Process Callback Buffer}
      (o : Owner) (fd : Nat) (closing : Closing (held s o) cs)
      (heldAfter : ∀ live,
        held (finish { s with live := live }) = Function.update (held s) o (some fd)) :
      Effect s (.opened fd :: cs) finish
  | drop {cs : List DescriptorCall} {finish : Process Callback Buffer → Process Callback Buffer}
      (o : Owner) (closing : Closing (held s o) cs)
      (heldAfter : ∀ live,
        held (finish { s with live := live }) = Function.update (held s) o none) :
      Effect s cs finish

/-- What an action leaves in the pointers does not touch the descriptors themselves, nor what other
parts of the program hold, unless the action is theirs. -/
structure Frame (cs : List DescriptorCall)
    (finish : Process Callback Buffer → Process Callback Buffer) : Prop where
  live : ∀ t, (finish t).live = t.live
  stray : ∀ t, (finish t).stray = t.stray
  others : ∀ t, (∃ c ∈ cs, c.isInterrupted = true) → (finish t).others = t.others

section Plan

variable {cs : List DescriptorCall}
  {finish : Process Callback Buffer → Process Callback Buffer}

theorem frame_id : Frame cs (id : Process Callback Buffer → Process Callback Buffer) :=
  ⟨fun _ => rfl, fun _ => rfl, fun _ _ => rfl⟩

theorem frame_setClient (x : Nat) (c : Option (TCPClientSocket Callback Buffer)) :
    Frame cs fun t => t.setClient x c :=
  ⟨fun _ => rfl, fun _ => rfl, fun _ _ => rfl⟩

theorem Frame.setServer (h : Frame cs finish) (v : Nat)
    (server : Option (TCPServerSocket Callback)) : Frame cs fun t => (finish t).setServer v server :=
  ⟨fun t => h.live t, fun t => h.stray t, fun t => h.others t⟩

theorem frame_setOther (n : Nat) (fd : Option Nat) (h : ∀ c ∈ cs, c.isInterrupted = false) :
    Frame cs fun t : Process Callback Buffer => t.setOther n fd := by
  refine ⟨fun _ => rfl, fun _ => rfl, fun t => ?_⟩
  rintro ⟨c, hc, hinterrupted⟩
  rw [h c hc] at hinterrupted
  cases hinterrupted

theorem closeClient_closing (s : Process Callback Buffer) (x : Nat) :
    Closing (held s (.client x)) (s.closeClient x) := by
  rw [held, Process.closeClient]
  cases s.clients x with
  | none => exact .inl ⟨rfl, rfl⟩
  | some c => exact ScopedFD.reset_closing c.socketFd

theorem closeServer_closing (s : Process Callback Buffer) (v : Nat) (result : CloseResult) :
    Closing (held s (.server v)) (s.closeServer v result) := by
  rw [held, Process.closeServer]
  cases s.servers v with
  | none => exact .inl ⟨rfl, rfl⟩
  | some server => exact ScopedFD.destroy_closing server.socketFd result

/-- A client in a pointer changes without its descriptor. -/
theorem held_sameClient {x : Nat} {c c' : TCPClientSocket Callback Buffer}
    (hc : s.clients x = some c) (hfd : c'.socketFd = c.socketFd) :
    held (s.setClient x (some c')) = held s := by
  rw [held_setClient, Option.bind_some, hfd]
  apply Function.update_eq_iff.mpr
  refine ⟨?_, fun _ _ => rfl⟩
  rw [held, hc, Option.bind_some]

theorem held_sameServer {v : Nat} {server server' : TCPServerSocket Callback}
    (hv : (held s) (.server v) = ScopedFD.descriptor server.socketFd)
    (hfd : server'.socketFd = server.socketFd) :
    held (s.setServer v (some server')) = held s := by
  rw [held_setServer, Option.bind_some, hfd, ← hv, Function.update_eq_self]

theorem clientCall_socketFd (c : TCPClientSocket Callback Buffer)
    (call : ClientCall Callback Buffer) : (call.apply c).socketFd = c.socketFd := by
  have hreadIfReady : ∀ (callback : ReadIfReadyCallback Callback) (doRead : SysResult) (watch : Watch)
      (c : TCPClientSocket Callback Buffer),
      (c.readIfReady callback doRead watch).2.socketFd = c.socketFd := by
    intro callback doRead watch c
    unfold TCPClientImpl.readIfReady
    dsimp only
    split_ifs
    · rfl
    · cases watch <;> rfl
  have hconnectDone : ∀ (status : Status) (soError : Int) (c : TCPClientSocket Callback Buffer),
      (c.onConnectDone status soError).1.socketFd = c.socketFd := by
    intro status soError c
    unfold TCPClientImpl.onConnectDone
    split_ifs <;> rfl
  cases call with
  | readIfReady callback doRead watch => exact hreadIfReady _ doRead watch c
  | read buf bufLen callback doRead watch =>
      have h := hreadIfReady .retryRead doRead watch c
      simp only [ClientCall.apply, TCPClientImpl.read]
      split_ifs <;> exact h
  | cancelReadIfReady => rfl
  | write buf bufLen callback doWrite watch =>
      simp only [ClientCall.apply, TCPClientImpl.write]
      split_ifs
      · rfl
      · cases watch <;> rfl
  | onFileReadable doRead watch =>
      have h := hreadIfReady .retryRead doRead watch { c with readSocketController := false }
      simp only [ClientCall.apply, TCPClientImpl.onFileReadable, TCPClientImpl.onReadDone]
      split
      · rfl
      · rfl
      · simp only [TCPClientImpl.retryRead]
        split_ifs <;> exact h
  | onFileWritable soError doWrite =>
      simp only [ClientCall.apply, TCPClientImpl.onFileWritable]
      split_ifs
      · exact hconnectDone .ok soError c
      · unfold TCPClientImpl.onWriteDone
        dsimp only
        split_ifs <;> rfl
  | onConnectTimeout => exact hconnectDone _ _ _
  | resume frame => cases frame <;> rfl

theorem accepts_effect (x : Nat) (calls : AcceptCalls) {v : Nat}
    {server server' : TCPServerSocket Callback} (hv : s.servers v = some server)
    (hfd : server'.socketFd = server.socketFd) {status : Status}
    (h : s.accepts x calls = (status, cs, finish)) :
    Effect s cs (fun t => (finish t).setServer v (some server')) ∧
      Frame cs fun t => (finish t).setServer v (some server') := by
  have hserver : held s (.server v) = ScopedFD.descriptor server.socketFd := by
    rw [held, hv, Option.bind_some]
  unfold Process.accepts at h
  rcases haccept : TCPServerSocket.doAccept calls with ⟨status', _ | c, made⟩
  · rw [haccept] at h
    obtain ⟨-, rfl, rfl⟩ : status' = status ∧ made = cs ∧ _ = finish := by simpa using h
    refine ⟨?_, Frame.setServer (by exact ⟨fun _ => rfl, fun _ => rfl, fun _ _ => rfl⟩) v _⟩
    rcases TCPServerSocket.doAccept_leaves calls haccept with
      ⟨htransient, hleaked⟩ | ⟨-, fd, hleaked, rfl⟩
    · refine .keep htransient fun live => ?_
      rw [hleaked]
      dsimp only
      rw [leak_nil]
      exact held_sameServer hserver hfd
    · refine .replace (.leaked s.leaked.length) fd (.inl ⟨by simp [held], rfl⟩) fun live => ?_
      rw [hleaked]
      have hleak := held_leak { s with live := live } fd
      have hother : Owner.server v ≠ .leaked s.leaked.length := Owner.noConfusion
      refine (held_sameServer ?_ hfd).trans hleak
      rw [hleak, Function.update_of_ne hother]
      exact hserver
  · rw [haccept] at h
    obtain ⟨-, rfl, rfl⟩ : status' = status ∧ made ++ s.closeClient x = cs ∧ _ = finish := by
      simpa using h
    refine ⟨?_, (frame_setClient x (some c)).setServer v _⟩
    rcases TCPServerSocket.doAccept_leaves calls haccept with ⟨⟨fd, hsocket, rfl⟩, -⟩ | ⟨hnone, -⟩
    · refine .replace (.client x) fd (closeClient_closing s x) fun live => ?_
      have hset := held_setClient { s with live := live } x (some c)
      rw [Option.bind_some, hsocket, ScopedFD.descriptor_natCast] at hset
      have hother : Owner.server v ≠ .client x := Owner.noConfusion
      refine (held_sameServer ?_ hfd).trans hset
      rw [hset, Function.update_of_ne hother]
      exact hserver
    · cases hnone

theorem plan_effect {a : Action Callback Buffer} (h : s.plan a = some (cs, finish)) :
    Effect s cs finish ∧ Frame cs finish := by
  cases a with
  | connect x remote options callback localAddr calls =>
      simp only [Process.plan] at h
      rcases hconnect : (TCPClient.connect remote options callback localAddr calls :
        Status × Option (TCPClientSocket Callback Buffer) × List DescriptorCall) with
        ⟨status, _ | c, made⟩
      · have hleaves := TCPClient.connect_leaves remote options callback localAddr calls hconnect
        rw [hconnect] at h
        cases h
        exact ⟨.keep hleaves fun _ => rfl, frame_id⟩
      · obtain ⟨fd, hsocket, rfl⟩ :=
          TCPClient.connect_leaves remote options callback localAddr calls hconnect
        rw [hconnect] at h
        cases h
        refine ⟨.replace (.client x) fd (closeClient_closing s x) fun live => ?_,
          frame_setClient x (some c)⟩
        rw [held_setClient, Option.bind_some, hsocket, ScopedFD.descriptor_natCast]
        rfl
  | listen v localAddr options calls =>
      simp only [Process.plan] at h
      rcases hlisten : (TCPServer.listen localAddr options calls :
        Status × Option (TCPServerSocket Callback) × List DescriptorCall) with
        ⟨status, _ | server, made⟩
      · have hleaves := TCPServer.listen_leaves localAddr options calls hlisten
        rw [hlisten] at h
        cases h
        exact ⟨.keep hleaves fun _ => rfl, frame_id⟩
      · obtain ⟨fd, hsocket, rfl⟩ := TCPServer.listen_leaves localAddr options calls hlisten
        rw [hlisten] at h
        cases h
        refine ⟨.replace (.server v) fd (closeServer_closing s v calls.destroy) fun live => ?_,
          frame_id.setServer v (some server)⟩
        rw [held_setServer, Option.bind_some, hsocket, ScopedFD.descriptor_natCast]
        rfl
  | accept v x callback remote calls watch =>
      obtain ⟨server, hv, hplan⟩ := Option.map_eq_some_iff.mp h
      split at hplan
      · cases hplan
        exact ⟨.keep (.inl rfl) fun _ => rfl, frame_id⟩
      · rcases haccepts : s.accepts x calls with ⟨adopted, made, after⟩
        rw [haccepts] at hplan
        cases hplan
        exact accepts_effect x calls hv rfl haccepts
  | acceptReadable v calls =>
      obtain ⟨server, hv, hplan⟩ := Option.bind_eq_some_iff.mp h
      split at hplan
      · obtain ⟨x, -, hplan⟩ := Option.map_eq_some_iff.mp hplan
        rcases haccepts : s.accepts x calls with ⟨adopted, made, after⟩
        rw [haccepts] at hplan
        cases hplan
        exact accepts_effect x calls hv rfl haccepts
      · cases hplan
  | client x call =>
      obtain ⟨c, hc, hplan⟩ := Option.map_eq_some_iff.mp h
      cases hplan
      exact ⟨.keep (.inl rfl) fun live => held_sameClient hc (clientCall_socketFd c call),
        frame_setClient x _⟩
  | disconnect x =>
      obtain ⟨c, hc, hplan⟩ := Option.map_eq_some_iff.mp h
      cases hplan
      exact ⟨.drop (.client x) (closeClient_closing s x) fun live =>
        held_setClient { s with live := live } x (some c.disconnect), frame_setClient x _⟩
  | destroyClient x =>
      obtain ⟨c, hc, hplan⟩ := Option.map_eq_some_iff.mp h
      cases hplan
      exact ⟨.drop (.client x) (closeClient_closing s x) fun live =>
        held_setClient { s with live := live } x none, frame_setClient x _⟩
  | destroyServer v result =>
      obtain ⟨server, hv, hplan⟩ := Option.map_eq_some_iff.mp h
      cases hplan
      exact ⟨.drop (.server v) (closeServer_closing s v result) fun live =>
        held_setServer { s with live := live } v none, frame_id.setServer v none⟩
  | otherOpen n fd =>
      simp only [Process.plan] at h
      split at h
      · cases h
      · next hnone =>
          cases h
          have hheld : held s (.other n) = none := Option.not_isSome_iff_eq_none.mp hnone
          exact ⟨.replace (.other n) fd (.inl ⟨hheld, rfl⟩) fun live =>
            held_setOther { s with live := live } n (some fd),
            frame_setOther n _ (by simp [DescriptorCall.isInterrupted])⟩
  | otherClose n =>
      obtain ⟨fd, hfd, hplan⟩ := Option.map_eq_some_iff.mp h
      cases hplan
      exact ⟨.drop (.other n) (.inr ⟨fd, _, hfd, rfl, .inl rfl⟩) fun live =>
        held_setOther { s with live := live } n none,
        frame_setOther n _ (by simp [DescriptorCall.isInterrupted])⟩

end Plan

/-! ### One step -/

section Step

variable {cs : List DescriptorCall} {c : DescriptorCall} {fd : Nat} {o : Owner}

theorem callAll_cons {t : Process Callback Buffer} :
    s.callAll (c :: cs) = some t ↔ ∃ u, s.call c = some u ∧ u.callAll cs = some t := by
  rw [Process.callAll, Option.bind_eq_some_iff]

theorem callAll_append {cs' : List DescriptorCall} :
    s.callAll (cs ++ cs') = some t ↔ ∃ u, s.callAll cs = some u ∧ u.callAll cs' = some t := by
  induction cs generalizing s with
  | nil => simp [Process.callAll]
  | cons c cs ih =>
      simp only [List.cons_append, callAll_cons, ih]
      constructor
      · rintro ⟨u, hu, v, hv, ht⟩
        exact ⟨v, ⟨u, hu, hv⟩, ht⟩
      · rintro ⟨v, ⟨u, hu, hv⟩, ht⟩
        exact ⟨u, hu, v, hv, ht⟩

theorem call_opened (h : s.call (.opened fd) = some t) :
    fd ∉ s.live ∧ t = { s with live := insert fd s.live } := by
  simp only [Process.call, Process.opens] at h
  split at h
  · cases h
  · next hfd =>
      cases h
      exact ⟨hfd, rfl⟩

/-- A `close` that is not interrupted, of a number that is open. -/
theorem call_closes (hc : c.Closes fd) (hcalm : c.isInterrupted = false) (hfd : fd ∈ s.live) :
    s.call c = some { s with live := s.live.erase fd } := by
  have hclose : s.close fd = { s with live := s.live.erase fd } := if_pos hfd
  rcases hc with rfl | ⟨_ | _, rfl⟩
  · exact congrArg some hclose
  · exact congrArg some hclose
  · cases hcalm

theorem callAll_transient (hcs : Transient cs) (hcalm : ∀ c ∈ cs, c.isInterrupted = false)
    (h : s.callAll cs = some t) : t = s := by
  rcases hcs with rfl | ⟨fd, c, rfl, hc⟩
  · cases h
    rfl
  · obtain ⟨u, hopened, h⟩ := callAll_cons.mp h
    obtain ⟨hfd, rfl⟩ := call_opened hopened
    obtain ⟨v, hclosed, h⟩ := callAll_cons.mp h
    rw [call_closes hc (hcalm c (by simp)) (Finset.mem_insert_self fd s.live)] at hclosed
    cases hclosed
    cases h
    dsimp only
    rw [Finset.erase_insert hfd]

/-- The owner's descriptor is open, and afterwards it is not. -/
theorem callAll_closing {held : Option Nat} (hcs : Closing held cs)
    (hcalm : ∀ c ∈ cs, c.isInterrupted = false) (hlive : ∀ fd, held = some fd → fd ∈ s.live)
    (h : s.callAll cs = some t) :
    ∃ live : Finset Nat, t = { s with live := live } ∧
      (live : Set Nat) = (s.live : Set Nat) \ {fd | held = some fd} := by
  rcases hcs with ⟨rfl, rfl⟩ | ⟨fd, c, rfl, rfl, hc⟩
  · cases h
    exact ⟨s.live, rfl, by simp⟩
  · obtain ⟨u, hclosed, h⟩ := callAll_cons.mp h
    rw [call_closes hc (hcalm c (by simp)) (hlive fd rfl)] at hclosed
    cases hclosed
    cases h
    refine ⟨s.live.erase fd, rfl, ?_⟩
    rw [Finset.coe_erase]
    ext q
    simp [eq_comm]

theorem step_cases {a : Action Callback Buffer} (h : step s a = some t) :
    ∃ cs finish u, s.plan a = some (cs, finish) ∧ s.callAll cs = some u ∧ t = finish u := by
  obtain ⟨⟨cs, finish⟩, hplan, h⟩ := Option.bind_eq_some_iff.mp h
  obtain ⟨u, hcalls, rfl⟩ := Option.map_eq_some_iff.mp h
  exact ⟨cs, finish, u, hplan, hcalls, rfl⟩

theorem step_sound (s : Process Callback Buffer) (a : Action Callback Buffer)
    (t : Process Callback Buffer) (h : Sound s) (hcalm : Uninterrupted s a)
    (hstep : step s a = some t) : Sound t := by
  obtain ⟨cs, finish, u, hplan, hcalls, rfl⟩ := step_cases hstep
  have hnone := hcalm _ hplan
  obtain ⟨heffect, hframe⟩ := plan_effect hplan
  have hopen : ∀ o fd, held s o = some fd → fd ∈ s.live := fun o fd ho =>
    Finset.mem_coe.mp (h.owns.mem_live ho)
  cases heffect with
  | keep htransient hheld =>
      obtain rfl := callAll_transient htransient hnone hcalls
      refine ⟨(hframe.stray u).trans h.stray, ?_⟩
      have hsame : held (finish u) = held u := hheld u.live
      rw [hsame, hframe.live]
      exact h.owns
  | drop o hclosing hheld =>
      obtain ⟨live, rfl, hlive⟩ := callAll_closing hclosing hnone (hopen o) hcalls
      refine ⟨(hframe.stray _).trans h.stray, ?_⟩
      rw [hheld live, hframe.live, hlive]
      exact h.owns.drop o
  | replace o fd hclosing hheld =>
      obtain ⟨v, hopened, hcalls⟩ := callAll_cons.mp hcalls
      obtain ⟨hfresh, rfl⟩ := call_opened hopened
      obtain ⟨live, rfl, hlive⟩ := callAll_closing hclosing
        (fun c hc => hnone c (List.mem_cons_of_mem _ hc))
        (fun q hq => Finset.mem_insert_of_mem (hopen o q hq)) hcalls
      refine ⟨(hframe.stray _).trans h.stray, ?_⟩
      have hne : fd ∉ {q | held s o = some q} := fun hq => hfresh (hopen o fd hq)
      rw [hheld live, hframe.live, hlive, Finset.coe_insert, Set.insert_sdiff_of_notMem _ hne]
      exact h.owns.replace o fun hmem => hfresh (Finset.mem_coe.mp hmem)

/-- An interrupted call is the last one of its action. -/
theorem Effect.interrupted_last {finish : Process Callback Buffer → Process Callback Buffer}
    (h : Effect s cs finish) (hc : c ∈ cs) (hinterrupted : c.isInterrupted = true) :
    ∃ pre, cs = pre ++ [c] := by
  have hclosing : ∀ {held : Option Nat} {cs : List DescriptorCall}, Closing held cs → c ∈ cs →
      cs = [c] := by
    rintro held cs (⟨-, rfl⟩ | ⟨fd, c', -, rfl, -⟩) hmem
    · cases hmem
    · rw [List.mem_singleton.mp hmem]
  cases h with
  | keep htransient _ =>
      rcases htransient with rfl | ⟨fd, c', rfl, -⟩
      · cases hc
      · rcases List.mem_cons.mp hc with rfl | hc
        · cases hinterrupted
        · exact ⟨[.opened fd], by rw [List.mem_singleton.mp hc]; rfl⟩
  | drop o hclosed _ => exact ⟨[], hclosing hclosed hc⟩
  | replace o fd hclosed _ =>
      rcases List.mem_cons.mp hc with rfl | hc
      · cases hinterrupted
      · exact ⟨[.opened fd], congrArg (DescriptorCall.opened fd :: ·) (hclosing hclosed hc)⟩

theorem close_notMem (s : Process Callback Buffer) (fd : Nat) : fd ∉ (s.close fd).live := by
  unfold Process.close
  split_ifs with hfd
  · exact Finset.notMem_erase fd s.live
  · exact hfd

/-- The repeated call misses, or it closes what another part of the program has just opened. -/
theorem call_interrupted (hinterrupted : c.isInterrupted = true) (h : s.call c = some t) :
    t.stray ≠ [] ∨ ∃ n fd, t.others n = some fd ∧ fd ∉ t.live := by
  match c, hinterrupted with
  | .fileClosed fd (.interrupted none), _ =>
      cases h
      left
      rw [Process.close, if_neg (close_notMem s fd)]
      exact List.cons_ne_nil _ _
  | .fileClosed fd (.interrupted (some n)), _ =>
      obtain ⟨u, hopens, rfl⟩ := Option.map_eq_some_iff.mp h
      right
      refine ⟨n, fd, ?_, close_notMem u fd⟩
      unfold Process.otherOpens at hopens
      split at hopens
      · cases hopens
      · obtain ⟨v, -, rfl⟩ := Option.map_eq_some_iff.mp hopens
        unfold Process.close
        split_ifs <;> exact Function.update_self ..

theorem step_interrupted (s : Process Callback Buffer) (a : Action Callback Buffer)
    (t : Process Callback Buffer) (hinterrupted : ¬Uninterrupted s a)
    (hstep : step s a = some t) : ¬Owned t := by
  obtain ⟨cs, finish, u, hplan, hcalls, rfl⟩ := step_cases hstep
  obtain ⟨heffect, hframe⟩ := plan_effect hplan
  obtain ⟨c, hc, hlate⟩ : ∃ c ∈ cs, c.isInterrupted = true := by
    by_contra hnone
    refine hinterrupted fun plan hplan' c hc => ?_
    cases hplan.symm.trans hplan'
    exact Bool.eq_false_iff.mpr fun htrue => hnone ⟨c, hc, htrue⟩
  obtain ⟨pre, rfl⟩ := heffect.interrupted_last hc hlate
  obtain ⟨v, -, hlast⟩ := callAll_append.mp hcalls
  obtain ⟨w, hcall, hnil⟩ := callAll_cons.mp hlast
  cases hnil
  intro howned
  rcases call_interrupted hlate hcall with hstray | ⟨n, fd, hother, hfd⟩
  · exact hstray ((hframe.stray u).symm.trans howned.stray)
  · have hheld : heldByProgram (finish u) (.other n) = some fd :=
      (congrFun (hframe.others u ⟨c, hc, hlate⟩) n).trans hother
    have hmem := Finset.mem_coe.mp (howned.owns.mem_live hheld)
    rw [hframe.live] at hmem
    exact hfd hmem

end Step

/-! ### Refused sockets -/

/-- A socket that `accept` returns comes with the name of an IPv4 or IPv6 peer. -/
def PeerNamed (calls : AcceptCalls) : Prop :=
  ∀ fd, calls.accept = .value fd → calls.peer.length = 16 ∨ calls.peer.length = 28

/-- So does each socket that the action accepts. -/
def Named (s : Process Callback Buffer) : Action Callback Buffer → Prop
  | .accept v _ _ _ calls _ =>
      ∀ server, s.servers v = some server → server.server.pendingAccept = false → PeerNamed calls
  | .acceptReadable _ calls => PeerNamed calls
  | _ => True

theorem remote_isValid (calls : AcceptCalls) :
    (SockaddrStorage.ofInetAddress calls.remote).isValid = true ↔
      calls.peer.length = 16 ∨ calls.peer.length = 28 := by
  rw [SockaddrStorage.ofInetAddress_isValid, AcceptCalls.remote, SockaddrStorage.toInetAddress]
  have hin : (SockaddrStorage.new.receive calls.peer).isIPv4 = decide (calls.peer.length = 16) := rfl
  have hin6 : (SockaddrStorage.new.receive calls.peer).isIPv6 = decide (calls.peer.length = 28) := rfl
  rw [hin, hin6]
  by_cases h4 : calls.peer.length = 16
  · simp [h4]
  · by_cases h6 : calls.peer.length = 28
    · simp [h6]
    · simp [h4, h6, InetAddress.new]

theorem leaked_eq_nil {calls : AcceptCalls} : calls.leaked = [] ↔ PeerNamed calls := by
  unfold AcceptCalls.leaked PeerNamed
  cases calls.accept with
  | error e => simp
  | value fd =>
      rw [← remote_isValid]
      simp

theorem callAll_leaked {cs : List DescriptorCall} (h : s.callAll cs = some t) :
    t.leaked = s.leaked := by
  have hclose : ∀ (s : Process Callback Buffer) fd, (s.close fd).leaked = s.leaked := by
    intro s fd
    unfold Process.close
    split_ifs <;> rfl
  have hopens : ∀ {s t : Process Callback Buffer} {fd}, s.opens fd = some t → t.leaked = s.leaked := by
    intro s t fd h
    unfold Process.opens at h
    split at h
    · cases h
    · cases h
      rfl
  have hcall : ∀ {s t : Process Callback Buffer} {c}, s.call c = some t → t.leaked = s.leaked := by
    intro s t c h
    match c with
    | .opened fd => exact hopens h
    | .closed fd =>
        cases h
        exact hclose s fd
    | .fileClosed fd .done =>
        cases h
        exact hclose s fd
    | .fileClosed fd (.interrupted none) =>
        cases h
        rw [hclose, hclose]
    | .fileClosed fd (.interrupted (some n)) =>
        obtain ⟨u, hu, rfl⟩ := Option.map_eq_some_iff.mp h
        unfold Process.otherOpens at hu
        split at hu
        · cases hu
        · obtain ⟨v, hv, rfl⟩ := Option.map_eq_some_iff.mp hu
          rw [hclose]
          exact (hopens hv).trans (hclose s fd)
  induction cs generalizing s with
  | nil =>
      cases h
      rfl
  | cons c cs ih =>
      obtain ⟨u, hu, ht⟩ := callAll_cons.mp h
      exact (ih ht).trans (hcall hu)

/-- What `DoAccept` leaves over is what comes from a peer without a name. -/
theorem accepts_leaked {x : Nat} {calls : AcceptCalls} {status : Status} {cs : List DescriptorCall}
    {finish : Process Callback Buffer → Process Callback Buffer}
    (h : s.accepts x calls = (status, cs, finish)) (t : Process Callback Buffer) :
    (finish t).leaked = t.leaked ++ calls.leaked := by
  unfold Process.accepts at h
  rcases haccept : TCPServerSocket.doAccept calls with ⟨status', _ | c, made⟩
  · rw [haccept] at h
    obtain ⟨-, -, rfl⟩ : status' = status ∧ made = cs ∧ _ = finish := by simpa using h
    rfl
  · rw [haccept] at h
    obtain ⟨-, -, rfl⟩ : status' = status ∧ made ++ s.closeClient x = cs ∧ _ = finish := by
      simpa using h
    rcases TCPServerSocket.doAccept_leaves calls haccept with ⟨-, hnone⟩ | ⟨hnone, -⟩
    · rw [hnone, List.append_nil]
      rfl
    · cases hnone

theorem step_leaked (s : Process Callback Buffer) (a : Action Callback Buffer)
    (t : Process Callback Buffer) (hstep : step s a = some t) :
    t.leaked = [] ↔ s.leaked = [] ∧ Named s a := by
  obtain ⟨cs, finish, u, hplan, hcalls, rfl⟩ := step_cases hstep
  have hsame := callAll_leaked hcalls
  have hkept : (finish u).leaked = u.leaked → Named s a →
      ((finish u).leaked = [] ↔ s.leaked = [] ∧ Named s a) := by
    intro hfinish hnamed
    rw [hfinish, hsame]
    exact (and_iff_left hnamed).symm
  have haccepted : ∀ {x calls status made after}, s.accepts x calls = (status, made, after) →
      (finish u).leaked = (after u).leaked → (Named s a ↔ PeerNamed calls) →
      ((finish u).leaked = [] ↔ s.leaked = [] ∧ Named s a) := by
    intro x calls status made after haccepts hfinish hnamed
    rw [hfinish, accepts_leaked haccepts, hsame, List.append_eq_nil_iff, leaked_eq_nil, hnamed]
  cases a with
  | accept v x callback remote calls watch =>
      obtain ⟨server, hv, hplan⟩ := Option.map_eq_some_iff.mp hplan
      have hserver : ∀ server', s.servers v = some server' → server' = server := fun server' h =>
        Option.some.inj (h.symm.trans hv)
      split at hplan
      · next hpending =>
          cases hplan
          refine hkept rfl fun server' h hfree => ?_
          rw [hserver server' h, hpending] at hfree
          cases hfree
      · next hfree =>
          rcases haccepts : s.accepts x calls with ⟨adopted, made, after⟩
          rw [haccepts] at hplan
          cases hplan
          refine haccepted haccepts rfl ⟨fun h => h server hv (Bool.eq_false_iff.mpr hfree), ?_⟩
          exact fun h server' _ _ => h
  | acceptReadable v calls =>
      obtain ⟨server, hv, hplan⟩ := Option.bind_eq_some_iff.mp hplan
      split at hplan
      · obtain ⟨x, -, hplan⟩ := Option.map_eq_some_iff.mp hplan
        rcases haccepts : s.accepts x calls with ⟨adopted, made, after⟩
        rw [haccepts] at hplan
        cases hplan
        exact haccepted haccepts rfl Iff.rfl
      · cases hplan
  | connect x remote options callback localAddr calls =>
      simp only [Process.plan] at hplan
      split at hplan <;> cases hplan <;> exact hkept rfl trivial
  | listen v localAddr options calls =>
      simp only [Process.plan] at hplan
      split at hplan <;> cases hplan <;> exact hkept rfl trivial
  | client x call =>
      obtain ⟨c, -, hplan⟩ := Option.map_eq_some_iff.mp hplan
      cases hplan
      exact hkept rfl trivial
  | disconnect x =>
      obtain ⟨c, -, hplan⟩ := Option.map_eq_some_iff.mp hplan
      cases hplan
      exact hkept rfl trivial
  | destroyClient x =>
      obtain ⟨c, -, hplan⟩ := Option.map_eq_some_iff.mp hplan
      cases hplan
      exact hkept rfl trivial
  | destroyServer v result =>
      obtain ⟨server, -, hplan⟩ := Option.map_eq_some_iff.mp hplan
      cases hplan
      exact hkept rfl trivial
  | otherOpen n fd =>
      simp only [Process.plan] at hplan
      split at hplan <;> cases hplan
      exact hkept rfl trivial
  | otherClose n =>
      obtain ⟨fd, -, hplan⟩ := Option.map_eq_some_iff.mp hplan
      cases hplan
      exact hkept rfl trivial

/-- No `FileOp::close` of the action is interrupted, and every socket that it accepts has the name of
its peer. -/
def Careful (s : Process Callback Buffer) (a : Action Callback Buffer) : Prop :=
  Uninterrupted s a ∧ Named s a

theorem step_careful (s : Process Callback Buffer) (a : Action Callback Buffer)
    (t : Process Callback Buffer) (h : Sound s ∧ s.leaked = []) (hcareful : Careful s a)
    (hstep : step s a = some t) : Sound t ∧ t.leaked = [] :=
  ⟨step_sound s a t h.1 hcareful.1 hstep, (step_leaked s a t hstep).mpr ⟨h.2, hcareful.2⟩⟩

theorem step_careless (s : Process Callback Buffer) (a : Action Callback Buffer)
    (t : Process Callback Buffer) (h : Sound s ∧ s.leaked = []) (hcareless : ¬Careful s a)
    (hstep : step s a = some t) : ¬Owned t := by
  by_cases hcalm : Uninterrupted s a
  · have hsound := step_sound s a t h.1 hcalm hstep
    rw [hsound.owned_iff, step_leaked s a t hstep]
    rintro ⟨-, hnamed⟩
    exact hcareless ⟨hcalm, hnamed⟩
  · exact step_interrupted s a t hcalm hstep

/-- Whatever clients and servers do in whatever order: as long as no `FileOp::close` is interrupted
and every accepted socket has the name of its peer, each open descriptor is held by one object or one
other part of the program and none is closed that its object does not hold; the first interrupted
call, and the first socket without a name, break this. -/
theorem descriptors_owned_iff (actions : List (Action Callback Buffer)) :
    Transition.Along step Owned start actions ↔ Transition.Meets step Careful start actions :=
  Transition.along_iff_meets step_careful step_careless (fun _ h => h.1.owned_iff.mpr h.2)
    ⟨sound_start, rfl⟩

/-- After a run without an interrupted `FileOp::close` in which all clients and servers are destroyed
again, no descriptor is open, unless an accepted socket came without the address of its peer: just
those stay open. -/
theorem all_closed_iff {actions : List (Action Callback Buffer)} {s : Process Callback Buffer}
    (hcalm : Transition.Meets step Uninterrupted start actions)
    (hrun : Transition.run step start actions = some s) (hclients : ∀ x, s.clients x = none)
    (hservers : ∀ v, s.servers v = none) (hothers : ∀ n, s.others n = none) :
    (s.live = ∅ ↔ Transition.Meets step Named start actions) ∧ ∀ fd, fd ∈ s.live ↔ fd ∈ s.leaked := by
  have hsound : Sound s := Transition.run_invariant_of_meets step_sound sound_start hcalm hrun
  have hlive : ∀ fd, fd ∈ s.live ↔ fd ∈ s.leaked := by
    intro fd
    rw [← Finset.mem_coe, hsound.owns.live_iff, List.mem_iff_getElem?]
    constructor
    · rintro ⟨o, ho⟩
      cases o with
      | client x => simp [held, hclients x] at ho
      | server v => simp [held, hservers v] at ho
      | other n => simp [held, hothers n] at ho
      | leaked k => exact ⟨k, ho⟩
    · rintro ⟨k, hk⟩
      exact ⟨.leaked k, hk⟩
  refine ⟨?_, hlive⟩
  have hend := Transition.end_iff_meets step_leaked hrun
  have hstart : (start : Process Callback Buffer).leaked = [] := rfl
  rw [and_iff_right hstart] at hend
  rw [← hend, Finset.eq_empty_iff_forall_notMem, List.eq_nil_iff_forall_not_mem]
  exact forall_congr' fun fd => not_congr (hlive fd)

section Example

def anyAddress : InetAddress := ⟨Vector.replicate 16 0, 80, .kIPv4⟩

def opens (fd : Nat) : OpenCalls := ⟨.value fd, .value 2, .value 0, .done⟩

def listens (fd : Nat) : ListenCalls := { opens fd with
  bind := .value 0, name := none, reuseAddr := .value 0, listen := .value 0, destroy := .done }

def acceptsFrom (fd : Nat) (peer : Bytes) : AcceptCalls := ⟨.value fd, peer, .value 2, .value 0, .done⟩

/-- A server accepts one socket with the address of its peer and one without. -/
def serves : List (Action Unit Unit) :=
  [.listen 0 anyAddress ⟨true⟩ (listens 3), .accept 0 0 () none (acceptsFrom 4 anyAddress.encode)
      .registered,
    .accept 0 0 () none (acceptsFrom 5 []) .registered, .otherOpen 0 6, .destroyClient 0,
    .otherClose 0, .destroyServer 0 .done]

instance (s : Process Unit Unit) (a : Action Unit Unit) : Decidable (Uninterrupted s a) :=
  match h : s.plan a with
  | none => isTrue fun plan hplan => by
      rw [h] at hplan
      cases hplan
  | some plan =>
      decidable_of_iff (∀ c ∈ plan.1, c.isInterrupted = false)
        ⟨fun hall plan' hplan' => Option.some.inj (h.symm.trans hplan') ▸ hall, fun hall => hall plan h⟩

theorem all_closed_iff_serves :
    ∃ s, Transition.run step start serves = some s ∧ s.live = {5} ∧
      ¬Transition.Meets step Named start serves := by
  obtain ⟨s, hrun, hclients, hservers, hothers, hlive⟩ :
      ∃ s, Transition.run step start serves = some s ∧ s.clients = (fun _ => none) ∧
        s.servers = (fun _ => none) ∧ s.others = (fun _ => none) ∧ s.live = {5} := by
    refine ⟨_, rfl, ?_, ?_, ?_, by decide +kernel⟩
    · funext x
      cases x <;> rfl
    · funext v
      cases v <;> rfl
    · funext n
      cases n <;> rfl
  have hclosed := all_closed_iff (Transition.meets_of_check (by decide +kernel)) hrun
    (congrFun hclients) (congrFun hservers) (congrFun hothers)
  refine ⟨s, hrun, hlive, fun hnamed => ?_⟩
  have hempty := hclosed.1.mpr hnamed
  rw [hlive] at hempty
  exact absurd hempty (Finset.singleton_ne_empty 5)

end Example

end DescriptorOwnership

end Iomgr
