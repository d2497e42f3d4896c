import Iomgr.TCPClientImpl

/-!
A client that is destroyed by the callback of its own operation, as `Finish` of an HTTP request or
response does it. Every handler that invokes a callback clears the callback's member when the
callback returns, so that each of them writes to the destroyed client.
-/

namespace Iomgr

namespace TCPDestroy

/-- The events that complete an operation. -/
inductive Event
  | readable (doRead : SysResult) (watch : Watch)
  | writable (soError : Int) (doWrite : SysResult)
  | timeout
  deriving DecidableEq, Repr

variable {Callback Buffer Address : Type}

def handler (c : TCPClientImpl Callback Buffer Address) :
    Event → TCPClientImpl Callback Buffer Address × Option (Invocation Callback)
  | .readable doRead watch => c.onFileReadable doRead watch
  | .writable soError doWrite => c.onFileWritable soError doWrite
  | .timeout => { c with connectTimeoutController := false }.onConnectTimeout

/-- A client in memory. `usedDead` records that a member was accessed after the destructor. -/
structure Object (Callback Buffer Address : Type) where
  client : TCPClientImpl Callback Buffer Address
  alive : Bool
  usedDead : Bool
  deriving DecidableEq, Repr

namespace Object

/-- A statement reads or writes a member. -/
def access (x : Object Callback Buffer Address) : Object Callback Buffer Address :=
  { x with usedDead := x.usedDead || !x.alive }

/-- The destructor, which calls `Disconnect`. -/
def destroy (x : Object Callback Buffer Address) : Object Callback Buffer Address :=
  { x.access with client := x.client.disconnect, alive := false }

/-- The rest of a handler. -/
def resume (x : Object Callback Buffer Address) (frame : Frame) : Object Callback Buffer Address :=
  { x.access with client := x.client.resume frame }

/-- An event. The callback that its handler invokes does what it does to the client and then
destroys it; the handlers on the stack go on when it returns. An empty callback throws. -/
def deliver
    (callback : TCPClientImpl Callback Buffer Address → TCPClientImpl Callback Buffer Address)
    (x : Object Callback Buffer Address) (event : Event) : Object Callback Buffer Address :=
  match handler x.client event with
  | (c, none) => { x.access with client := c }
  | (c, some ⟨none, _, _⟩) => { x.access with client := c }
  | (c, some ⟨some _, _, rest⟩) =>
      rest.foldl resume { x.access with client := callback c }.destroy

/-- Events one after the other, up to the destruction of the client. -/
def deliverAll
    (callback : TCPClientImpl Callback Buffer Address → TCPClientImpl Callback Buffer Address) :
    Object Callback Buffer Address → List Event → Object Callback Buffer Address
  | x, [] => x
  | x, event :: events =>
      if x.alive then (x.deliver callback event).deliverAll callback events else x

end Object

section Handlers

variable {c c' : TCPClientImpl Callback Buffer Address} {invocation : Invocation Callback}

theorem onConnectDone_rest {status : Status} {soError : Int}
    (h : c.onConnectDone status soError = (c', some invocation)) :
    invocation.rest = [.connectDone] := by
  unfold TCPClientImpl.onConnectDone at h
  split_ifs at h
  · cases h
  · cases h
    rfl
  · cases h
    rfl

theorem onWriteDone_rest {doWrite : SysResult}
    (h : c.onWriteDone doWrite = (c', some invocation)) : invocation.rest = [.writeDone] := by
  unfold TCPClientImpl.onWriteDone at h
  dsimp only at h
  split_ifs at h
  · cases h
  · cases h
    rfl

/-- `OnReadDone` goes on after every callback, also after that of a `Read`, which `RetryRead`
invokes inside it. -/
theorem onReadDone_rest {doRead : SysResult} {watch : Watch}
    (h : c.onReadDone doRead watch = (c', some invocation)) : .readDone ∈ invocation.rest := by
  unfold TCPClientImpl.onReadDone at h
  dsimp only at h
  split at h
  · cases h
    exact List.mem_cons_self
  · cases h
    exact List.mem_cons_self
  · split at h
    · cases h
    · cases h
      exact List.mem_append_right _ List.mem_cons_self

/-- A handler that invokes a callback has statements left. -/
theorem handler_rest {event : Event} (h : handler c event = (c', some invocation)) :
    invocation.rest ≠ [] := by
  cases event with
  | readable doRead watch => exact List.ne_nil_of_mem (onReadDone_rest h)
  | timeout =>
      rw [handler, TCPClientImpl.onConnectTimeout] at h
      rw [onConnectDone_rest h]
      exact List.cons_ne_nil _ _
  | writable soError doWrite =>
      simp only [handler, TCPClientImpl.onFileWritable] at h
      split at h
      · rw [onConnectDone_rest h]
        exact List.cons_ne_nil _ _
      · rw [onWriteDone_rest h]
        exact List.cons_ne_nil _ _

end Handlers

namespace Object

variable {x : Object Callback Buffer Address}
  {callback : TCPClientImpl Callback Buffer Address → TCPClientImpl Callback Buffer Address}

theorem foldl_resume_usedDead (frames : List Frame) (h : x.usedDead = true) :
    (frames.foldl resume x).usedDead = true := by
  induction frames generalizing x with
  | nil => exact h
  | cons frame frames ih =>
      apply ih
      simp [resume, access, h]

theorem foldl_resume_alive (frames : List Frame) : (frames.foldl resume x).alive = x.alive := by
  induction frames generalizing x with
  | nil => rfl
  | cons frame frames ih => exact ih

/-- What is left of a handler uses the destroyed client. -/
theorem foldl_resume_of_dead {frames : List Frame} (hframes : frames ≠ []) (h : x.alive = false) :
    (frames.foldl resume x).usedDead = true := by
  cases frames with
  | nil => exact absurd rfl hframes
  | cons frame frames =>
      rw [List.foldl_cons]
      apply foldl_resume_usedDead
      simp [resume, access, h]

/-- One event: the client stays alive, or it is used after its destruction. -/
theorem deliver_cases (halive : x.alive = true) (event : Event) :
    (x.deliver callback event).alive = true ∨
      (x.deliver callback event).alive = false ∧ (x.deliver callback event).usedDead = true := by
  unfold deliver
  split
  · exact Or.inl halive
  · exact Or.inl halive
  · rename_i hhandler
    exact Or.inr ⟨foldl_resume_alive _, foldl_resume_of_dead (handler_rest hhandler) rfl⟩

theorem deliverAll_of_dead (h : x.alive = false) (events : List Event) :
    x.deliverAll callback events = x := by
  cases events with
  | nil => rfl
  | cons event events => rw [deliverAll, h, if_neg Bool.false_ne_true]

end Object

/-- Every client, every sequence of events and everything a callback may do before it destroys the
client: when a callback has destroyed the client, the handlers that invoked it have used a member
afterwards. -/
theorem destroyed_client_used
    (callback : TCPClientImpl Callback Buffer Address → TCPClientImpl Callback Buffer Address)
    (events : List Event) (x : Object Callback Buffer Address) (halive : x.alive = true)
    (hdestroyed : (x.deliverAll callback events).alive = false) :
    (x.deliverAll callback events).usedDead = true := by
  induction events generalizing x with
  | nil => exact absurd (halive.symm.trans hdestroyed) Bool.noConfusion
  | cons event events ih =>
      rw [Object.deliverAll, if_pos halive] at hdestroyed ⊢
      rcases Object.deliver_cases halive event with hnext | ⟨hdead, hused⟩
      · exact ih _ hnext hdestroyed
      · rw [Object.deliverAll_of_dead hdead]
        exact hused

/-- A client with the operation pending, in memory. -/
def pending (c : TCPClientImpl Nat Unit Unit) : Object Nat Unit Unit := ⟨c, true, false⟩

def opened : TCPClientImpl Nat Unit Unit := TCPClientImpl.new.openSocket 3

def connected : TCPClientImpl Nat Unit Unit := TCPClientImpl.new.adoptConnectedSocket 3 ()

def connecting : TCPClientImpl Nat Unit Unit :=
  (opened.connect (some ()) ⟨10⟩ 1 (.error EINPROGRESS) .registered).2

def reading : TCPClientImpl Nat Unit Unit := (connected.read () 8 1 (.error EAGAIN) .registered).2

def readingIfReady : TCPClientImpl Nat Unit Unit :=
  (connected.readIfReady (.user 1) (.error EAGAIN) .registered).2

def writing : TCPClientImpl Nat Unit Unit := (connected.write () 8 1 (.error EAGAIN) .registered).2

/-- Each kind of operation, completed after an event that finds it would block, or by its timer. -/
theorem destroyed_client_used_by_each :
    ((pending connecting).deliverAll id
        [.writable EINPROGRESS (.value 0), .writable 0 (.value 0)]).usedDead = true ∧
      ((pending connecting).deliverAll id [.timeout]).usedDead = true ∧
      ((pending reading).deliverAll id [.readable (.error EAGAIN) .registered]).usedDead = false ∧
      ((pending reading).deliverAll id [.readable (.value 8) .registered]).usedDead = true ∧
      ((pending readingIfReady).deliverAll id [.readable (.value 8) .registered]).usedDead = true ∧
      ((pending writing).deliverAll id
        [.writable 0 (.error EAGAIN), .writable 0 (.value 8)]).usedDead = true :=
  ⟨destroyed_client_used id _ _ rfl rfl, destroyed_client_used id _ _ rfl rfl, rfl,
    destroyed_client_used id _ _ rfl rfl, destroyed_client_used id _ _ rfl rfl,
    destroyed_client_used id _ _ rfl rfl⟩

/-- The callback of a write destroys the client, and `OnWriteDone` then clears a member of it. -/
theorem destroyed_client_used_by_write :
    ((pending writing).deliverAll id [.writable 0 (.value 8)]).alive = false ∧
      ¬((pending writing).deliverAll id [.writable 0 (.value 8)]).usedDead = false := by
  decide

end TCPDestroy

end Iomgr
