import Iomgr.TCPConnect
import Mathlib.Data.List.Count

/-!
The timer and the socket race to end a connect. Whichever comes first, the other stays armed: a
writable event that ends the connect leaves the timer running, and an expiry leaves the socket
watched. A connect completes at most once exactly in the runs in which the other one never comes.
-/

namespace Iomgr

namespace TCPConnect

variable {Callback Buffer Address : Type}

def Event.isWritable : Event → Bool
  | .writable _ _ => true
  | _ => false

/-- The callback is not empty, an expiry does not touch a connect that ended with `kConnected`, and
no writable event reaches the client with `kNone` after an expiry. -/
def Entry.Clean (e : Entry Callback) : Prop :=
  (∀ status, e.invoked ≠ some (none, status)) ∧
  (e.event = .expiry → e.connected = true → e.after = e.before ∧ e.invoked = none) ∧
  (e.event.isWritable = true → e.timedOut = true → e.before ≠ .kNone)

/-- The callback was invoked at most once, and every handler was clean. -/
structure CompletesOnce (s : System Callback Buffer Address) : Prop where
  once : s.log.countP (fun e => e.invoked.isSome) ≤ 1
  clean : ∀ e ∈ s.log, e.Clean

/-! ### The condition, on the sequence of events -/

/-- No writable event before the user disconnects. -/
def NoWritable : List Event → Prop
  | [] => True
  | .disconnect :: _ => True
  | .writable _ _ :: _ => False
  | _ :: events => NoWritable events

/-- The events of a pending connect: nothing more is delivered by the one of timer and socket that
did not end it, and nothing by the timer after the user has disconnected. -/
def RaceFree : List Event → Prop
  | [] => True
  | .timerFires :: events => RaceFree events
  | .expiry :: events => NoWritable events
  | .writable soError _ :: events =>
      if (mapSocketConnectError soError).isTryAgain then RaceFree events
      else .expiry ∉ events
  | .disconnect :: events => .expiry ∉ events

/-- A call that ends at once arms nothing. One whose registration fails has armed the timer, which
must not expire; one that is pending leaves a race. -/
def Disarmed (call : Call Callback Address) (events : List Event) : Prop :=
  call.remote.isSome = true → (SocketOp.connect call.doConnect).isTryAgain = true →
    match call.watch with
    | .failed _ => .expiry ∉ events
    | .registered => RaceFree events

/-! ### The phases of a connect -/

/-- The connect is pending: its callback is stored, and both the socket and the timer may end it. -/
structure Pending (s : System Callback Buffer Address) : Prop where
  state : s.client.connectState = .kConnecting
  callback : s.client.connectCallback.isSome = true
  untold : s.log.countP (fun e => e.invoked.isSome) = 0
  connected : s.connected = false
  timedOut : s.timedOut = false
  timer : s.client.connectTimeoutController = true → s.posted = 0
  posted : s.posted ≤ 1
  clean : ∀ e ∈ s.log, e.Clean

/-- The expiry has ended the connect; the socket is still watched. -/
structure Expired (s : System Callback Buffer Address) : Prop where
  state : s.client.connectState = .kNone
  callback : s.client.connectCallback = none
  timer : s.client.connectTimeoutController = false
  posted : s.posted = 0
  timedOut : s.timedOut = true
  good : CompletesOnce s

/-- No connect is pending and the socket is not watched. -/
structure Over (s : System Callback Buffer Address) : Prop where
  callback : s.client.connectCallback = none
  watch : s.client.connectSocketController = false
  good : CompletesOnce s

theorem completesOnce_cons {s t : System Callback Buffer Address} {e : Entry Callback}
    (hlog : t.log = e :: s.log) : CompletesOnce t ↔
      (s.log.countP (fun e => e.invoked.isSome) + if e.invoked.isSome then 1 else 0) ≤ 1 ∧
        e.Clean ∧ ∀ e ∈ s.log, e.Clean := by
  constructor
  · rintro ⟨honce, hclean⟩
    rw [hlog, List.countP_cons] at honce
    rw [hlog, List.forall_mem_cons] at hclean
    exact ⟨honce, hclean⟩
  · rintro ⟨honce, hclean⟩
    refine ⟨?_, ?_⟩
    · rw [hlog, List.countP_cons]
      exact honce
    · rw [hlog, List.forall_mem_cons]
      exact hclean

theorem CompletesOnce.of_log {s t : System Callback Buffer Address} (h : CompletesOnce s)
    (hlog : t.log = s.log) : CompletesOnce t :=
  ⟨hlog ▸ h.once, hlog ▸ h.clean⟩

theorem Pending.good {s : System Callback Buffer Address} (h : Pending s) : CompletesOnce s :=
  ⟨by rw [h.untold]; exact Nat.zero_le 1, h.clean⟩

/-! ### An expiry and a writable event -/

theorem step_expiry {s t : System Callback Buffer Address} (h : step s .expiry = some t) :
    s.posted ≠ 0 ∧ t.posted = s.posted - 1 ∧ t.timedOut = true ∧
    t.client = { s.client with connectState := .kNone, connectCallback := none } ∧
    t.log = ⟨.expiry, s.connected, s.timedOut, s.client.connectState,
      some (s.client.connectCallback, .timeout (.text "Connect timeout")), .kNone⟩ :: s.log := by
  simp only [step] at h
  split_ifs at h with hposted
  cases h
  exact ⟨hposted, rfl, Bool.or_true _, rfl, rfl⟩

theorem step_writable {s t : System Callback Buffer Address} {soError : Int} {doWrite : SysResult}
    (h : step s (.writable soError doWrite) = some t) :
    s.client.connectSocketController = true ∧
      t = s.deliver (.writable soError doWrite) (s.client.onFileWritable soError doWrite) := by
  simp only [step] at h
  split_ifs at h with hwatch
  cases h
  exact ⟨hwatch, rfl⟩

theorem step_timerFires {s t : System Callback Buffer Address} (h : step s .timerFires = some t) :
    s.client.connectTimeoutController = true ∧
      t = { s with
        client := { s.client with connectTimeoutController := false }
        posted := s.posted + 1 } := by
  simp only [step] at h
  split_ifs at h with htimer
  cases h
  exact ⟨htimer, rfl⟩

/-- An expiry that finds no callback invokes an empty one. -/
theorem not_completesOnce_of_expiry {s t : System Callback Buffer Address}
    (hcallback : s.client.connectCallback = none) (h : step s .expiry = some t) :
    ¬CompletesOnce t := by
  obtain ⟨_, _, _, _, hlog⟩ := step_expiry h
  intro hgood
  obtain ⟨_, hclean, _⟩ := (completesOnce_cons hlog).mp hgood
  apply hclean.1 (.timeout (.text "Connect timeout"))
  rw [hcallback]

/-- When the connect is over, only an expiry can do harm. -/
theorem Over.step {s t : System Callback Buffer Address} {a : Event} (h : Over s)
    (ha : a ≠ .expiry) (hstep : step s a = some t) : Over t := by
  cases a with
  | timerFires =>
      obtain ⟨_, rfl⟩ := step_timerFires hstep
      exact ⟨h.callback, h.watch, h.good.of_log rfl⟩
  | expiry => exact absurd rfl ha
  | writable soError doWrite =>
      obtain ⟨hwatch, _⟩ := step_writable hstep
      rw [h.watch] at hwatch
      cases hwatch
  | disconnect =>
      cases hstep
      exact ⟨rfl, rfl, h.good.of_log rfl⟩

theorem Over.along_iff {s t : System Callback Buffer Address} {events : List Event} (h : Over s)
    (hrun : Transition.run TCPConnect.step s events = some t) :
    Transition.Along TCPConnect.step CompletesOnce s events ↔ .expiry ∉ events := by
  induction events generalizing s with
  | nil => exact iff_of_true h.good List.not_mem_nil
  | cons a events ih =>
      obtain ⟨u, hu, ht⟩ := Transition.run_cons.mp hrun
      rw [Transition.along_cons_of_step hu, and_iff_right h.good, List.mem_cons, not_or]
      by_cases ha : a = .expiry
      · subst ha
        refine iff_of_false (fun halong => ?_) fun hne => hne.1 rfl
        exact not_completesOnce_of_expiry h.callback hu halong.good
      · rw [ih (h.step ha hu) ht, and_iff_right (Ne.symm ha)]

/-- With the timer idle and nothing posted, no expiry can be delivered. -/
theorem expiry_notMem_of_idle {s t : System Callback Buffer Address} {events : List Event}
    (htimer : s.client.connectTimeoutController = false) (hposted : s.posted = 0)
    (hwatch : s.client.connectSocketController = false)
    (hrun : Transition.run step s events = some t) : Event.expiry ∉ events := by
  induction events generalizing s with
  | nil => exact List.not_mem_nil
  | cons a events ih =>
      obtain ⟨u, hu, ht⟩ := Transition.run_cons.mp hrun
      cases a with
      | timerFires => exact absurd (step_timerFires hu).1 (by rw [htimer]; exact Bool.false_ne_true)
      | expiry => exact absurd hposted (step_expiry hu).1
      | writable soError doWrite =>
          exact absurd (step_writable hu).1 (by rw [hwatch]; exact Bool.false_ne_true)
      | disconnect =>
          cases hu
          rw [List.mem_cons, not_or]
          refine ⟨nofun, ?_⟩
          apply ih _ _ _ ht
          · rfl
          · exact hposted
          · rfl

theorem Expired.disconnect {s : System Callback Buffer Address} (h : Expired s) :
    Over { s with client := s.client.disconnect } :=
  ⟨rfl, rfl, h.good.of_log rfl⟩

/-- After an expiry only the socket can do harm. -/
theorem Expired.along_iff {s t : System Callback Buffer Address} {events : List Event}
    (h : Expired s) (hrun : Transition.run TCPConnect.step s events = some t) :
    Transition.Along TCPConnect.step CompletesOnce s events ↔ NoWritable events := by
  cases events with
  | nil => exact iff_of_true h.good trivial
  | cons a events =>
      obtain ⟨u, hu, ht⟩ := Transition.run_cons.mp hrun
      rw [Transition.along_cons_of_step hu, and_iff_right h.good]
      cases a with
      | timerFires =>
          exact absurd (step_timerFires hu).1 (by rw [h.timer]; exact Bool.false_ne_true)
      | expiry => exact absurd h.posted (step_expiry hu).1
      | writable soError doWrite =>
          refine iff_of_false (fun halong => ?_) id
          obtain ⟨_, rfl⟩ := step_writable hu
          obtain ⟨_, hclean, _⟩ := (completesOnce_cons (deliver_log s _ _)).mp halong.good
          exact hclean.2.2 rfl h.timedOut h.state
      | disconnect =>
          cases hu
          refine iff_of_true ((h.disconnect.along_iff ht).mpr ?_) trivial
          apply expiry_notMem_of_idle _ _ _ ht
          · rfl
          · exact h.posted
          · rfl

/-! ### A pending connect -/

theorem Pending.timerFires {s t : System Callback Buffer Address} (h : Pending s)
    (hstep : step s .timerFires = some t) : Pending t := by
  obtain ⟨htimer, rfl⟩ := step_timerFires hstep
  have hposted : s.posted + 1 ≤ 1 := by
    rw [h.timer htimer]
  exact ⟨h.state, h.callback, h.untold, h.connected, h.timedOut, nofun, hposted, h.clean⟩

theorem Pending.expiry {s t : System Callback Buffer Address} (h : Pending s)
    (hstep : step s .expiry = some t) : Expired t := by
  obtain ⟨hne, hposted, htimedOut, hclient, hlog⟩ := step_expiry hstep
  have hone : s.posted = 1 := by
    have := h.posted
    omega
  have htimer : s.client.connectTimeoutController = false := by
    by_contra htrue
    exact hne (h.timer (Bool.not_eq_false _ ▸ htrue))
  refine ⟨by rw [hclient], by rw [hclient], by rw [hclient]; exact htimer, by rw [hposted, hone],
    htimedOut, (completesOnce_cons hlog).mpr ⟨?_, ⟨fun status hnone => ?_, fun _ hconn => ?_,
      fun hwritable => nomatch hwritable⟩, h.clean⟩⟩
  · rw [h.untold]
    exact le_refl 1
  · have hcallback := h.callback
    rw [(Prod.mk.inj (Option.some.inj hnone)).1] at hcallback
    cases hcallback
  · rw [h.connected] at hconn
    cases hconn

theorem Pending.writable_pending {s t : System Callback Buffer Address} (h : Pending s)
    {soError : Int} {doWrite : SysResult}
    (hpending : (mapSocketConnectError soError).isTryAgain = true)
    (hstep : step s (.writable soError doWrite) = some t) : Pending t := by
  obtain ⟨_, rfl⟩ := step_writable hstep
  rw [onFileWritable_pending h.state hpending]
  refine ⟨h.state, h.callback, h.untold, ?_, ?_, h.timer, h.posted, ?_⟩
  · show (s.connected || decide (s.client.connectState = .kConnected)) = false
    rw [h.connected, h.state]
    rfl
  · show (s.timedOut || false) = false
    rw [h.timedOut]
    rfl
  · rw [deliver_log, List.forall_mem_cons]
    refine ⟨⟨nofun, nofun, fun _ htimedOut => ?_⟩, h.clean⟩
    rw [h.timedOut] at htimedOut
    cases htimedOut

theorem Pending.writable_done {s t : System Callback Buffer Address} (h : Pending s)
    {soError : Int} {doWrite : SysResult}
    (hdone : (mapSocketConnectError soError).isTryAgain = false)
    (hstep : step s (.writable soError doWrite) = some t) : Over t := by
  obtain ⟨_, rfl⟩ := step_writable hstep
  rw [onFileWritable_done h.state hdone]
  refine ⟨rfl, rfl, (completesOnce_cons (deliver_log s _ _)).mpr ⟨?_, ⟨fun status hnone => ?_, nofun,
    fun _ htimedOut => ?_⟩, h.clean⟩⟩
  · rw [h.untold]
    exact le_refl 1
  · have hcallback := h.callback
    rw [(Prod.mk.inj (Option.some.inj hnone)).1] at hcallback
    cases hcallback
  · rw [h.timedOut] at htimedOut
    cases htimedOut

theorem Pending.disconnect {s : System Callback Buffer Address} (h : Pending s) :
    Over { s with client := s.client.disconnect } :=
  ⟨rfl, rfl, h.good.of_log rfl⟩

theorem Pending.along_iff {s t : System Callback Buffer Address} {events : List Event}
    (h : Pending s) (hrun : Transition.run TCPConnect.step s events = some t) :
    Transition.Along TCPConnect.step CompletesOnce s events ↔ RaceFree events := by
  induction events generalizing s with
  | nil => exact iff_of_true h.good trivial
  | cons a events ih =>
      obtain ⟨u, hu, ht⟩ := Transition.run_cons.mp hrun
      rw [Transition.along_cons_of_step hu, and_iff_right h.good]
      cases a with
      | timerFires => exact ih (h.timerFires hu) ht
      | expiry => exact (h.expiry hu).along_iff ht
      | writable soError doWrite =>
          cases hpending : (mapSocketConnectError soError).isTryAgain with
          | true =>
              rw [ih (h.writable_pending hpending hu) ht, RaceFree, if_pos hpending]
          | false =>
              rw [(h.writable_done hpending hu).along_iff ht, RaceFree, hpending]
              rfl
      | disconnect =>
          cases hu
          exact h.disconnect.along_iff ht

/-! ### Any call of `Connect` -/

theorem completesOnce_start (socket : Nat) (call : Call Callback Address) :
    CompletesOnce (start socket call : System Callback Buffer Address) :=
  ⟨Nat.zero_le 1, fun _ he => absurd he List.not_mem_nil⟩

/-- A call that is not pending arms neither the timer nor the socket. -/
theorem start_idle (socket : Nat) {call : Call Callback Address}
    (hcall : ¬(call.remote.isSome = true ∧ (SocketOp.connect call.doConnect).isTryAgain = true)) :
    Over (start socket call : System Callback Buffer Address) ∧
      (start socket call : System Callback Buffer Address).client.connectTimeoutController = false := by
  have hgood : CompletesOnce (start socket call : System Callback Buffer Address) :=
    completesOnce_start socket call
  rcases call with ⟨remote, connectTimeout, connectCallback, doConnect, watch⟩
  cases remote with
  | none => exact ⟨⟨rfl, rfl, hgood⟩, rfl⟩
  | some address =>
      have hdone : (SocketOp.connect doConnect).isTryAgain = false :=
        Bool.eq_false_iff.mpr fun h => hcall ⟨rfl, h⟩
      have hclient : (start socket ⟨some address, connectTimeout, connectCallback, doConnect, watch⟩ :
          System Callback Buffer Address).client =
          { (TCPClientImpl.new.openSocket socket : TCPClientImpl Callback Buffer Address) with
            connectState := if (SocketOp.connect doConnect).isOk then .kConnected else .kNone
            remoteAddress := some address } := by
        simp only [start, TCPClientImpl.connect, hdone]
        rfl
      refine ⟨⟨?_, ?_, hgood⟩, ?_⟩
      all_goals
        rw [hclient]
        rfl

/-- A registration that fails leaves no callback and no watch. -/
theorem start_failed (socket : Nat) {call : Call Callback Address} {e : Int}
    (hremote : call.remote.isSome = true)
    (htry : (SocketOp.connect call.doConnect).isTryAgain = true) (hwatch : call.watch = .failed e) :
    Over (start socket call : System Callback Buffer Address) := by
  have hgood : CompletesOnce (start socket call : System Callback Buffer Address) :=
    completesOnce_start socket call
  obtain ⟨address, haddress⟩ := Option.isSome_iff_exists.mp hremote
  refine ⟨?_, ?_, hgood⟩
  all_goals
    simp only [start, TCPClientImpl.connect, haddress, htry, hwatch]
    cases call.connectTimeout.isInfinite <;> rfl

theorem start_pending (socket : Nat) {call : Call Callback Address}
    (hremote : call.remote.isSome = true)
    (htry : (SocketOp.connect call.doConnect).isTryAgain = true)
    (hwatch : call.watch = .registered) :
    Pending (start socket call : System Callback Buffer Address) := by
  have hgood : CompletesOnce (start socket call : System Callback Buffer Address) :=
    completesOnce_start socket call
  obtain ⟨address, haddress⟩ := Option.isSome_iff_exists.mp hremote
  refine ⟨?_, ?_, rfl, ?_, rfl, fun _ => rfl, Nat.zero_le 1, hgood.clean⟩
  all_goals
    simp only [start, TCPClientImpl.connect, haddress, htry, hwatch]
    cases call.connectTimeout.isInfinite <;> rfl

/-- In every run of one connect the callback is invoked at most once and never empty, no expiry
disturbs a connect that has ended well and no writable event comes after a timeout, if and only if
the event that did not end the connect is never delivered. -/
theorem connect_completes_once_iff (socket : Nat) (call : Call Callback Address)
    (events : List Event) (t : System Callback Buffer Address)
    (hrun : Transition.run step (start socket call) events = some t) :
    Transition.Along step CompletesOnce (start socket call : System Callback Buffer Address) events ↔
      Disarmed call events := by
  by_cases hcall : call.remote.isSome = true ∧ (SocketOp.connect call.doConnect).isTryAgain = true
  · obtain ⟨hremote, htry⟩ := hcall
    simp only [Disarmed, hremote, htry, forall_const]
    cases hwatch : call.watch with
    | failed e => exact (start_failed socket hremote htry hwatch).along_iff hrun
    | registered => exact (start_pending socket hremote htry hwatch).along_iff hrun
  · have hidle : Over (start socket call : System Callback Buffer Address) ∧ _ :=
      start_idle socket hcall
    obtain ⟨hover, htimer⟩ := hidle
    refine iff_of_true ((hover.along_iff hrun).mpr ?_) fun hremote htry => absurd ⟨hremote, htry⟩ hcall
    exact expiry_notMem_of_idle htimer rfl hover.watch hrun

/-- The timer is still pending when the user disconnects. -/
theorem connect_completes_once_disconnected :
    Transition.Along step CompletesOnce
      (start 5 ⟨some (), ⟨1000⟩, (), .error EINPROGRESS, .registered⟩ : System Unit Unit Unit)
      [.writable EINPROGRESS (.value 0), .writable 0 (.value 0), .disconnect] := by
  obtain ⟨t, ht⟩ : ∃ t, Transition.run step
      (start 5 ⟨some (), ⟨1000⟩, (), .error EINPROGRESS, .registered⟩ : System Unit Unit Unit)
      [.writable EINPROGRESS (.value 0), .writable 0 (.value 0), .disconnect] = some t := ⟨_, rfl⟩
  refine (connect_completes_once_iff 5 _ _ t ht).mpr fun _ _ => ?_
  show Event.expiry ∉ [Event.disconnect]
  decide

/-- The connect ends well, and the timer expires after it. -/
theorem connect_disturbed_by_expiry :
    ∃ s : System Unit Unit Unit,
      Transition.run step (start 5 ⟨some (), ⟨1000⟩, (), .error EINPROGRESS, .registered⟩)
        [.writable 0 (.value 0), .timerFires, .expiry] = some s ∧
      s.log.map (fun e => (e.before, e.invoked.isSome, e.after)) =
        [(.kConnected, true, .kNone), (.kConnecting, true, .kConnected)] ∧
      ¬CompletesOnce s := by
  refine ⟨_, rfl, rfl, fun h => ?_⟩
  exact absurd h.once (by decide)

end TCPConnect

end Iomgr
