import Iomgr.IOPoll
import Iomgr.TimerWindow

/-!
The poll thread and the timers. `Run` asks `TimerCheck` for the time to the next deadline and waits
that long in `epoll_wait`; other threads start and cancel timers meanwhile, and `Wakeup` ends the
wait when a deadline becomes earlier than what the thread knows of. The wakeup is an eventfd in the
edge-triggered set of the poller: a write queues an event, which `epoll_wait` reports if the counter
is still not zero. A task of the runner, posted with the report, reads the counter back to zero, and
it may run after the next `TimerCheck`.
-/

namespace Iomgr.PollThread

open Time (Delta)

/-- Where the thread is in `Run`: before the call of `TimerCheck`, in it, between it and
`epoll_wait`, and in `epoll_wait`; with the clock reading of `TimerCheck` and what it returned. -/
inductive Pc
  | check
  | checking (now : Time)
  | polling (now : Time) (timeout : Delta)
  | waiting (now : Time) (timeout : Delta)
  deriving DecidableEq

/-- The thread has yet to ask how long it is to wait. -/
def Pc.beforeTimeout : Pc → Bool
  | .check => true
  | .checking _ => true
  | _ => false

/-- The timers, the thread and the wakeup descriptor: whether it is in the set of the poller, its
counter, whether an event of it is queued there, and the `OnFileReadable` tasks that have not
returned. -/
structure System where
  timers : TimerManager.System
  thread : Pc
  registered : Bool
  counter : Nat
  edge : Bool
  drains : Nat

/-- The constructor of `IOManager` registers the descriptor inside a `DCHECK`, whose argument is
evaluated only where `DCHECK`s are compiled in. -/
def System.new (dcheck : Bool) : System := ⟨TimerManager.System.new, .check, dcheck, 0, false, 0⟩

/-- The largest counter of an eventfd. -/
def maxCounter : Nat := 2 ^ 64 - 2

/-- `IOManager::Wakeup`. A write that would take the counter past its limit fails. -/
def System.wakeup (s : System) : System :=
  if s.counter + 2 ≤ maxCounter then
    { s with counter := s.counter + 2, edge := s.edge || s.registered }
  else s

/-- An event that `epoll_wait` would report. -/
def System.readable (s : System) : Bool := s.edge && decide (0 < s.counter)

/-- `epoll_wait` takes the event off its queue and reports it if the descriptor is still readable. -/
def System.harvest (s : System) (unreported : Pc) : System :=
  if s.readable then { s with edge := false, drains := s.drains + 1, thread := .check }
  else { s with edge := false, thread := unreported }

/-- The second section of this `TimerInit` reaches `OnDeadlineChanged`. -/
def lowers (m : TimerManager) (init : PendingInit) : Bool :=
  init.isFirstTimer && decide (init.deadline < (m.shards init.shard).minDeadline)

inductive Action
  | timerInit (t : TimerPtr) (now : Time) (timeout : Delta) (closure : Closure)
  | timerInitPublish (k : Nat)
  | timerCancel (t : TimerPtr)
  | checkLock (now : Time)
  | checkPop
  | checkStore
  | checkUnlock
  | epollWait
  | epollWake
  | epollReturn
  | drainRead
  deriving DecidableEq

/-- What `TimerCheck` returns when it leaves its loop. -/
def checkTimeout (m : TimerManager) (now : Time) : Option Delta :=
  m.shardQueue[0]?.map fun i =>
    let minDeadline := (m.shards i).minDeadline
    if !minDeadline.isInfinite then minDeadline.sub now else Delta.infinite

/-- A section of a call of another thread, or a step of the poll thread, the kernel or a task that
drains the descriptor. `CLOCK_MONOTONIC` reads neither below zero nor "infinite". `epollReturn` is a
return of `epoll_wait` for anything but the wakeup: the time is up, another descriptor is ready, or
the thread was not blocked at all. -/
def step (s : System) : Action → Option System
  | .timerInit t now timeout closure =>
      (TimerManager.startStep s.timers (.timerInit t now timeout closure)).map fun timers =>
        { s with timers := timers }
  | .timerInitPublish k =>
      (TimerManager.step s.timers (.timerInitPublish k)).map fun timers =>
        if s.timers.inits[k]?.any (lowers s.timers.manager) then
          { s with timers := timers }.wakeup
        else { s with timers := timers }
  | .timerCancel t =>
      (TimerManager.step s.timers (.timerCancel t)).map fun timers => { s with timers := timers }
  | .checkLock now =>
      if s.thread = .check ∧ Time.zero ≤ now ∧ now < Time.infinite then
        (TimerManager.step s.timers (.timerCheckLock now)).map fun timers =>
          { s with timers := timers, thread := .checking now }
      else none
  | .checkPop =>
      (TimerManager.step s.timers .timerCheckPop).map fun timers => { s with timers := timers }
  | .checkStore =>
      (TimerManager.step s.timers .timerCheckStore).map fun timers =>
        { s with timers := timers }.wakeup
  | .checkUnlock =>
      match s.thread with
      | .checking now =>
          (TimerManager.step s.timers .timerCheckUnlock).bind fun timers =>
            (checkTimeout s.timers.manager now).map fun timeout =>
              { s with timers := timers, thread := .polling now timeout }
      | _ => none
  | .epollWait =>
      match s.thread with
      | .polling now timeout => some (s.harvest (.waiting now timeout))
      | _ => none
  | .epollWake =>
      match s.thread with
      | .waiting now timeout => if s.edge then some (s.harvest (.waiting now timeout)) else none
      | _ => none
  | .epollReturn =>
      match s.thread with
      | .polling _ _ => some (s.harvest .check)
      | .waiting _ _ => some (s.harvest .check)
      | _ => none
  | .drainRead =>
      if s.drains = 0 then none
      else if s.counter = 0 then some { s with drains := s.drains - 1 }
      else some { s with counter := 0 }

/-- Where the thread blocks with nothing to wake it up, its wait ends within a millisecond of the
deadline of every pending timer, counted from the clock reading it was computed from. The timers
apart that a `TimerInit` is about to announce with a wakeup. -/
def Attentive (s : System) : Prop :=
  ∀ now timeout, s.thread = .waiting now timeout → s.readable = false →
    ∀ x, (s.timers.manager.timers x).pending = true →
      (s.timers.manager.timers x).deadline < Time.infinite →
      (0 ≤ IOPoll.firstWait timeout ∧ now.toInt + 1000 * IOPoll.firstWait timeout <
        (s.timers.manager.timers x).deadline.toInt + 1000) ∨
      ∃ init ∈ s.timers.inits, lowers s.timers.manager init = true ∧
        init.deadline ≤ (s.timers.manager.timers x).deadline

/-- The timeout that the thread polls with fits the `int` of `epoll_wait`. -/
def Pc.FitsInt : Pc → Prop
  | .polling _ timeout => IOPoll.FitsInt timeout
  | _ => True

instance (pc : Pc) : Decidable pc.FitsInt := by
  cases pc <;> unfold Pc.FitsInt <;> infer_instance

/-- No write to the descriptor fails, no task drains an event that is queued while the thread is past
its `TimerCheck`, no pending timer is started, and every timeout fits the `int` of `epoll_wait`. -/
def Delivers (s : System) : Action → Prop
  | .timerInit x _ _ _ => (s.timers.manager.timers x).pending = false
  | .timerInitPublish _ => s.counter + 2 ≤ maxCounter
  | .checkStore => s.counter + 2 ≤ maxCounter
  | .epollWait => s.thread.FitsInt
  | .drainRead => s.thread.beforeTimeout = true ∨ s.readable = false
  | _ => True

instance (s : System) (a : Action) : Decidable (Delivers s a) := by
  cases a <;> unfold Delivers <;> infer_instance

/-! ### What each step keeps -/

/-- The phase of the running `TimerCheck` is that of the thread. -/
def PhaseAgrees : Pc → TimerManager.CheckPhase → Prop
  | .checking now, phase => phase = .loop now ∨ ∃ newMin, phase = .popped now newMin
  | _, phase => phase = .idle

/-- The timeout reaches to `bound`, which is at or before every `min_deadline` as long as no wakeup
is on its way. -/
structure Bounded (s : System) (now : Time) (timeout : Delta) (bound : Time) : Prop where
  clock : Time.zero ≤ now
  later : now < bound
  timeout : timeout = if !bound.isInfinite then bound.sub now else Delta.infinite
  least : s.readable = false → ∀ i, bound ≤ (s.timers.manager.shards i).minDeadline

structure Inv (s : System) : Prop where
  timers : TimerManager.Windowless s.timers
  registered : s.registered = true
  phase : PhaseAgrees s.thread s.timers.check
  clock : ∀ now, s.thread = .checking now → Time.zero ≤ now
  wait : ∀ now timeout, s.thread = .polling now timeout ∨ s.thread = .waiting now timeout →
    ∃ bound, Bounded s now timeout bound
  fits : ∀ now timeout, s.thread = .waiting now timeout → IOPoll.FitsInt timeout

theorem new_inv : Inv (System.new true) where
  timers := TimerManager.new_windowless
  registered := rfl
  phase := rfl
  clock := by simp [System.new]
  wait := by simp [System.new]
  fits := by simp [System.new]

@[simp] theorem wakeup_thread (s : System) : s.wakeup.thread = s.thread := by
  unfold System.wakeup
  split_ifs <;> rfl

@[simp] theorem wakeup_timers (s : System) : s.wakeup.timers = s.timers := by
  unfold System.wakeup
  split_ifs <;> rfl

@[simp] theorem wakeup_registered (s : System) : s.wakeup.registered = s.registered := by
  unfold System.wakeup
  split_ifs <;> rfl

/-- A write that succeeds queues an event that will be reported. -/
theorem wakeup_readable {s : System} (hreg : s.registered = true)
    (hroom : s.counter + 2 ≤ maxCounter) : s.wakeup.readable = true := by
  simp [System.wakeup, hroom, System.readable, hreg]

theorem harvest_timers (s : System) (pc : Pc) : (s.harvest pc).timers = s.timers := by
  unfold System.harvest
  split_ifs <;> rfl

theorem harvest_registered (s : System) (pc : Pc) : (s.harvest pc).registered = s.registered := by
  unfold System.harvest
  split_ifs <;> rfl

/-- Either the event is reported, or there was none and there is none. -/
theorem harvest_cases (s : System) (pc : Pc) :
    (s.harvest pc).thread = .check ∨
      s.readable = false ∧ (s.harvest pc).thread = pc ∧ (s.harvest pc).readable = false := by
  unfold System.harvest
  split_ifs with h
  · exact Or.inl rfl
  · exact Or.inr ⟨Bool.not_eq_true _ ▸ h, rfl, rfl⟩

/-- Starting and cancelling timers leave every `min_deadline` and the running `TimerCheck` alone. -/
theorem start_keeps {t t' : TimerManager.System} (h : TimerManager.Windowless t)
    {a : TimerManager.Action}
    (ha : (∃ x now timeout closure, a = .timerInit x now timeout closure) ∨
      ∃ x, a = .timerCancel x)
    (hstep : TimerManager.step t a = some t') :
    t'.check = t.check ∧
      ∀ i, (t'.manager.shards i).minDeadline = (t.manager.shards i).minDeadline := by
  have hv := h.inv.tracked.valid
  obtain ⟨x, now, timeout, closure, rfl⟩ | ⟨x, rfl⟩ := ha
  · simp only [TimerManager.step] at hstep
    split_ifs at hstep with hpending
    obtain ⟨⟨m, init⟩, hrun, heq⟩ := Option.bind_eq_some_iff.mp hstep
    cases heq
    have hins := TimerManager.timerInitInsert_spec hv (Bool.not_eq_true _ ▸ hpending) hrun
    exact ⟨rfl, hins.step.minDeadline⟩
  · obtain ⟨m, hrun, hc⟩ := TimerManager.timerCancel_spec hv x
    simp only [TimerManager.step, hrun, Option.bind_eq_bind, Option.bind_some,
      Option.some.injEq] at hstep
    subst hstep
    exact ⟨rfl, hc.step.minDeadline⟩

/-- The second section of a `TimerInit` that does not lower its shard's `min_deadline` leaves the
manager as it is. -/
theorem publish_keeps {t t' : TimerManager.System} {k : Nat}
    (hstep : TimerManager.step t (.timerInitPublish k) = some t') :
    t.check = .idle ∧ t'.check = .idle ∧
      (t.inits[k]?.any (lowers t.manager) = false → t'.manager = t.manager) := by
  simp only [TimerManager.step] at hstep
  split at hstep
  · next hidle =>
      obtain ⟨init, hk, hrest⟩ := Option.bind_eq_some_iff.mp hstep
      obtain ⟨m, hrun, heq⟩ := Option.bind_eq_some_iff.mp hrest
      cases heq
      refine ⟨hidle, hidle, fun hnot => ?_⟩
      rw [hk, Option.any_some, lowers] at hnot
      rw [TimerManager.timerInitPublish, hnot] at hrun
      exact (Option.some.inj hrun).symm
  · cases hstep

/-- No `TimerCheck` runs while the thread is past it. -/
theorem Inv.idle {s : System} (h : Inv s) (hpast : s.thread.beforeTimeout = false) :
    s.timers.check = .idle := by
  have hphase := h.phase
  cases hpc : s.thread with
  | check => simp [hpc, Pc.beforeTimeout] at hpast
  | checking now => simp [hpc, Pc.beforeTimeout] at hpast
  | polling now timeout =>
      rw [hpc] at hphase
      exact hphase
  | waiting now timeout =>
      rw [hpc] at hphase
      exact hphase

/-- A step that leaves the thread where it is keeps a bound that it keeps below the
`min_deadline`s. -/
theorem Inv.same_thread {s s' : System} (h : Inv s) (htimers : TimerManager.Windowless s'.timers)
    (hregistered : s'.registered = s.registered) (hthread : s'.thread = s.thread)
    (hphase : PhaseAgrees s.thread s'.timers.check)
    (hleast : s.thread.beforeTimeout = false → ∀ bound,
      (s.readable = false → ∀ i, bound ≤ (s.timers.manager.shards i).minDeadline) →
      s'.readable = false → ∀ i, bound ≤ (s'.timers.manager.shards i).minDeadline) : Inv s' where
  timers := htimers
  registered := hregistered.trans h.registered
  phase := hthread ▸ hphase
  clock now hnow := h.clock now (hthread ▸ hnow)
  wait now timeout hpc := by
    rw [hthread] at hpc
    obtain ⟨bound, hb⟩ := h.wait now timeout hpc
    have hpast : s.thread.beforeTimeout = false := by
      rcases hpc with hpc | hpc <;> rw [hpc] <;> rfl
    exact ⟨bound, hb.clock, hb.later, hb.timeout, hleast hpast bound hb.least⟩
  fits now timeout hpc := h.fits now timeout (hthread ▸ hpc)

/-- A step of `epoll_wait`: the thread goes back to `TimerCheck`, or there was nothing to report and
it is where it was to be. -/
theorem Inv.harvest {s : System} (h : Inv s) {pc : Pc}
    (hidle : s.timers.check = .idle)
    (hpc : pc = .check ∨ ∃ now timeout, pc = .waiting now timeout ∧ IOPoll.FitsInt timeout ∧
      (s.thread = .polling now timeout ∨ s.thread = .waiting now timeout)) :
    Inv (s.harvest pc) := by
  have htimers := harvest_timers s pc
  have hcheck : (s.harvest pc).thread = .check → Inv (s.harvest pc) := fun hthread =>
    { timers := htimers ▸ h.timers
      registered := (harvest_registered s pc).trans h.registered
      phase := by rw [hthread, htimers]; exact hidle
      clock := by simp [hthread]
      wait := by simp [hthread]
      fits := by simp [hthread] }
  rcases harvest_cases s pc with hthread | ⟨hnone, hthread, hnone'⟩
  · exact hcheck hthread
  · rcases hpc with rfl | ⟨now, timeout, rfl, hfits, hwas⟩
    · exact hcheck hthread
    · obtain ⟨bound, hb⟩ := h.wait now timeout hwas
      refine ⟨htimers ▸ h.timers, (harvest_registered s _).trans h.registered, ?_, ?_, ?_, ?_⟩
      · rw [hthread, htimers]
        exact hidle
      · simp [hthread]
      · intro now' timeout' heq
        rw [hthread] at heq
        obtain ⟨rfl, rfl⟩ : now = now' ∧ timeout = timeout' := by simpa using heq
        refine ⟨bound, hb.clock, hb.later, hb.timeout, fun _ => ?_⟩
        rw [htimers]
        exact hb.least hnone
      · intro now' timeout' heq
        rw [hthread] at heq
        obtain ⟨rfl, rfl⟩ : now = now' ∧ timeout = timeout' := by simpa using heq
        exact hfits

/-- A round of `TimerCheck`'s loop is the thread's, which stays in the call. -/
theorem Inv.inCheck {s : System} (h : Inv s) {a : TimerManager.Action}
    (ha : a = .timerCheckPop ∨ a = .timerCheckStore) {t : TimerManager.System}
    (hstep : TimerManager.step s.timers a = some t) :
    s.thread.beforeTimeout = true ∧ PhaseAgrees s.thread t.check := by
  have hphase := h.phase
  rcases ha with rfl | rfl
  · simp only [TimerManager.step] at hstep
    split at hstep
    · next now hcheck =>
        obtain ⟨i, -, hrest⟩ := Option.bind_eq_some_iff.mp hstep
        split_ifs at hrest
        obtain ⟨⟨n, newMin, m⟩, -, heq⟩ := Option.bind_eq_some_iff.mp hrest
        cases heq
        rw [hcheck] at hphase
        cases hpc : s.thread with
        | checking now' =>
            rw [hpc] at hphase
            obtain rfl : now = now' := by simpa [PhaseAgrees] using hphase
            exact ⟨rfl, Or.inr ⟨newMin, rfl⟩⟩
        | _ => simp [hpc, PhaseAgrees] at hphase
    · cases hstep
  · simp only [TimerManager.step] at hstep
    split at hstep
    · next now newMin hcheck =>
        obtain ⟨i, -, hrest⟩ := Option.bind_eq_some_iff.mp hstep
        obtain ⟨m, -, heq⟩ := Option.bind_eq_some_iff.mp hrest
        cases heq
        rw [hcheck] at hphase
        cases hpc : s.thread with
        | checking now' =>
            rw [hpc] at hphase
            obtain rfl : now = now' := by simpa [PhaseAgrees] using hphase
            exact ⟨rfl, Or.inl rfl⟩
        | _ => simp [hpc, PhaseAgrees] at hphase
    · cases hstep

/-- `TimerCheck` returns the time to a bound of every `min_deadline`. -/
theorem checkUnlock_bounded {t t' : TimerManager.System} (h : TimerManager.Windowless t)
    {now : Time} (hphase : PhaseAgrees (.checking now) t.check)
    (hstep : TimerManager.step t .timerCheckUnlock = some t') {timeout : Delta}
    (htimeout : checkTimeout t.manager now = some timeout) :
    t'.manager = t.manager ∧ t'.check = .idle ∧ ∃ bound, now < bound ∧
      (timeout = if !bound.isInfinite then bound.sub now else Delta.infinite) ∧
      ∀ i, bound ≤ (t.manager.shards i).minDeadline := by
  obtain ⟨i, hi, hleast⟩ := h.inv.tracked.queue.head_le
  simp only [checkTimeout, hi, Option.map_some, Option.some.injEq] at htimeout
  simp only [TimerManager.step] at hstep
  split at hstep
  · next now' hcheck =>
      rw [hcheck] at hphase
      have hnow : now' = now := by
        rcases hphase with heq | ⟨newMin, heq⟩
        · exact (TimerManager.CheckPhase.loop.inj heq)
        · cases heq
      subst hnow
      simp only [hi, Option.bind_eq_bind, Option.bind_some] at hstep
      split_ifs at hstep with hdue
      cases hstep
      exact ⟨rfl, rfl, _, not_le.mp hdue, htimeout.symm, hleast⟩
  · cases hstep

/-! ### One lemma for each step -/

variable {s s' : System}

/-- A section of the timer manager keeps what is known of it. -/
theorem Inv.windowless {t : TimerManager.System} (h : Inv s) (b : TimerManager.Action)
    (hin : TimerManager.InWindow s.timers b) (hb : TimerManager.startStep s.timers b = some t) :
    TimerManager.Windowless t :=
  TimerManager.step_windowless s.timers b t h.timers hin hb

theorem Inv.timerInit {x : TimerPtr} {now : Time} {timeout : Delta} {closure : Closure} (h : Inv s)
    (hidle : (s.timers.manager.timers x).pending = false)
    (hstep : step s (.timerInit x now timeout closure) = some s') : Inv s' := by
  obtain ⟨t, ht, rfl⟩ := Option.map_eq_some_iff.mp hstep
  have hstarts : TimerManager.StartsIdle s.timers (.timerInit x now timeout closure) := hidle
  have hwindow := h.windowless (.timerInit x now timeout closure) hidle ht
  rw [TimerManager.startStep_of_startsIdle hstarts] at ht
  obtain ⟨hcheck, hmin⟩ := start_keeps h.timers (Or.inl ⟨x, now, timeout, closure, rfl⟩) ht
  refine h.same_thread hwindow rfl rfl (hcheck ▸ h.phase) fun _ bound hb hr i => ?_
  rw [hmin]
  exact hb hr i

theorem Inv.timerCancel {x : TimerPtr} (h : Inv s) (hstep : step s (.timerCancel x) = some s') :
    Inv s' := by
  obtain ⟨t, ht, rfl⟩ := Option.map_eq_some_iff.mp hstep
  obtain ⟨hcheck, hmin⟩ := start_keeps h.timers (Or.inr ⟨x, rfl⟩) ht
  refine h.same_thread (h.windowless (.timerCancel x) trivial ht) rfl rfl (hcheck ▸ h.phase)
    fun _ bound hb hr i => ?_
  rw [hmin]
  exact hb hr i

/-- The second section of a `TimerInit` wakes the thread when it lowers a `min_deadline`. -/
theorem Inv.timerInitPublish {k : Nat} (h : Inv s) (hroom : s.counter + 2 ≤ maxCounter)
    (hstep : step s (.timerInitPublish k) = some s') : Inv s' := by
  obtain ⟨t, ht, rfl⟩ := Option.map_eq_some_iff.mp hstep
  have hwindow := h.windowless (.timerInitPublish k) trivial ht
  obtain ⟨hidle, hidle', hsame⟩ := publish_keeps ht
  have hphase : PhaseAgrees s.thread t.check := by
    rw [hidle', ← hidle]
    exact h.phase
  split_ifs with hlowers
  · refine h.same_thread (by simpa using hwindow) (by simp) (by simp)
      (by simpa using hphase) fun _ _ _ hr => ?_
    rw [wakeup_readable (by exact h.registered) (by exact hroom)] at hr
    cases hr
  · refine h.same_thread hwindow rfl rfl hphase fun _ bound hb hr i => ?_
    rw [hsame (Bool.not_eq_true _ ▸ hlowers)]
    exact hb hr i

theorem Inv.checkLock {now : Time} (h : Inv s) (hstep : step s (.checkLock now) = some s') :
    Inv s' := by
  simp only [step] at hstep
  split_ifs at hstep with hcond
  obtain ⟨t, ht, rfl⟩ := Option.map_eq_some_iff.mp hstep
  refine ⟨h.windowless (.timerCheckLock now) hcond.2.2 ht, h.registered, ?_, ?_, by simp, by simp⟩
  · simp only [TimerManager.step] at ht
    split at ht
    · cases ht
      exact Or.inl rfl
    · cases ht
  · intro now' heq
    cases heq
    exact hcond.2.1

theorem Inv.checkPop (h : Inv s) (hstep : step s .checkPop = some s') : Inv s' := by
  obtain ⟨t, ht, rfl⟩ := Option.map_eq_some_iff.mp hstep
  obtain ⟨hpast, hphase⟩ := h.inCheck (Or.inl rfl) ht
  exact h.same_thread (h.windowless .timerCheckPop trivial ht) rfl rfl hphase (by simp [hpast])

theorem Inv.checkStore (h : Inv s) (hstep : step s .checkStore = some s') : Inv s' := by
  obtain ⟨t, ht, rfl⟩ := Option.map_eq_some_iff.mp hstep
  have hwindow := h.windowless .timerCheckStore trivial ht
  obtain ⟨hpast, hphase⟩ := h.inCheck (Or.inr rfl) ht
  exact h.same_thread (by simpa using hwindow) (by simp) (by simp) (by simpa using hphase)
    (by simp [hpast])

/-- The thread leaves `TimerCheck` with the time to a bound of every deadline. -/
theorem Inv.checkUnlock (h : Inv s) (hstep : step s .checkUnlock = some s') : Inv s' := by
  simp only [step] at hstep
  split at hstep
  · next now hpc =>
      obtain ⟨t, ht, hrest⟩ := Option.bind_eq_some_iff.mp hstep
      obtain ⟨timeout, htimeout, rfl⟩ := Option.map_eq_some_iff.mp hrest
      obtain ⟨hsame, hidle, bound, hlater, heq, hleast⟩ :=
        checkUnlock_bounded h.timers (hpc ▸ h.phase) ht htimeout
      refine ⟨h.windowless .timerCheckUnlock trivial ht, h.registered, hidle, by simp,
        fun now' timeout' hwait => ?_, by simp⟩
      obtain ⟨rfl, rfl⟩ : now = now' ∧ timeout = timeout' := by simpa using hwait
      refine ⟨bound, h.clock now hpc, hlater, heq, fun _ => ?_⟩
      rw [hsame]
      exact hleast
  · cases hstep

theorem Inv.epollWait (h : Inv s) (hfits : s.thread.FitsInt) (hstep : step s .epollWait = some s') :
    Inv s' := by
  simp only [step] at hstep
  split at hstep
  · next now timeout hpc =>
      cases hstep
      rw [hpc] at hfits
      exact h.harvest (h.idle (by rw [hpc]; rfl)) (Or.inr ⟨now, timeout, rfl, hfits, Or.inl hpc⟩)
  · cases hstep

theorem Inv.epollWake (h : Inv s) (hstep : step s .epollWake = some s') : Inv s' := by
  simp only [step] at hstep
  split at hstep
  · next now timeout hpc =>
      split_ifs at hstep
      cases hstep
      exact h.harvest (h.idle (by rw [hpc]; rfl))
        (Or.inr ⟨now, timeout, rfl, h.fits now timeout hpc, Or.inr hpc⟩)
  · cases hstep

theorem Inv.epollReturn (h : Inv s) (hstep : step s .epollReturn = some s') : Inv s' := by
  simp only [step] at hstep
  split at hstep
  · next now timeout hpc =>
      cases hstep
      exact h.harvest (h.idle (by rw [hpc]; rfl)) (Or.inl rfl)
  · next now timeout hpc =>
      cases hstep
      exact h.harvest (h.idle (by rw [hpc]; rfl)) (Or.inl rfl)
  · cases hstep

theorem Inv.drainRead (h : Inv s) (hearly : s.thread.beforeTimeout = true ∨ s.readable = false)
    (hstep : step s .drainRead = some s') : Inv s' := by
  simp only [step] at hstep
  split_ifs at hstep with hdrains hcounter
  · cases hstep
    exact h.same_thread h.timers rfl rfl h.phase fun _ _ hb => hb
  · cases hstep
    refine h.same_thread h.timers rfl rfl h.phase fun hpast _ hb _ => hb ?_
    exact hearly.resolve_left (by rw [hpast]; exact Bool.false_ne_true)

theorem step_inv (s : System) (a : Action) (s' : System) (h : Inv s) (hdeliver : Delivers s a)
    (hstep : step s a = some s') : Inv s' := by
  cases a with
  | timerInit x now timeout closure => exact h.timerInit hdeliver hstep
  | timerInitPublish k => exact h.timerInitPublish hdeliver hstep
  | timerCancel x => exact h.timerCancel hstep
  | checkLock now => exact h.checkLock hstep
  | checkPop => exact h.checkPop hstep
  | checkStore => exact h.checkStore hstep
  | checkUnlock => exact h.checkUnlock hstep
  | epollWait => exact h.epollWait hdeliver hstep
  | epollWake => exact h.epollWake hstep
  | epollReturn => exact h.epollReturn hstep
  | drainRead => exact h.drainRead hdeliver hstep

/-! ### Every run -/

/-- The wait for the time to `bound` ends within a millisecond of it. -/
theorem firstWait_bounded {now bound : Time} {timeout : Delta} (hclock : Time.zero ≤ now)
    (hlater : now < bound)
    (htimeout : timeout = if !bound.isInfinite then bound.sub now else Delta.infinite)
    (hfits : IOPoll.FitsInt timeout) (hfinite : bound < Time.infinite) :
    0 ≤ IOPoll.firstWait timeout ∧
      now.toInt + 1000 * IOPoll.firstWait timeout < bound.toInt + 1000 := by
  have hnot : bound.isInfinite = false := by
    rw [← Bool.not_eq_true, Time.isInfinite_iff]
    exact hfinite.ne
  rw [hnot, Bool.not_false, if_pos rfl] at htimeout
  have hsub := Time.toInt_sub_of_nonneg hclock hlater.le
  rw [← htimeout] at hsub
  rw [Time.lt_iff] at hlater hfinite
  rw [Time.le_iff, Time.toInt_zero] at hclock
  have hpos : Delta.zero < timeout := by
    rw [Delta.lt_iff, Delta.toInt_zero]
    omega
  have hne : timeout ≠ Delta.infinite := by
    rintro rfl
    rw [Delta.toInt_infinite] at hsub
    rw [Time.toInt_infinite] at hfinite
    omega
  obtain ⟨hone, hwait⟩ := ((IOPoll.wakes_in_time_iff timeout).mpr hfits).2 hne hpos
  rw [le_max_iff] at hwait
  omega

theorem Inv.attentive {s : System} (h : Inv s) : Attentive s := by
  intro now timeout hpc hquiet x hx hfinite
  have hfits := h.fits now timeout hpc
  obtain ⟨bound, hb⟩ := h.wait now timeout (Or.inr hpc)
  have hinv := h.timers.inv
  have hheap := h.timers.unrefilled.mem_heap hinv.tracked.valid hx hfinite
  have hle := hb.least hquiet (shardOf x)
  have hreach : bound ≤ (s.timers.manager.timers x).deadline →
      0 ≤ IOPoll.firstWait timeout ∧ now.toInt + 1000 * IOPoll.firstWait timeout <
        (s.timers.manager.timers x).deadline.toInt + 1000 := by
    intro hbound
    obtain ⟨hnonneg, hwait⟩ :=
      firstWait_bounded hb.clock hb.later hb.timeout hfits (hbound.trans_lt hfinite)
    rw [Time.le_iff] at hbound
    exact ⟨hnonneg, by omega⟩
  rcases hinv.tracked.covered _ x hheap with hcovered | ⟨init, hin, hshard, hfirst, hdeadline⟩
  · exact Or.inl (hreach (hle.trans hcovered))
  · by_cases hlowers : init.deadline < (s.timers.manager.shards init.shard).minDeadline
    · exact Or.inr ⟨init, hin, by simp [lowers, hfirst, hlowers], hdeadline⟩
    · -- its shard is known to be due by then, so this call has nothing to announce
      rw [not_lt, hshard] at hlowers
      exact Or.inl (hreach (hle.trans (hlowers.trans hdeadline)))

/-- The first wait begins with nothing pending; the deadline of the timer that comes then is lower,
but the descriptor is not in the set of the poller. -/
theorem unregistered_oversleeps :
    ∃ as s, Transition.Meets step Delivers (System.new false) as ∧
      Transition.run step (System.new false) as = some s ∧ ¬Attentive s := by
  let as : List Action := [.checkLock Time.zero, .checkUnlock, .epollWait,
    .timerInit 4096 Time.zero ⟨10⟩ (some 1), .timerInitPublish 0]
  obtain ⟨s, hrun, hstate⟩ : ∃ s, Transition.run step (System.new false) as = some s ∧
      (s.thread = .waiting Time.zero Delta.infinite ∧ s.readable = false) ∧ s.timers.inits = [] ∧
      (s.timers.manager.timers 4096).pending = true ∧
      (s.timers.manager.timers 4096).deadline < Time.infinite :=
    ⟨_, rfl, by decide +kernel, by decide +kernel, by decide +kernel, by decide +kernel⟩
  refine ⟨as, s, Transition.meets_of_check (by decide +kernel), hrun, fun hattentive => ?_⟩
  obtain ⟨⟨hpc, hquiet⟩, hnone, hpending, hfinite⟩ := hstate
  rcases hattentive _ _ hpc hquiet 4096 hpending hfinite with ⟨hwait, -⟩ | ⟨init, hin, -⟩
  · rw [IOPoll.firstWait_infinite] at hwait
    exact absurd hwait (by decide)
  · rw [hnone] at hin
    exact absurd hin List.not_mem_nil

/-- Without the second condition a wakeup is lost: the task posted for the first wakeup runs between
`TimerCheck` and `epoll_wait`, and drains the second one. -/
theorem drained_wakeup_oversleeps :
    ∃ s, Transition.run step (System.new true)
        [.checkLock Time.zero, .checkUnlock, .timerInit 4096 Time.zero ⟨5000000⟩ (some 1),
          .timerInitPublish 0, .epollWait, .checkLock Time.zero, .checkUnlock,
          .timerInit 4240 Time.zero ⟨10⟩ (some 2), .timerInitPublish 0, .drainRead, .epollWait] =
        some s ∧ ¬Attentive s := by
  obtain ⟨s, hrun, hstate⟩ : ∃ s, Transition.run step (System.new true)
      [.checkLock Time.zero, .checkUnlock, .timerInit 4096 Time.zero ⟨5000000⟩ (some 1),
        .timerInitPublish 0, .epollWait, .checkLock Time.zero, .checkUnlock,
        .timerInit 4240 Time.zero ⟨10⟩ (some 2), .timerInitPublish 0, .drainRead, .epollWait] =
      some s ∧ (s.thread = .waiting Time.zero ⟨5000000⟩ ∧ s.readable = false) ∧
      s.timers.inits = [] ∧ (s.timers.manager.timers 4240).pending = true ∧
      (s.timers.manager.timers 4240).deadline = ⟨10⟩ :=
    ⟨_, rfl, by decide +kernel, by decide +kernel, by decide +kernel, by decide +kernel⟩
  refine ⟨s, hrun, fun hattentive => ?_⟩
  obtain ⟨⟨hpc, hquiet⟩, hnone, hpending, hdeadline⟩ := hstate
  have hfinite : (s.timers.manager.timers 4240).deadline < Time.infinite := by
    rw [hdeadline]
    decide
  rcases hattentive _ _ hpc hquiet 4240 hpending hfinite with ⟨-, hwait⟩ | ⟨init, hin, -⟩
  · rw [hdeadline] at hwait
    exact absurd hwait (by decide)
  · rw [hnone] at hin
    exact absurd hin List.not_mem_nil

end Iomgr.PollThread
