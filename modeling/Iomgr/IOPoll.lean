import Iomgr.IOManager
import Iomgr.Status
import Iomgr.TimerManager

/-!
The wait of the poll thread. `Run` turns what `TimerCheck` returns into a timeout and `Poll` hands it
to `epoll_wait` in milliseconds, as an `int`; when a signal interrupts the call, it waits again for
what remains. A timeout of `2 ^ 31` milliseconds and more does not fit in an `int`, and a wait
without limit ends at the first signal.
-/

namespace Iomgr

namespace Time.Delta

/-- Rounded towards zero. -/
def toMilliseconds (d : Delta) : Int64 := d.timeOffset / 1000

/-- `operator-(Time::Delta, Time::Delta)`. -/
def sub (a b : Delta) : Delta := ⟨a.timeOffset - b.timeOffset⟩

theorem toInt_lt (d : Delta) : d.toInt < 2 ^ 63 := d.timeOffset.toInt_lt

theorem toInt_toMilliseconds (d : Delta) : d.toMilliseconds.toInt = d.toInt.tdiv 1000 := by
  rw [toMilliseconds, Int64.toInt_div_of_ne_right]
  · rfl
  · decide

theorem toInt_sub_of_lt {a b : Delta} (hb : zero ≤ b) (hab : b < a) :
    (a.sub b).toInt = a.toInt - b.toInt := by
  rw [le_iff, toInt_zero] at hb
  rw [lt_iff] at hab
  have ha := a.toInt_lt
  have hsub : (a.sub b).toInt = (a.toInt - b.toInt).bmod (2 ^ 64) := by
    simp only [sub, toInt, Int64.toInt_sub]
  rw [hsub, Int.bmod_eq_of_le] <;> omega

end Time.Delta

namespace IOPoll

open Time (Delta)

/-- The timeout that `Run` polls with, from what `TimerCheck` returned. -/
def runTimeout (timeout : Delta) : Delta :=
  if timeout.isInfinite then Delta.fromMilliseconds (-1)
  else if timeout < Delta.zero then Delta.zero
  else if timeout < Delta.fromMilliseconds 1 then Delta.fromMilliseconds 1
  else timeout

/-- `remaining_time` before the loop of `Poll`. -/
def firstRemaining (timeout : Delta) : Delta :=
  if Delta.zero ≤ timeout then timeout else Delta.fromMilliseconds (-1)

/-- The argument of `epoll_wait`, an `int`. -/
def epollTimeout (remaining : Delta) : Int32 := remaining.toMilliseconds.toInt32

/-! ### The first wait -/

/-- The argument of the first `epoll_wait` after a `TimerCheck`. -/
def firstWait (timeout : Delta) : Int := (epollTimeout (firstRemaining (runTimeout timeout))).toInt

/-- The thread waits without limit when there is no deadline; it waits for a future deadline without
spinning, and for less than a millisecond longer than there is time. -/
def WakesInTime (timeout : Delta) : Prop :=
  (timeout = Delta.infinite → firstWait timeout < 0) ∧
    (timeout ≠ Delta.infinite → Delta.zero < timeout →
      1 ≤ firstWait timeout ∧ 1000 * firstWait timeout ≤ max timeout.toInt 1000)

/-- The milliseconds of the timeout, modulo `2 ^ 32`, are a positive `int`. -/
def FitsInt (timeout : Delta) : Prop :=
  timeout ≠ Delta.infinite → 1000 ≤ timeout.toInt →
    1 ≤ timeout.toInt / 1000 % 2 ^ 32 ∧ timeout.toInt / 1000 % 2 ^ 32 < 2 ^ 31

instance (timeout : Delta) : Decidable (FitsInt timeout) :=
  inferInstanceAs (Decidable (_ → _ → _))

theorem toInt_fromMilliseconds_one : (Delta.fromMilliseconds 1).toInt = 1000 := by decide

theorem epollTimeout_toInt {remaining : Delta} (h : Delta.zero ≤ remaining) :
    (epollTimeout remaining).toInt = (remaining.toInt / 1000).bmod (2 ^ 32) := by
  rw [Delta.le_iff, Delta.toInt_zero] at h
  rw [epollTimeout, Int64.toInt_toInt32, Delta.toInt_toMilliseconds,
    Int.tdiv_eq_ediv_of_nonneg h]

theorem firstWait_infinite : firstWait Delta.infinite = -1 := by decide

/-- A finite timeout below a millisecond is rounded up to one. -/
theorem firstWait_short {timeout : Delta} (hpos : Delta.zero < timeout)
    (hshort : timeout.toInt < 1000) : firstWait timeout = 1 := by
  have hfinite : ¬timeout.isInfinite = true := by
    rw [Delta.isInfinite_iff]
    rintro rfl
    rw [Delta.toInt_infinite] at hshort
    exact absurd hshort (by decide)
  have hlt : timeout < Delta.fromMilliseconds 1 := by
    rw [Delta.lt_iff, toInt_fromMilliseconds_one]
    exact hshort
  rw [firstWait, runTimeout, if_neg hfinite, if_neg (not_lt_of_gt hpos), if_pos hlt]
  decide

theorem firstWait_long {timeout : Delta} (hfinite : timeout ≠ Delta.infinite)
    (hlong : 1000 ≤ timeout.toInt) :
    firstWait timeout = (timeout.toInt / 1000).bmod (2 ^ 32) := by
  have hnonneg : Delta.zero ≤ timeout := by
    rw [Delta.le_iff, Delta.toInt_zero]
    omega
  have hmilli : ¬timeout < Delta.fromMilliseconds 1 := by
    rw [Delta.lt_iff, toInt_fromMilliseconds_one]
    omega
  rw [firstWait, runTimeout, if_neg (mt Delta.isInfinite_iff.mp hfinite), if_neg (not_lt.mpr hnonneg),
    if_neg hmilli, firstRemaining, if_pos hnonneg, epollTimeout_toInt hnonneg]

/-- For every value that `TimerCheck` may return: the poll thread wakes in time if and only if the
value is infinite or below a millisecond, or its milliseconds modulo `2 ^ 32` are a positive
`int`. -/
theorem wakes_in_time_iff (timeout : Delta) : WakesInTime timeout ↔ FitsInt timeout := by
  constructor
  · rintro ⟨-, hwait⟩ hfinite hlong
    have hpos : Delta.zero < timeout := by
      rw [Delta.lt_iff, Delta.toInt_zero]
      omega
    obtain ⟨hone, -⟩ := hwait hfinite hpos
    rw [firstWait_long hfinite hlong] at hone
    have hmod := Int.bmod_eq_emod (x := timeout.toInt / 1000) (m := 2 ^ 32)
    split_ifs at hmod <;> omega
  · intro hfits
    refine ⟨?_, fun hfinite hpos => ?_⟩
    · rintro rfl
      rw [firstWait_infinite]
      decide
    · rw [Delta.lt_iff, Delta.toInt_zero] at hpos
      rcases lt_or_ge timeout.toInt 1000 with hshort | hlong
      · rw [firstWait_short (Delta.lt_iff.mpr (Delta.toInt_zero ▸ hpos)) hshort]
        exact ⟨le_refl 1, le_max_right _ _⟩
      · obtain ⟨hlow, hhigh⟩ := hfits hfinite hlong
        have hwait : firstWait timeout = timeout.toInt / 1000 % 2 ^ 32 := by
          rw [firstWait_long hfinite hlong, Int.bmod_eq_emod]
          split_ifs <;> omega
        rw [hwait]
        refine ⟨hlow, le_trans ?_ (le_max_left _ _)⟩
        omega

/-- The only timer is due in `2 ^ 31` milliseconds, some 25 days: the thread waits without limit. -/
theorem wakes_never_for_long_timer :
    let delay := Delta.fromMilliseconds (2 ^ 31)
    (((TimerManager.new.timerInit Time.zero delay none 4096).bind
      (TimerManager.timerCheck 1 Time.zero)).map Prod.fst = some delay) ∧
      firstWait delay = -2 ^ 31 ∧ ¬WakesInTime delay := by
  intro delay
  have hwait : firstWait delay = -2 ^ 31 := by decide
  refine ⟨by decide +kernel, hwait, ?_⟩
  rintro ⟨-, hwakes⟩
  obtain ⟨hone, -⟩ := hwakes (by decide) (by decide)
  rw [hwait] at hone
  exact absurd hone (by decide)

/-! ### Interrupted waits -/

/-- What a call to `epoll_wait` may fail with, `EINTR` apart. -/
inductive EpollError
  | EBADF
  | EFAULT
  | EINVAL
  deriving DecidableEq, Repr

def EpollError.errno : EpollError → Int
  | .EBADF => 9
  | .EFAULT => 14
  | .EINVAL => 22

/-- An `epoll_event`; `data` is the entry of the descriptor. -/
structure EpollEvent where
  events : BitVec 32
  data : Nat
  deriving DecidableEq, Repr

structure IOEvent where
  ready : Mode
  data : Nat
  deriving DecidableEq, Repr

/-- `EPOLLIN | EPOLLERR | EPOLLHUP | EPOLLPRI`. -/
def readableEvents : BitVec 32 := 0x001 ||| 0x008 ||| 0x010 ||| 0x002

/-- `EPOLLOUT | EPOLLERR | EPOLLHUP | EPOLLPRI`. -/
def writableEvents : BitVec 32 := 0x004 ||| 0x008 ||| 0x010 ||| 0x002

def EpollEvent.ready (e : EpollEvent) : Mode :=
  (if e.events &&& readableEvents ≠ 0 then kWatchRead else 0) |||
    (if e.events &&& writableEvents ≠ 0 then kWatchWrite else 0)

/-- The events `Poll` reports. -/
def ioEvents (events : List EpollEvent) : List IOEvent :=
  (events.map fun e => ⟨e.ready, e.data⟩).filter fun e => e.ready ≠ 0

/-- What one call to `epoll_wait` comes to: a signal, with the clock before and after the call, the
events that are ready, or an error. -/
inductive EpollWait
  | interrupted (start finish : Time)
  | ready (events : List EpollEvent)
  | failed (e : EpollError)
  deriving DecidableEq, Repr

/-- The loop of `Poll`: the remaining times its calls were made with, and what it returns unless the
last call still waits. -/
def pollLoop (remaining : Delta) : List EpollWait → List Delta × Option (Status × List IOEvent)
  | [] => ([remaining], none)
  | .interrupted start finish :: waits =>
      let waited := finish.sub start
      if waited < remaining then
        let (issued, result) := pollLoop (remaining.sub waited) waits
        (remaining :: issued, result)
      else ([remaining], some (.timeout (.text "epoll_wait timeout"), []))
  | .ready events :: _ => ([remaining], some (.ok, ioEvents events))
  | .failed e :: _ => ([remaining], some (mapSystemError e.errno, []))

def poll (timeout : Delta) (waits : List EpollWait) : List Delta × Option (Status × List IOEvent) :=
  pollLoop (firstRemaining timeout) waits

/-- The clock does not go back during a call. -/
def EpollWait.Monotone : EpollWait → Prop
  | .interrupted start finish => Time.zero ≤ start ∧ start ≤ finish
  | _ => True

instance (wait : EpollWait) : Decidable wait.Monotone :=
  match wait with
  | .interrupted _ _ => inferInstanceAs (Decidable (_ ∧ _))
  | .ready _ | .failed _ => isTrue trivial

/-- The time spent in a call that was interrupted. -/
def EpollWait.waited : EpollWait → Int
  | .interrupted start finish => finish.toInt - start.toInt
  | _ => 0

/-- The time spent in interrupted calls. -/
def totalWaited (waits : List EpollWait) : Int := (waits.map EpollWait.waited).sum

/-- `Poll` has returned a timeout. -/
def TimedOut (r : List Delta × Option (Status × List IOEvent)) : Prop :=
  ∃ status events, r.2 = some (status, events) ∧ status.hasCode .kTimeout = true

/-- A finite wait: every call gets what is left of the timeout, every retry something, and the
timeout is reported when it has passed. -/
def HonoursFinite (timeout : Delta) (waits : List EpollWait)
    (r : List Delta × Option (Status × List IOEvent)) : Prop :=
  (∀ k remaining, r.1[k]? = some remaining →
      remaining.toInt = timeout.toInt - totalWaited (waits.take k) ∧ (0 < k → Delta.zero < remaining)) ∧
    (TimedOut r → timeout.toInt ≤ totalWaited (waits.take r.1.length))

/-- A wait without limit: no timeout is reported, and every call waits without limit. -/
def HonoursForever (r : List Delta × Option (Status × List IOEvent)) : Prop :=
  ¬TimedOut r ∧ ∀ remaining ∈ r.1, (epollTimeout remaining).toInt < 0

def Honours (timeout : Delta) (waits : List EpollWait) : Prop :=
  (Delta.zero ≤ timeout → HonoursFinite timeout waits (poll timeout waits)) ∧
    (timeout < Delta.zero → HonoursForever (poll timeout waits))

theorem totalWaited_cons (wait : EpollWait) (waits : List EpollWait) :
    totalWaited (wait :: waits) = wait.waited + totalWaited waits := by
  rw [totalWaited, List.map_cons, List.sum_cons, totalWaited]

theorem not_timedOut_ready (issued : List Delta) (events : List IOEvent) :
    ¬TimedOut (issued, some (.ok, events)) := by
  rintro ⟨status, reported, heq, hcode⟩
  cases heq
  exact Bool.noConfusion hcode

theorem not_timedOut_failed (issued : List Delta) (e : EpollError) :
    ¬TimedOut (issued, some (mapSystemError e.errno, [])) := by
  rintro ⟨status, reported, heq, hcode⟩
  cases heq
  cases e
  all_goals exact absurd hcode (by decide)

/-- The last call of the loop. -/
theorem HonoursFinite.last {remaining : Delta} {waits : List EpollWait}
    {result : Option (Status × List IOEvent)}
    (h : TimedOut ([remaining], result) → remaining.toInt ≤ totalWaited (waits.take 1)) :
    HonoursFinite remaining waits ([remaining], result) := by
  refine ⟨fun k r hr => ?_, h⟩
  cases k with
  | zero =>
      cases hr
      exact ⟨(Int.sub_zero _).symm, fun hlt => absurd hlt (Nat.lt_irrefl 0)⟩
  | succ k => cases hr

/-- A signal that comes before the time is over. -/
theorem HonoursFinite.retry {remaining rest : Delta} {wait : EpollWait} {waits : List EpollWait}
    {r : List Delta × Option (Status × List IOEvent)}
    (hrest : rest.toInt = remaining.toInt - wait.waited) (hpos : Delta.zero < rest)
    (h : HonoursFinite rest waits r) :
    HonoursFinite remaining (wait :: waits) (remaining :: r.1, r.2) := by
  obtain ⟨hissued, hout⟩ := h
  refine ⟨fun k left hleft => ?_, fun htimed => ?_⟩
  · cases k with
    | zero =>
        cases hleft
        exact ⟨(Int.sub_zero _).symm, fun hlt => absurd hlt (Nat.lt_irrefl 0)⟩
    | succ k =>
        rw [List.getElem?_cons_succ] at hleft
        obtain ⟨hleft', hlater⟩ := hissued k left hleft
        rw [List.take_succ_cons, totalWaited_cons]
        refine ⟨by omega, fun _ => ?_⟩
        rcases Nat.eq_zero_or_pos k with rfl | hk
        · have hsame : left = rest := Delta.toInt_injective (by simpa [totalWaited] using hleft')
          rwa [hsame]
        · exact hlater hk
  · have hle := hout htimed
    rw [List.length_cons, List.take_succ_cons, totalWaited_cons]
    omega

theorem pollLoop_finite (waits : List EpollWait) :
    ∀ remaining : Delta, (∀ wait ∈ waits, wait.Monotone) →
      HonoursFinite remaining waits (pollLoop remaining waits) := by
  induction waits with
  | nil =>
      intro remaining _
      apply HonoursFinite.last
      rintro ⟨status, events, heq, -⟩
      cases heq
  | cons wait waits ih =>
      intro remaining hmono
      have hwaits : ∀ w ∈ waits, w.Monotone := fun w hw => hmono w (List.mem_cons_of_mem _ hw)
      cases wait with
      | ready events => exact HonoursFinite.last fun hout => absurd hout (not_timedOut_ready _ _)
      | failed e => exact HonoursFinite.last fun hout => absurd hout (not_timedOut_failed _ e)
      | interrupted start finish =>
          obtain ⟨hstart, hfinish⟩ := hmono _ List.mem_cons_self
          have hwaited : (finish.sub start).toInt = finish.toInt - start.toInt :=
            Time.toInt_sub_of_nonneg hstart hfinish
          have hnonneg : Delta.zero ≤ finish.sub start := by
            rw [Delta.le_iff, Delta.toInt_zero, hwaited]
            exact Int.sub_nonneg.mpr (Time.le_iff.mp hfinish)
          rw [pollLoop]
          dsimp only
          split_ifs with hlt
          · have hrest := Delta.toInt_sub_of_lt hnonneg hlt
            refine HonoursFinite.retry (hrest.trans (by rw [hwaited]; rfl)) ?_ (ih _ hwaits)
            rw [Delta.lt_iff, Delta.toInt_zero, hrest]
            exact Int.sub_pos.mpr (Delta.lt_iff.mp hlt)
          · apply HonoursFinite.last
            intro _
            rw [not_lt, Delta.le_iff, hwaited] at hlt
            simpa [totalWaited, EpollWait.waited] using hlt

/-- Without a limit, a signal ends the wait at once. -/
theorem pollLoop_forever_interrupted {start finish : Time} (waits : List EpollWait)
    (hmono : (EpollWait.interrupted start finish).Monotone) :
    TimedOut (pollLoop (Delta.fromMilliseconds (-1)) (.interrupted start finish :: waits)) := by
  have hwaited := Time.toInt_sub_of_nonneg hmono.1 hmono.2
  have hle := Time.le_iff.mp hmono.2
  have hover : ¬finish.sub start < Delta.fromMilliseconds (-1) := by
    have hlimit : (Delta.fromMilliseconds (-1)).toInt = -1000 := by decide
    rw [Delta.lt_iff, hwaited, hlimit]
    omega
  rw [pollLoop, if_neg hover]
  exact ⟨_, _, rfl, rfl⟩

theorem honoursForever_last {result : Option (Status × List IOEvent)}
    (h : ¬TimedOut ([Delta.fromMilliseconds (-1)], result)) :
    HonoursForever ([Delta.fromMilliseconds (-1)], result) := by
  refine ⟨h, fun remaining hin => ?_⟩
  obtain rfl := List.mem_singleton.mp hin
  decide

/-- For every timeout and all interruptions under a clock that does not go back: `Poll` honours its
timeout if and only if the timeout is not negative or the first call is not interrupted. -/
theorem poll_honours_iff (timeout : Delta) (waits : List EpollWait)
    (hmono : ∀ wait ∈ waits, wait.Monotone) :
    Honours timeout waits ↔
      (timeout < Delta.zero → ∀ start finish, waits.head? ≠ some (.interrupted start finish)) := by
  rcases le_or_gt Delta.zero timeout with hfinite | hforever
  · have hpoll := pollLoop_finite waits timeout hmono
    rw [Honours, poll, firstRemaining, if_pos hfinite]
    exact iff_of_true ⟨fun _ => hpoll, fun hlt => absurd hlt (not_lt.mpr hfinite)⟩
      fun hlt => absurd hlt (not_lt.mpr hfinite)
  · have hhonours : Honours timeout waits ↔
        HonoursForever (pollLoop (Delta.fromMilliseconds (-1)) waits) := by
      rw [Honours, poll, firstRemaining, if_neg (not_le.mpr hforever)]
      exact ⟨fun h => h.2 hforever, fun h => ⟨fun hle => absurd hle (not_le.mpr hforever), fun _ => h⟩⟩
    rw [hhonours]
    cases waits with
    | nil =>
        refine iff_of_true (honoursForever_last ?_) fun _ start finish heq => ?_
        · rintro ⟨status, events, heq, -⟩
          cases heq
        · cases heq
    | cons wait waits =>
        cases wait with
        | ready events =>
            refine iff_of_true (honoursForever_last (not_timedOut_ready _ _)) fun _ start finish heq => ?_
            cases heq
        | failed e =>
            refine iff_of_true (honoursForever_last (not_timedOut_failed _ e)) fun _ start finish heq => ?_
            cases heq
        | interrupted start finish =>
            have htimed := pollLoop_forever_interrupted waits (hmono _ List.mem_cons_self)
            exact iff_of_false (fun h => h.1 htimed) fun h => h hforever start finish rfl

/-- Ten milliseconds, interrupted after four and after three of them: the third call gets the rest. -/
theorem poll_honours_ten_milliseconds :
    let waits : List EpollWait := [.interrupted ⟨0⟩ ⟨4000⟩, .interrupted ⟨4000⟩ ⟨7000⟩, .ready []]
    (poll ⟨10000⟩ waits).1 = [⟨10000⟩, ⟨6000⟩, ⟨3000⟩] ∧ Honours ⟨10000⟩ waits :=
  ⟨by decide, (poll_honours_iff ⟨10000⟩ _ (by decide)).mpr fun hlt => absurd hlt (by decide)⟩

/-- A wait without limit that a signal interrupts reports a timeout. -/
theorem poll_forever_times_out :
    let waits : List EpollWait := [.interrupted ⟨0⟩ ⟨5⟩, .ready []]
    poll ⟨-1000⟩ waits = ([⟨-1000⟩], some (.timeout (.text "epoll_wait timeout"), [])) ∧
      ¬Honours ⟨-1000⟩ waits := by
  intro waits
  have hpoll : poll ⟨-1000⟩ waits = ([⟨-1000⟩], some (.timeout (.text "epoll_wait timeout"), [])) := by
    decide
  refine ⟨hpoll, fun h => (h.2 (by decide)).1 ?_⟩
  rw [hpoll]
  exact ⟨_, _, rfl, rfl⟩

end IOPoll

end Iomgr
