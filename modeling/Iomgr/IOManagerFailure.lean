import Iomgr.IOManagerTable

/-!
Calls that fail. A stop takes the controller out of the table before it asks the poller, and a watch
first stops an older registration of the same controller. So a refused poller operation leaves a
registration behind that the table has forgotten; only a watch of a controller that was idle, or that
watches another descriptor, fails without a trace.
-/

namespace Iomgr.IOManager

/-- A call with the answers of the kernel to its poller operations: `okStop` to that of the stop
inside a watch, `ok` to the other one. -/
inductive Call
  | watch (okStop ok : Bool) (fd : Int) (mode : Mode) (watcher : WatcherPtr) (c : ControllerPtr)
  | stop (ok : Bool) (c : ControllerPtr)
  deriving DecidableEq

/-- What the call returns and leaves. -/
def call (m : IOManager) : Call → Option (Bool × IOManager)
  | .watch okStop ok fd mode watcher c =>
      if 0 ≤ fd ∧ ValidMode mode then m.watchFileDescriptor okStop ok fd mode watcher c else none
  | .stop ok c => m.stopWatchingFileDescriptorNoLock ok c

def callStep (m : IOManager) (a : Call) : Option IOManager := (m.call a).map Prod.snd

/-- The registrations are the same: the descriptor, mode and watcher of every controller, and the
controllers and the mode of every descriptor. -/
structure Same (m m' : IOManager) : Prop where
  controller : ∀ c, (m'.controllers c).fd = (m.controllers c).fd ∧
    (m'.controllers c).mode = (m.controllers c).mode ∧
    (m'.controllers c).watcher = (m.controllers c).watcher
  entry : ∀ fd, m'.entry fd = m.entry fd

/-- A call that returns false changes nothing. -/
def FailureKeeps (m : IOManager) (a : Call) : Prop :=
  ∀ m', m.call a = some (false, m') → Same m m'

/-- The call cannot fail half-way: it does not touch a registration, or the poller accepts what it is
asked for. A stop needs a descriptor that the poller still knows. A watch that changes a registration
also needs the removal of the descriptor, unless other bits keep it, or no bits were left for it. -/
def AcceptsAll (m : IOManager) : Call → Prop
  | .watch okStop ok fd _ _ c => (m.controllers c).fd ≠ fd ∨ ok = true ∧
      (okStop = true ∨ (m.entry fd).mode &&& ~~~m.modeOf c ≠ 0 ∨ (m.entry fd).mode = 0)
  | .stop ok c => (m.controllers c).fd = -1 ∨
      ok = true ∧ (m.entry (m.controllers c).fd).mode ≠ 0

instance (m : IOManager) (a : Call) : Decidable (AcceptsAll m a) :=
  match a with
  | .watch _ _ _ _ _ _ => inferInstanceAs (Decidable (_ ∨ _ ∧ (_ ∨ _ ∨ _)))
  | .stop _ _ => inferInstanceAs (Decidable (_ ∨ _ ∧ _))

theorem new_registered : Registered new := new_inv.registered

/-- Only the registrations and the poller matter. -/
theorem Registered.congr {m m' : IOManager} (h : Registered m) (hsame : Same m m')
    (hpoller : m'.poller = m.poller) : Registered m' := by
  refine ⟨fun c fd => ?_, fun fd => ?_, fun fd => ?_, fun c hc => ?_⟩
  · rw [hsame.entry, (hsame.controller c).1]
    exact h.listed c fd
  · rw [hsame.entry, hpoller]
    exact h.poller fd
  · rw [hsame.entry]
    exact h.bits fd
  · rw [modeOf, (hsame.controller c).2.1]
    exact h.idle c ((hsame.controller c).1 ▸ hc)

/-! ### Refused operations -/

theorem leaveEntry_refused {m : IOManager} {ok : Bool} {fd : Int}
    (h : ¬(ok = true ∧ (m.poller fd).isSome = true)) (c : ControllerPtr) (e : FDAndControllers) :
    m.leaveEntry ok fd c e = (false, m.setEntry fd e) := by
  have hcond : (ok && (m.poller fd).isSome) = false := by
    rw [Bool.eq_false_iff, Ne, Bool.and_eq_true]
    exact h
  have hcall : (if e.mode = 0 then m.poller.removeFd ok fd else m.poller.updateFd ok fd e.mode) =
      none := by
    simp [IOPoller.removeFd, IOPoller.updateFd, hcond]
  simp only [leaveEntry, setEntry, hcall]

theorem enterEntry_refused {m : IOManager} {ok : Bool} {fd : Int} {e : FDAndControllers}
    (h : ¬(ok = true ∧ ((m.poller fd).isSome = true ↔ e.mode ≠ 0))) (mode : Mode)
    (watcher : WatcherPtr) (c : ControllerPtr) :
    m.enterEntry ok fd mode watcher c e = (false, m.setEntry fd e) := by
  have hcall : (if e.mode = 0 then m.poller.addFd ok fd mode
      else m.poller.updateFd ok fd (mode ||| e.mode)) = none := by
    split_ifs with hzero
    · have hcond : ¬((ok && (m.poller fd).isNone) = true) := by
        rw [Bool.and_eq_true]
        rintro ⟨hok, hnone⟩
        refine h ⟨hok, ?_⟩
        simp [Option.isNone_iff_eq_none.mp hnone, hzero]
      exact if_neg hcond
    · have hcond : ¬((ok && (m.poller fd).isSome) = true) := by
        rw [Bool.and_eq_true]
        rintro ⟨hok, hsome⟩
        exact h ⟨hok, iff_of_true hsome hzero⟩
      exact if_neg hcond
  simp only [enterEntry, setEntry, hcall]

/-- A refused stop of a watching controller. -/
theorem stop_refused {m : IOManager} (h : Registered m) {ok : Bool} {c : ControllerPtr}
    (hc : (m.controllers c).fd ≠ -1)
    (hrefused : ¬(ok = true ∧ (m.entry (m.controllers c).fd).mode ≠ 0)) :
    ∃ m', m.stopWatchingFileDescriptorNoLock ok c = some (false, m') ∧
      Left m c (m.controllers c).fd m' ∧ m'.poller = m.poller := by
  have he := h.fdControllers hc
  generalize hentry : m.entry (m.controllers c).fd = e at he hrefused
  generalize hm1 : m.setController c { m.controllers c with task := none } = m1
  have hpoller : m1.poller = m.poller := by rw [← hm1]; rfl
  have hrun : m.stopWatchingFileDescriptorNoLock ok c =
      some (m1.leaveEntry ok (m.controllers c).fd c
        ⟨e.mode &&& ~~~m.modeOf c, e.controllers.erase c⟩) := by
    simp only [stopWatchingFileDescriptorNoLock, if_neg hc, hm1]
    exact Option.bind_eq_some_iff.mpr ⟨e, hm1 ▸ he, rfl⟩
  have hrefused' : ¬(ok = true ∧ (m1.poller (m.controllers c).fd).isSome = true) := by
    rw [hpoller, isSome_iff_of_poller (h.poller _), hentry]
    exact hrefused
  refine ⟨_, hrun.trans (congrArg some (leaveEntry_refused hrefused' c _)), ⟨fun d hd => ?_, ?_,
    fun fd' hfd' => ?_, fun fd' _ => congrFun hpoller fd'⟩, hpoller⟩
  · rw [← hm1]
    simp [setController, setEntry, hd]
  · rw [hentry]
    exact entry_of_table rfl
  · rw [← hm1]
    exact entry_of_table_of_ne rfl hfd'

/-! ### The calls -/

/-- A controller that was listed and has left is missed. -/
theorem Left.not_same {m m1 m' : IOManager} {c : ControllerPtr} {fd : Int} (h : Registered m)
    (hc : fd ≠ -1 ∧ (m.controllers c).fd = fd) (hleft : Left m c fd m1)
    (hentry : m'.entry fd = m1.entry fd) : ¬Same m m' := by
  intro hsame
  have hin := (h.listed.mem_iff c fd).mpr hc
  rw [← hsame.entry fd, hentry, hleft.entry] at hin
  exact (h.listed.nodup fd).not_mem_erase hin

/-- Making the entry that is there, or an empty one, changes no registration. -/
theorem setEntry_entry (m : IOManager) (fd fd' : Int) :
    (m.setEntry fd (m.entry fd)).entry fd' = m.entry fd' := by
  by_cases hfd' : fd' = fd
  · subst hfd'
    exact entry_of_table rfl
  · exact entry_of_table_of_ne rfl hfd'

/-- What the call did, and that it fails without a trace exactly under the condition. -/
def Settles (m : IOManager) (a : Call) : Prop :=
  (FailureKeeps m a ↔ AcceptsAll m a) ∧
    ∀ m', callStep m a = some m' → AcceptsAll m a → Registered m'

/-- A call that succeeds, or leaves the registrations as they were. -/
theorem settles_of_keeps {m m' : IOManager} {a : Call} {result : Bool}
    (hcall : m.call a = some (result, m')) (haccepts : AcceptsAll m a)
    (hkeeps : result = false → Same m m') (hregistered : Registered m') : Settles m a := by
  refine ⟨iff_of_true (fun m'' hfalse => ?_) haccepts, fun m'' hstep _ => ?_⟩
  · rw [hcall] at hfalse
    cases hfalse
    exact hkeeps rfl
  · rw [callStep, hcall] at hstep
    cases hstep
    exact hregistered

/-- A call that fails and leaves something behind. -/
theorem settles_of_not_same {m m' : IOManager} {a : Call} (hcall : m.call a = some (false, m'))
    (hrefuses : ¬AcceptsAll m a) (hnot : ¬Same m m') : Settles m a :=
  ⟨iff_of_false (fun hkeeps => hnot (hkeeps m' hcall)) hrefuses, fun _ _ h => absurd h hrefuses⟩

theorem stop_settles {m : IOManager} (h : Registered m) (ok : Bool) (c : ControllerPtr) :
    Settles m (.stop ok c) := by
  by_cases haccepts : AcceptsAll m (.stop ok c)
  · obtain ⟨m', hrun, hf⟩ := stop_freed h ok (Or.inr (rfl : (m.controllers c).fd = _))
      fun hc => haccepts.resolve_left hc
    exact settles_of_keeps hrun haccepts (by simp) (hf.registered h (Or.inr rfl))
  · obtain ⟨hc, hrefused⟩ := not_or.mp haccepts
    obtain ⟨m', hrun, hleft, -⟩ := stop_refused h hc hrefused
    exact settles_of_not_same hrun haccepts (hleft.not_same h ⟨hc, rfl⟩ rfl)

/-- The stop inside a watch, with what it means for the operation that follows. -/
theorem stop_before_watch {m : IOManager} (h : Registered m) {fd : Int} {c : ControllerPtr}
    (hneg : fd ≠ -1) (hc : (m.controllers c).fd = fd) (okStop : Bool) :
    ∃ stopped m1, m.stopWatchingFileDescriptorNoLock okStop c = some (stopped, m1) ∧
      Left m c fd m1 ∧
      (((m1.poller fd).isSome = true ↔ (m1.entry fd).mode ≠ 0) ↔
        okStop = true ∨ (m.entry fd).mode &&& ~~~m.modeOf c ≠ 0 ∨ (m.entry fd).mode = 0) := by
  by_cases hok : okStop = true ∧ (m.entry fd).mode ≠ 0
  · obtain ⟨m1, hstop, hf⟩ := stop_freed h okStop (Or.inr hc) fun _ => hok
    exact ⟨true, m1, hstop, hf.left h, iff_of_true (isSome_iff_of_poller (hf.poller fd))
      (Or.inl hok.1)⟩
  · subst hc
    obtain ⟨m1, hstop, hleft, hpoller⟩ := stop_refused h hneg hok
    refine ⟨false, m1, hstop, hleft, ?_⟩
    rw [hpoller, isSome_iff_of_poller (h.poller _), hleft.entry]
    by_cases hzero : (m.entry (m.controllers c).fd).mode = 0
    · rw [hzero]
      simp
    · have hstop' : okStop ≠ true := fun heq => hok ⟨heq, hzero⟩
      constructor
      · exact fun hiff => Or.inr (Or.inl (hiff.mp hzero))
      · rintro (heq | hbits | hnone)
        · exact absurd heq hstop'
        · exact iff_of_true hzero hbits
        · exact absurd hnone hzero

/-- A watch of a controller that was idle. -/
theorem watch_idle {m : IOManager} (h : Registered m) {okStop ok : Bool} {fd : Int} {mode : Mode}
    {watcher : WatcherPtr} {c : ControllerPtr} (hnonneg : 0 ≤ fd) (hvalid : ValidMode mode)
    (hidle : (m.controllers c).fd = -1) :
    ∃ result m', m.watchFileDescriptor okStop ok fd mode watcher c = some (result, m') ∧
      (result = false → Same m m') ∧ Registered m' := by
  have hfd : (m.controllers c).fd = -1 ∨ (m.controllers c).fd = fd := Or.inl hidle
  obtain ⟨m1, hstop, hf⟩ := stop_freed h okStop hfd fun hc => absurd hidle hc
  have hm1 : m1 = m.setController c { m.controllers c with task := none } := by
    simp only [stopWatchingFileDescriptorNoLock, if_pos hidle] at hstop
    cases hstop
    rfl
  have hrun : m.watchFileDescriptor okStop ok fd mode watcher c =
      some (m1.enterEntry ok fd mode watcher c (m1.entry fd)) :=
    watchFileDescriptor_eq hfd hstop
  have hpoller := isSome_iff_of_poller (hf.poller fd)
  cases ok with
  | true =>
      have hevents : (m1.entry fd).mode &&& kWatchReadWrite = (m1.entry fd).mode := by
        rw [hf.entry]
        exact h.clear_bits fd (m.modeOf c)
      obtain ⟨m', henter, he⟩ := enterEntry_entered watcher c hvalid hpoller
        (fun fd' _ => hf.poller fd') hevents
      exact ⟨true, m', hrun.trans (congrArg some henter), by simp,
        (hf.left h).registered h hnonneg hvalid hfd he⟩
  | false =>
      have hsame : Same m (m1.setEntry fd (m1.entry fd)) := by
        refine ⟨fun d => ?_, fun fd' => ?_⟩
        · rw [hm1]
          by_cases hd : d = c
          · subst hd
            simp [setController, setEntry]
          · simp [setController, setEntry, hd]
        · rw [setEntry_entry, hm1]
          rfl
      have hrefused : m1.enterEntry false fd mode watcher c (m1.entry fd) =
          (false, m1.setEntry fd (m1.entry fd)) :=
        enterEntry_refused (fun hw => Bool.false_ne_true hw.1) mode watcher c
      refine ⟨false, _, hrun.trans (congrArg some hrefused), fun _ => hsame, h.congr hsame ?_⟩
      rw [hm1]
      rfl

/-- A watch by the controller that watches the descriptor already. -/
theorem watch_again {m : IOManager} (h : Registered m) {okStop ok : Bool} {fd : Int} {mode : Mode}
    {watcher : WatcherPtr} {c : ControllerPtr} (hnonneg : 0 ≤ fd) (hvalid : ValidMode mode)
    (hc : (m.controllers c).fd = fd) :
    (AcceptsAll m (.watch okStop ok fd mode watcher c) ∧
      ∃ m', m.watchFileDescriptor okStop ok fd mode watcher c = some (true, m') ∧ Registered m') ∨
    (¬AcceptsAll m (.watch okStop ok fd mode watcher c) ∧
      ∃ m', m.watchFileDescriptor okStop ok fd mode watcher c = some (false, m') ∧ ¬Same m m') := by
  have hneg : fd ≠ -1 := by omega
  obtain ⟨stopped, m1, hstop, hleft, hiff⟩ := stop_before_watch h hneg hc okStop
  have hrun : m.watchFileDescriptor okStop ok fd mode watcher c =
      some (m1.enterEntry ok fd mode watcher c (m1.entry fd)) :=
    watchFileDescriptor_eq (Or.inr hc) hstop
  have haccepts : AcceptsAll m (.watch okStop ok fd mode watcher c) ↔
      ok = true ∧ ((m1.poller fd).isSome = true ↔ (m1.entry fd).mode ≠ 0) := by
    rw [hiff]
    exact or_iff_right (not_not.mpr hc)
  rw [haccepts]
  by_cases hok : ok = true ∧ ((m1.poller fd).isSome = true ↔ (m1.entry fd).mode ≠ 0)
  · obtain ⟨rfl, hpoller⟩ := hok
    have hevents : (m1.entry fd).mode &&& kWatchReadWrite = (m1.entry fd).mode := by
      rw [hleft.entry]
      exact h.clear_bits fd (m.modeOf c)
    have hothers : ∀ fd', fd' ≠ fd →
        m1.poller fd' = if (m1.entry fd').mode = 0 then none else some (m1.entry fd').mode := by
      intro fd' hfd'
      rw [hleft.poller fd' hfd', hleft.entries fd' hfd', h.poller]
    obtain ⟨m', henter, he⟩ := enterEntry_entered watcher c hvalid hpoller hothers hevents
    exact Or.inl ⟨⟨rfl, hpoller⟩, m', hrun.trans (congrArg some henter),
      hleft.registered h hnonneg hvalid (Or.inr hc) he⟩
  · have hrefused := enterEntry_refused hok mode watcher c
    refine Or.inr ⟨hok, _, hrun.trans (congrArg some hrefused), hleft.not_same h ⟨hneg, hc⟩ ?_⟩
    exact setEntry_entry m1 fd fd

theorem watch_settles {m : IOManager} (h : Registered m) (okStop ok : Bool) {fd : Int} {mode : Mode}
    (watcher : WatcherPtr) (c : ControllerPtr) (hnonneg : 0 ≤ fd) (hvalid : ValidMode mode) :
    Settles m (.watch okStop ok fd mode watcher c) := by
  have hcall : m.call (.watch okStop ok fd mode watcher c) =
      m.watchFileDescriptor okStop ok fd mode watcher c := if_pos ⟨hnonneg, hvalid⟩
  by_cases hc : (m.controllers c).fd = fd
  · rcases watch_again h hnonneg hvalid hc with
      ⟨haccepts, m', hrun, hregistered⟩ | ⟨hrefuses, m', hrun, hnot⟩
    · exact settles_of_keeps (hcall.trans hrun) haccepts (by simp) hregistered
    · exact settles_of_not_same (hcall.trans hrun) hrefuses hnot
  · have haccepts : AcceptsAll m (.watch okStop ok fd mode watcher c) := Or.inl hc
    by_cases hidle : (m.controllers c).fd = -1
    · obtain ⟨result, m', hrun, hkeeps, hregistered⟩ := watch_idle h hnonneg hvalid hidle
      exact settles_of_keeps (hcall.trans hrun) haccepts hkeeps hregistered
    · have hrefused : m.watchFileDescriptor okStop ok fd mode watcher c = some (false, m) := by
        simp only [watchFileDescriptor, if_pos (And.intro hidle hc)]
      exact settles_of_keeps (hcall.trans hrefused) haccepts
        (fun _ => ⟨fun _ => ⟨rfl, rfl, rfl⟩, fun _ => rfl⟩) h

/-- Every call that returns. -/
theorem callStep_settles {m m' : IOManager} {a : Call} (h : Registered m)
    (hstep : callStep m a = some m') : Settles m a := by
  cases a with
  | stop ok c => exact stop_settles h ok c
  | watch okStop ok fd mode watcher c =>
      by_cases hguard : 0 ≤ fd ∧ ValidMode mode
      · exact watch_settles h okStop ok watcher c hguard.1 hguard.2
      · simp [callStep, call, hguard] at hstep

/-- Along a sequence of calls, with any answers of the poller, the calls that return false change
nothing if and only if no call fails half-way. -/
theorem failed_calls_keep_iff (calls : List Call) :
    Transition.Meets callStep FailureKeeps new calls ↔
      Transition.Meets callStep AcceptsAll new calls := by
  refine Transition.meets_congr (fun m a m' (h : Registered m) haccepts hstep => ?_)
    (fun m a m' h hstep => (callStep_settles h hstep).1) new_registered
  exact (callStep_settles h hstep).2 m' hstep haccepts

/-- One controller reads a descriptor. A refused stop takes it out of the list while it still has the
descriptor, and a refused change to writing loses what it was reading. -/
theorem failed_calls_change :
    (∃ m m', Transition.run callStep new [.watch true true 5 kWatchRead 0 1] = some m ∧
      m.call (.stop false 1) = some (false, m') ∧ (m'.controllers 1).fd = 5 ∧
      (m.entry 5).controllers = [1] ∧ (m'.entry 5).controllers = [] ∧
      ¬FailureKeeps m (.stop false 1)) ∧
    ∃ m m', Transition.run callStep new [.watch true true 5 kWatchRead 0 1] = some m ∧
      m.call (.watch true false 5 kWatchWrite 0 1) = some (false, m') ∧
      (m.controllers 1).fd = 5 ∧ (m'.controllers 1).fd = -1 ∧
      ¬FailureKeeps m (.watch true false 5 kWatchWrite 0 1) := by
  refine ⟨⟨_, _, rfl, rfl, by decide, by decide, by decide, fun hkeeps => ?_⟩,
    _, _, rfl, rfl, by decide, by decide, fun hkeeps => ?_⟩
  · exact absurd ((hkeeps _ rfl).entry 5) (by decide)
  · exact absurd ((hkeeps _ rfl).controller 1).1 (by decide)

end Iomgr.IOManager
