import Iomgr.BitMask
import Iomgr.IOManager
import Iomgr.TransitionSystem
import Mathlib.Data.List.Nodup

/-!
The table against the registrations. Stopping a controller clears its bits from the mode of the
entry, also those that another controller of the descriptor asked for. The table stays right exactly
as long as no stop, and no change of what a controller watches, clears a bit that another controller
of the descriptor shares.
-/

namespace Iomgr.IOManager

open BitMask

/-- The entry of a descriptor; one that has none is like one with an empty entry. -/
def entry (m : IOManager) (fd : Int) : FDAndControllers :=
  (m.fdControllers fd).getD FDAndControllers.new

/-- The mode of a controller. -/
def modeOf (m : IOManager) (c : ControllerPtr) : Mode := (m.controllers c).mode

/-- The table agrees with the registrations: the mode of an entry is the union of the modes of its
controllers, the poller watches a descriptor for that mode when it is not zero, every watching
controller is listed once, in the entry of its own descriptor only, and no other one is listed. So
every watching controller is sent the events it asked for. -/
structure TableAgrees (m : IOManager) : Prop where
  mode : ∀ fd, (m.entry fd).mode = orAll m.modeOf (m.entry fd).controllers
  poller : ∀ fd, m.poller fd = if (m.entry fd).mode = 0 then none else some (m.entry fd).mode
  listed : ∀ c fd, (m.entry fd).controllers.count c =
    if fd ≠ -1 ∧ (m.controllers c).fd = fd then 1 else 0
  delivered : ∀ c, (m.controllers c).fd ≠ -1 →
    (m.poller (m.controllers c).fd).getD 0 &&& m.modeOf c = m.modeOf c

inductive Action
  | watch (fd : Int) (mode : Mode) (watcher : WatcherPtr) (c : ControllerPtr)
  | stop (c : ControllerPtr)
  deriving DecidableEq

/-- The modes a caller may ask for. -/
def ValidMode (mode : Mode) : Prop :=
  mode = kWatchRead ∨ mode = kWatchWrite ∨ mode = kWatchReadWrite

instance (mode : Mode) : Decidable (ValidMode mode) := inferInstanceAs (Decidable (_ ∨ _ ∨ _))

/-- A call all of whose poller operations succeed. A `WatchFileDescriptor` of a controller that is
watching another descriptor uses none. -/
def step (m : IOManager) : Action → Option IOManager
  | .watch fd mode watcher c =>
      if 0 ≤ fd ∧ ValidMode mode then do
        let (watched, m') ← m.watchFileDescriptor true true fd mode watcher c
        if (m.controllers c).fd ≠ -1 ∧ (m.controllers c).fd ≠ fd then some m'
        else do
          let (stopped, _) ← m.stopWatchingFileDescriptorNoLock true c
          if stopped && watched then some m' else none
      else none
  | .stop c => do
      let (stopped, m') ← m.stopWatchingFileDescriptorNoLock true c
      if stopped then some m' else none

/-- The union of the modes of the other controllers of the descriptor `c` watches. -/
def othersMode (m : IOManager) (c : ControllerPtr) : Mode :=
  orAll m.modeOf ((m.entry (m.controllers c).fd).controllers.erase c)

/-- No bit that another controller of the same descriptor asked for is cleared: a stopped controller
shares none, and a controller that changes its mode keeps those it shares. -/
def KeepsOthers (m : IOManager) : Action → Prop
  | .watch fd mode _ c => (m.controllers c).fd = -1 ∨ (m.controllers c).fd = fd →
      m.modeOf c &&& m.othersMode c &&& ~~~mode = 0
  | .stop c => m.modeOf c &&& m.othersMode c = 0

structure Inv (m : IOManager) : Prop where
  agrees : TableAgrees m
  valid : ∀ c, (m.controllers c).fd ≠ -1 → ValidMode (m.modeOf c)
  idle : ∀ c, (m.controllers c).fd = -1 → m.modeOf c = 0

theorem new_inv : Inv new where
  agrees :=
    { mode := fun _ => rfl
      poller := fun _ => rfl
      listed := fun c fd => by
        have hnot : ¬(fd ≠ -1 ∧ (new.controllers c).fd = fd) := fun h => h.1 h.2.symm
        rw [if_neg hnot]
        rfl
      delivered := fun c hc => absurd rfl hc }
  valid c hc := absurd rfl hc
  idle _ _ := rfl

/-- Every watching controller is listed once, in the entry of its own descriptor only. -/
def Listed (m : IOManager) : Prop :=
  ∀ c fd, (m.entry fd).controllers.count c = if fd ≠ -1 ∧ (m.controllers c).fd = fd then 1 else 0

theorem Listed.mem_iff {m : IOManager} (h : Listed m) (c : ControllerPtr) (fd : Int) :
    c ∈ (m.entry fd).controllers ↔ fd ≠ -1 ∧ (m.controllers c).fd = fd := by
  rw [← List.count_pos_iff, h]
  split_ifs with hw
  · exact ⟨fun _ => hw, fun _ => Nat.one_pos⟩
  · exact ⟨fun hpos => absurd hpos (Nat.lt_irrefl 0), fun hw' => absurd hw' hw⟩

theorem Listed.nodup {m : IOManager} (h : Listed m) (fd : Int) :
    (m.entry fd).controllers.Nodup := by
  rw [List.nodup_iff_count_le_one]
  intro c
  rw [h]
  split_ifs
  · exact Nat.le_refl 1
  · exact Nat.zero_le 1

theorem Inv.listed {m : IOManager} (h : Inv m) : Listed m := h.agrees.listed

/-- The last part of agreement follows from the others. -/
theorem TableAgrees.of_table {m : IOManager}
    (hmode : ∀ fd, (m.entry fd).mode = orAll m.modeOf (m.entry fd).controllers)
    (hpoller : ∀ fd, m.poller fd = if (m.entry fd).mode = 0 then none else some (m.entry fd).mode)
    (hlisted : ∀ c fd, (m.entry fd).controllers.count c =
      if fd ≠ -1 ∧ (m.controllers c).fd = fd then 1 else 0) : TableAgrees m := by
  refine ⟨hmode, hpoller, hlisted, fun c hc => ?_⟩
  have hin : c ∈ (m.entry (m.controllers c).fd).controllers := by
    rw [← List.count_pos_iff, hlisted, if_pos ⟨hc, rfl⟩]
    exact Nat.one_pos
  have hunion : (m.poller (m.controllers c).fd).getD 0 = (m.entry (m.controllers c).fd).mode := by
    rw [hpoller]
    split_ifs with hzero
    · exact hzero.symm
    · rfl
  rw [hunion, hmode]
  exact and_orAll_of_mem hin

/-! ### What a stop does -/

/-- The controller has left the entry of `fd`, with its bits, and nothing else has changed. -/
structure Freed (m : IOManager) (c : ControllerPtr) (fd : Int) (m' : IOManager) : Prop where
  controller : (m'.controllers c).fd = -1 ∧ m'.modeOf c = 0
  controllers : ∀ d, d ≠ c → m'.controllers d = m.controllers d
  entry : m'.entry fd =
    ⟨(m.entry fd).mode &&& ~~~m.modeOf c, (m.entry fd).controllers.erase c⟩
  entries : ∀ fd', fd' ≠ fd → m'.entry fd' = m.entry fd'
  poller : ∀ fd', m'.poller fd' =
    if (m'.entry fd').mode = 0 then none else some (m'.entry fd').mode

theorem ValidMode.and {mode : Mode} (h : ValidMode mode) : mode &&& kWatchReadWrite = mode := by
  rcases h with rfl | rfl | rfl <;> decide

theorem ValidMode.ne_zero {mode : Mode} (h : ValidMode mode) : mode ≠ 0 := by
  rcases h with rfl | rfl | rfl <;> decide

/-- Only the two event bits are in use. -/
theorem Inv.mode_and {m : IOManager} (h : Inv m) (fd : Int) :
    (m.entry fd).mode &&& kWatchReadWrite = (m.entry fd).mode := by
  rw [h.agrees.mode]
  apply orAll_and
  intro c hc
  obtain ⟨hne, heq⟩ := (h.listed.mem_iff c fd).mp hc
  exact (h.valid c (heq ▸ hne)).and

/-- What the operations rely on: the part of agreement that does not speak of shared bits. -/
structure Registered (m : IOManager) : Prop where
  listed : Listed m
  poller : ∀ fd, m.poller fd = if (m.entry fd).mode = 0 then none else some (m.entry fd).mode
  bits : ∀ fd, (m.entry fd).mode &&& kWatchReadWrite = (m.entry fd).mode
  idle : ∀ c, (m.controllers c).fd = -1 → m.modeOf c = 0

theorem Inv.registered {m : IOManager} (h : Inv m) : Registered m :=
  ⟨h.listed, h.agrees.poller, h.mode_and, h.idle⟩

/-- A poller that follows the entry knows the descriptor when the entry has bits. -/
theorem isSome_iff_of_poller {m : IOManager} {fd : Int}
    (h : m.poller fd = if (m.entry fd).mode = 0 then none else some (m.entry fd).mode) :
    (m.poller fd).isSome = true ↔ (m.entry fd).mode ≠ 0 := by
  rw [h]
  split_ifs with hzero
  · exact iff_of_false Bool.false_ne_true (not_not.mpr hzero)
  · exact iff_of_true rfl hzero

/-- Clearing bits leaves only event bits. -/
theorem Registered.clear_bits {m : IOManager} (h : Registered m) (fd : Int) (mode : Mode) :
    ((m.entry fd).mode &&& ~~~mode) &&& kWatchReadWrite = (m.entry fd).mode &&& ~~~mode := by
  rw [BitVec.and_assoc, BitVec.and_comm (~~~mode), ← BitVec.and_assoc, h.bits]

/-- A watching controller's descriptor has an entry in the table. -/
theorem Registered.fdControllers {m : IOManager} (h : Registered m) {c : ControllerPtr}
    (hc : (m.controllers c).fd ≠ -1) :
    m.fdControllers (m.controllers c).fd = some (m.entry (m.controllers c).fd) := by
  have hin := (h.listed.mem_iff c _).mpr ⟨hc, rfl⟩
  cases hnone : m.fdControllers (m.controllers c).fd with
  | none => simp [entry, hnone, FDAndControllers.new] at hin
  | some e => simp [entry, hnone]

/-- The interest set after `fd` is watched for `mode`, or no more when it is zero. -/
def pollerFor (poller : IOPoller) (fd : Int) (mode : Mode) : IOPoller :=
  Function.update poller fd (if mode = 0 then none else some mode)

/-- A new entry with the poller that follows it. -/
theorem pollerFor_eq {m m' : IOManager} {fd : Int} {e : FDAndControllers}
    (hpoller : ∀ fd', fd' ≠ fd →
      m.poller fd' = if (m.entry fd').mode = 0 then none else some (m.entry fd').mode)
    (hp : m'.poller = pollerFor m.poller fd e.mode) (he : m'.entry fd = e)
    (hentries : ∀ fd', fd' ≠ fd → m'.entry fd' = m.entry fd') (fd' : Int) :
    m'.poller fd' = if (m'.entry fd').mode = 0 then none else some (m'.entry fd').mode := by
  by_cases hfd : fd' = fd
  · subst hfd
    rw [hp, he, pollerFor, Function.update_self]
  · rw [hp, hentries fd' hfd, pollerFor, Function.update_of_ne hfd]
    exact hpoller fd' hfd

theorem entry_of_table {m : IOManager} {fd : Int} {table : Int → Option FDAndControllers}
    {e : FDAndControllers} (h : m.fdControllers = Function.update table fd (some e)) :
    m.entry fd = e := by
  simp [entry, h]

theorem entry_of_table_of_ne {m m' : IOManager} {fd fd' : Int} {e : FDAndControllers}
    (h : m'.fdControllers = Function.update m.fdControllers fd (some e)) (hne : fd' ≠ fd) :
    m'.entry fd' = m.entry fd' := by
  simp [entry, h, hne]

theorem leaveEntry_eq (m : IOManager) {fd : Int} (c : ControllerPtr) (e : FDAndControllers)
    (hpoller : (m.poller fd).isSome = true) (hevents : e.mode &&& kWatchReadWrite = e.mode) :
    m.leaveEntry true fd c e = (true,
      { m.setEntry fd e with poller := pollerFor m.poller fd e.mode }.setController c
        Controller.new) := by
  have hcall : (if e.mode = 0 then m.poller.removeFd true fd else m.poller.updateFd true fd e.mode) =
      some (pollerFor m.poller fd e.mode) := by
    unfold pollerFor
    split_ifs with hzero
    · simp [IOPoller.removeFd, hpoller]
    · simp [IOPoller.updateFd, hpoller, IOPoller.events, hevents]
  simp only [leaveEntry, setEntry, hcall]

/-- A listed controller's bits are among those of its entry. -/
theorem Inv.mode_eq {m : IOManager} (h : Inv m) {c : ControllerPtr} (hc : (m.controllers c).fd ≠ -1) :
    (m.entry (m.controllers c).fd).mode = m.modeOf c ||| m.othersMode c := by
  have hin := (h.listed.mem_iff c _).mpr ⟨hc, rfl⟩
  rw [h.agrees.mode, orAll_perm m.modeOf (List.perm_cons_erase hin), orAll_cons]
  rfl

/-- A stop with an accepted poller operation on a descriptor that the poller knows. -/
theorem stop_freed {m : IOManager} (h : Registered m) {c : ControllerPtr} {fd : Int} (ok : Bool)
    (hfd : (m.controllers c).fd = -1 ∨ (m.controllers c).fd = fd)
    (hok : (m.controllers c).fd ≠ -1 → ok = true ∧ (m.entry fd).mode ≠ 0) :
    ∃ m', m.stopWatchingFileDescriptorNoLock ok c = some (true, m') ∧ Freed m c fd m' := by
  by_cases hidle : (m.controllers c).fd = -1
  · have hout : c ∉ (m.entry fd).controllers := fun hin => by
      obtain ⟨hne, heq⟩ := (h.listed.mem_iff c fd).mp hin
      exact hne (heq ▸ hidle)
    refine ⟨m.setController c { m.controllers c with task := none }, ?_, ⟨?_, ?_⟩, fun d hd => ?_, ?_,
      fun _ _ => rfl, h.poller⟩
    · simp only [stopWatchingFileDescriptorNoLock, if_pos hidle]
    · simp [setController, hidle]
    · have hzero := h.idle c hidle
      simpa [modeOf, setController] using hzero
    · simp [setController, hd]
    · rw [h.idle c hidle, List.erase_of_not_mem hout, and_not_zero]
      rfl
  · obtain rfl := hfd.resolve_left hidle
    obtain ⟨rfl, hne⟩ := hok hidle
    have he := h.fdControllers hidle
    have hpoller := (isSome_iff_of_poller (h.poller _)).mpr hne
    generalize hentry : m.entry (m.controllers c).fd = e at he
    have hevents : (e.mode &&& ~~~m.modeOf c) &&& kWatchReadWrite = e.mode &&& ~~~m.modeOf c :=
      hentry ▸ h.clear_bits (m.controllers c).fd (m.modeOf c)
    have hrun : m.stopWatchingFileDescriptorNoLock true c =
        some ((m.setController c { m.controllers c with task := none }).leaveEntry true
          (m.controllers c).fd c ⟨e.mode &&& ~~~m.modeOf c, e.controllers.erase c⟩) := by
      simp only [stopWatchingFileDescriptorNoLock, if_neg hidle]
      exact Option.bind_eq_some_iff.mpr ⟨e, he, rfl⟩
    have hleave := leaveEntry_eq (m.setController c { m.controllers c with task := none }) c
      ⟨e.mode &&& ~~~m.modeOf c, e.controllers.erase c⟩ hpoller hevents
    refine ⟨_, hrun.trans (congrArg some hleave), ⟨?_, ?_⟩, fun d hd => ?_, ?_,
      fun fd' hfd' => entry_of_table_of_ne rfl hfd', ?_⟩
    · simp [setController, Controller.new]
    · simp [modeOf, setController, Controller.new]
    · simp [setController, setEntry, hd]
    · rw [hentry]
      exact entry_of_table rfl
    · exact pollerFor_eq (fun fd' _ => h.poller fd') rfl (entry_of_table rfl)
        fun fd' hfd' => entry_of_table_of_ne rfl hfd'

theorem stop_spec {m : IOManager} (h : Inv m) {c : ControllerPtr} {fd : Int}
    (hfd : (m.controllers c).fd = -1 ∨ (m.controllers c).fd = fd) :
    ∃ m', m.stopWatchingFileDescriptorNoLock true c = some (true, m') ∧ Freed m c fd m' := by
  refine stop_freed h.registered true hfd fun hidle => ⟨rfl, ?_⟩
  rw [← hfd.resolve_left hidle, h.mode_eq hidle, Ne, or_eq_zero_iff]
  exact fun hz => (h.valid c hidle).ne_zero hz.1

/-- A controller that has left the only entry it can be in is in none. -/
theorem Listed.notMem_of_erase {m m' : IOManager} {c : ControllerPtr} {fd : Int} (h : Listed m)
    (hfd : (m.controllers c).fd = -1 ∨ (m.controllers c).fd = fd)
    (hentry : (m'.entry fd).controllers = (m.entry fd).controllers.erase c)
    (hentries : ∀ fd', fd' ≠ fd → m'.entry fd' = m.entry fd') (fd' : Int) :
    c ∉ (m'.entry fd').controllers := by
  by_cases hfd' : fd' = fd
  · subst hfd'
    rw [hentry]
    exact (h.nodup fd').not_mem_erase
  · rw [hentries fd' hfd', h.mem_iff]
    rintro ⟨hne, heq⟩
    rcases hfd with hidle | hsame
    · exact hne (heq.symm.trans hidle)
    · exact hfd' (heq.symm.trans hsame)

/-- The other controllers are listed as before. -/
theorem Listed.count_of_erase {m m' : IOManager} {c d : ControllerPtr} {fd : Int} (h : Listed m)
    (hd : d ≠ c) (hcontroller : m'.controllers d = m.controllers d)
    (hentry : (m'.entry fd).controllers = (m.entry fd).controllers.erase c)
    (hentries : ∀ fd', fd' ≠ fd → m'.entry fd' = m.entry fd') (fd' : Int) :
    (m'.entry fd').controllers.count d =
      if fd' ≠ -1 ∧ (m'.controllers d).fd = fd' then 1 else 0 := by
  rw [hcontroller, ← h d fd']
  by_cases hfd' : fd' = fd
  · subst hfd'
    rw [hentry]
    exact List.count_erase_of_ne hd
  · rw [hentries fd' hfd']

theorem Freed.notMem {m m' : IOManager} {c : ControllerPtr} {fd : Int} (h : Listed m)
    (hf : Freed m c fd m') (hfd : (m.controllers c).fd = -1 ∨ (m.controllers c).fd = fd)
    (fd' : Int) : c ∉ (m'.entry fd').controllers :=
  h.notMem_of_erase hfd (congrArg FDAndControllers.controllers hf.entry) hf.entries fd'

/-- After the controller has left, all but the mode of its old entry agrees. -/
theorem Freed.listed {m m' : IOManager} {c : ControllerPtr} {fd : Int} (h : Listed m)
    (hf : Freed m c fd m') (hfd : (m.controllers c).fd = -1 ∨ (m.controllers c).fd = fd) :
    Listed m' := by
  intro d fd'
  by_cases hdc : d = c
  · subst hdc
    have hnot : ¬(fd' ≠ -1 ∧ (m'.controllers d).fd = fd') := fun hw => by
      rw [hf.controller.1] at hw
      exact hw.1 hw.2.symm
    rw [if_neg hnot, List.count_eq_zero]
    exact hf.notMem h hfd fd'
  · exact h.count_of_erase hdc (hf.controllers d hdc)
      (congrArg FDAndControllers.controllers hf.entry) hf.entries fd'

theorem Freed.registered {m m' : IOManager} {c : ControllerPtr} {fd : Int} (h : Registered m)
    (hfd : (m.controllers c).fd = -1 ∨ (m.controllers c).fd = fd) (hf : Freed m c fd m') :
    Registered m' := by
  refine ⟨hf.listed h.listed hfd, hf.poller, fun fd' => ?_, fun d hd => ?_⟩
  · by_cases hfd' : fd' = fd
    · subst hfd'
      rw [hf.entry]
      exact h.clear_bits fd' (m.modeOf c)
    · rw [hf.entries fd' hfd']
      exact h.bits fd'
  · by_cases hdc : d = c
    · subst hdc
      exact hf.controller.2
    · rw [hf.controllers d hdc] at hd
      rw [modeOf, hf.controllers d hdc]
      exact h.idle d hd

/-- The controller is out of the table, whether or not the poller has followed. -/
structure Left (m : IOManager) (c : ControllerPtr) (fd : Int) (m' : IOManager) : Prop where
  controllers : ∀ d, d ≠ c → m'.controllers d = m.controllers d
  entry : m'.entry fd =
    ⟨(m.entry fd).mode &&& ~~~m.modeOf c, (m.entry fd).controllers.erase c⟩
  entries : ∀ fd', fd' ≠ fd → m'.entry fd' = m.entry fd'
  poller : ∀ fd', fd' ≠ fd → m'.poller fd' = m.poller fd'

theorem Freed.left {m m' : IOManager} {c : ControllerPtr} {fd : Int} (h : Registered m)
    (hf : Freed m c fd m') : Left m c fd m' := by
  refine ⟨hf.controllers, hf.entry, hf.entries, fun fd' hfd' => ?_⟩
  rw [hf.poller, hf.entries fd' hfd', h.poller]

/-- The modes of the other controllers are what they were. -/
theorem Freed.orAll_eq {m m' : IOManager} {c : ControllerPtr} {fd : Int} (hf : Freed m c fd m')
    {l : List ControllerPtr} (hc : c ∉ l) : orAll m'.modeOf l = orAll m.modeOf l := by
  refine orAll_congr fun d hd => ?_
  rw [modeOf, modeOf, hf.controllers d fun heq => hc (heq ▸ hd)]

theorem Freed.mode_of_ne {m m' : IOManager} {c : ControllerPtr} {fd fd' : Int} (h : Inv m)
    (hf : Freed m c fd m') (hfd : (m.controllers c).fd = -1 ∨ (m.controllers c).fd = fd)
    (hne : fd' ≠ fd) : (m'.entry fd').mode = orAll m'.modeOf (m'.entry fd').controllers := by
  rw [hf.orAll_eq (hf.notMem h.listed hfd fd'), hf.entries fd' hne]
  exact h.agrees.mode fd'

/-- Stopping leaves a table that agrees exactly when the controller shares no bit. -/
theorem Freed.agrees_iff {m m' : IOManager} {c : ControllerPtr} (h : Inv m)
    (hf : Freed m c (m.controllers c).fd m') :
    TableAgrees m' ↔ m.modeOf c &&& m.othersMode c = 0 := by
  generalize hfd : (m.controllers c).fd = fd at hf
  have hlisted := hf.listed h.listed (Or.inr hfd)
  have hout : c ∉ (m.entry fd).controllers.erase c := (h.listed.nodup fd).not_mem_erase
  have hothers : m.othersMode c = orAll m.modeOf ((m.entry fd).controllers.erase c) := by
    rw [othersMode, hfd]
  have hiff : (m'.entry fd).mode = orAll m'.modeOf (m'.entry fd).controllers ↔
      m.modeOf c &&& m.othersMode c = 0 := by
    rw [hf.entry, hf.orAll_eq hout, ← hothers]
    by_cases hidle : fd = -1
    · -- an idle controller has no bits, and no entry has it
      have hzero := h.idle c (hfd.trans hidle)
      have hnone : (m.entry fd).controllers = [] := by
        refine List.eq_nil_iff_forall_not_mem.mpr fun d hd => ?_
        exact ((h.listed.mem_iff d fd).mp hd).1 hidle
      rw [hothers, hnone, hzero, and_not_zero, h.agrees.mode, hnone]
      simp
    · have hmode := h.mode_eq (hfd ▸ hidle)
      rw [hfd] at hmode
      rw [hmode]
      exact clear_eq_iff (m.othersMode c) (m.modeOf c)
  rw [← hiff]
  refine ⟨fun hagrees => hagrees.mode fd, fun hmode => ?_⟩
  refine TableAgrees.of_table (fun fd' => ?_) hf.poller hlisted
  by_cases hfd' : fd' = fd
  · exact hfd' ▸ hmode
  · exact hf.mode_of_ne h (Or.inr hfd) hfd'

/-! ### What a watch does -/

theorem enterEntry_eq (m : IOManager) {fd : Int} {mode : Mode} (watcher : WatcherPtr)
    (c : ControllerPtr) (hvalid : ValidMode mode)
    (hpoller : (m.poller fd).isSome = true ↔ (m.entry fd).mode ≠ 0)
    (hevents : (m.entry fd).mode &&& kWatchReadWrite = (m.entry fd).mode) :
    m.enterEntry true fd mode watcher c (m.entry fd) = (true,
      ({ m.setEntry fd (m.entry fd) with
        poller := pollerFor m.poller fd ((m.entry fd).mode ||| mode) }.setController c
          { m.controllers c with fd := fd, mode := mode, watcher := some watcher }).setEntry fd
        ⟨(m.entry fd).mode ||| mode, (m.entry fd).controllers ++ [c]⟩) := by
  have hne : (m.entry fd).mode ||| mode ≠ 0 := fun hzero =>
    hvalid.ne_zero ((or_eq_zero_iff _ _).mp hzero).2
  have hcall : (if (m.entry fd).mode = 0 then m.poller.addFd true fd mode
      else m.poller.updateFd true fd (mode ||| (m.entry fd).mode)) =
      some (pollerFor m.poller fd ((m.entry fd).mode ||| mode)) := by
    have hand : ((m.entry fd).mode ||| mode) &&& kWatchReadWrite = (m.entry fd).mode ||| mode := by
      rw [BitVec.and_or_distrib_right, hvalid.and, hevents]
    unfold pollerFor
    rw [if_neg hne]
    split_ifs with hzero
    · have hnone : (m.poller fd).isNone = true := by
        rw [← Option.not_isSome, Bool.not_eq_true', ← Bool.not_eq_true, hpoller]
        exact not_not.mpr hzero
      simp [IOPoller.addFd, hnone, IOPoller.events, hvalid.and, hzero]
    · simp [IOPoller.updateFd, hpoller.mpr hzero, IOPoller.events, hand, BitVec.or_comm mode]
  simp only [enterEntry, setEntry, hcall]

/-- The controller has joined the entry of `fd`. -/
structure Entered (m : IOManager) (c : ControllerPtr) (fd : Int) (mode : Mode) (m' : IOManager) :
    Prop where
  controller : (m'.controllers c).fd = fd ∧ m'.modeOf c = mode
  controllers : ∀ d, d ≠ c → m'.controllers d = m.controllers d
  entry : m'.entry fd = ⟨(m.entry fd).mode ||| mode, (m.entry fd).controllers ++ [c]⟩
  entries : ∀ fd', fd' ≠ fd → m'.entry fd' = m.entry fd'
  poller : ∀ fd', m'.poller fd' =
    if (m'.entry fd').mode = 0 then none else some (m'.entry fd').mode

/-- A watch with an accepted poller operation, after the controller has left the entry. -/
theorem enterEntry_entered {m : IOManager} {fd : Int} {mode : Mode} (watcher : WatcherPtr)
    (c : ControllerPtr) (hvalid : ValidMode mode)
    (hpoller : (m.poller fd).isSome = true ↔ (m.entry fd).mode ≠ 0)
    (hothers : ∀ fd', fd' ≠ fd →
      m.poller fd' = if (m.entry fd').mode = 0 then none else some (m.entry fd').mode)
    (hevents : (m.entry fd).mode &&& kWatchReadWrite = (m.entry fd).mode) :
    ∃ m', m.enterEntry true fd mode watcher c (m.entry fd) = (true, m') ∧
      Entered m c fd mode m' := by
  refine ⟨_, enterEntry_eq m watcher c hvalid hpoller hevents, ⟨?_, ?_⟩, fun d hd => ?_,
    entry_of_table rfl, fun fd' hfd' => ?_, ?_⟩
  · simp [setController, setEntry]
  · simp [modeOf, setController, setEntry]
  · simp [setController, setEntry, hd]
  · simp [IOManager.entry, setController, setEntry, hfd']
  · refine pollerFor_eq hothers rfl (entry_of_table rfl) fun fd' hfd' => ?_
    simp [IOManager.entry, setController, setEntry, hfd']

/-- A watch of a controller that is idle or watches the same descriptor: first the stop, then the
rest. -/
theorem watchFileDescriptor_eq {m m1 : IOManager} {okStop ok stopped : Bool} {fd : Int} {mode : Mode}
    {watcher : WatcherPtr} {c : ControllerPtr}
    (hfd : (m.controllers c).fd = -1 ∨ (m.controllers c).fd = fd)
    (hstop : m.stopWatchingFileDescriptorNoLock okStop c = some (stopped, m1)) :
    m.watchFileDescriptor okStop ok fd mode watcher c =
      some (m1.enterEntry ok fd mode watcher c (m1.entry fd)) := by
  have hnot : ¬((m.controllers c).fd ≠ -1 ∧ (m.controllers c).fd ≠ fd) := fun hw =>
    hfd.elim hw.1 hw.2
  simp only [watchFileDescriptor, if_neg hnot]
  exact Option.bind_eq_some_iff.mpr ⟨(stopped, m1), hstop, rfl⟩

theorem watch_spec {m : IOManager} (h : Inv m) {fd : Int} {mode : Mode} (watcher : WatcherPtr)
    {c : ControllerPtr} (hvalid : ValidMode mode)
    (hfd : (m.controllers c).fd = -1 ∨ (m.controllers c).fd = fd) :
    ∃ m1 m', m.stopWatchingFileDescriptorNoLock true c = some (true, m1) ∧ Freed m c fd m1 ∧
      m.watchFileDescriptor true true fd mode watcher c = some (true, m') ∧
      Entered m1 c fd mode m' := by
  obtain ⟨m1, hstop, hf⟩ := stop_spec h hfd
  have hevents : (m1.entry fd).mode &&& kWatchReadWrite = (m1.entry fd).mode := by
    rw [hf.entry]
    exact h.registered.clear_bits fd (m.modeOf c)
  obtain ⟨m', henter, he⟩ := enterEntry_entered watcher c hvalid
    (isSome_iff_of_poller (hf.poller fd)) (fun fd' _ => hf.poller fd') hevents
  exact ⟨m1, m', hstop, hf, (watchFileDescriptor_eq hfd hstop).trans (congrArg some henter), he⟩

/-- The modes of the controllers listed before are what they were. -/
theorem Entered.orAll_eq {m m' : IOManager} {c : ControllerPtr} {fd : Int} {mode : Mode}
    (he : Entered m c fd mode m') {l : List ControllerPtr} (hc : c ∉ l) :
    orAll m'.modeOf l = orAll m.modeOf l := by
  refine orAll_congr fun d hd => ?_
  rw [modeOf, modeOf, he.controllers d fun heq => hc (heq ▸ hd)]

/-- A controller that no entry has joins one of them. -/
theorem Entered.listed {m m' : IOManager} {c : ControllerPtr} {fd : Int} {mode : Mode}
    (he : Entered m c fd mode m') (hneg : fd ≠ -1)
    (hlisted : ∀ d, d ≠ c → ∀ fd', (m.entry fd').controllers.count d =
      if fd' ≠ -1 ∧ (m.controllers d).fd = fd' then 1 else 0)
    (hout : ∀ fd', c ∉ (m.entry fd').controllers) : Listed m' := by
  intro d fd'
  by_cases hdc : d = c
  · subst hdc
    have hzero : (m.entry fd').controllers.count d = 0 := List.count_eq_zero.mpr (hout fd')
    by_cases hfd' : fd' = fd
    · subst hfd'
      rw [he.entry, List.count_append, hzero, if_pos ⟨hneg, he.controller.1⟩]
      simp
    · rw [he.entries fd' hfd', hzero, if_neg]
      exact fun hw => hfd' (hw.2.symm.trans he.controller.1)
  · rw [he.controllers d hdc, ← hlisted d hdc]
    by_cases hfd' : fd' = fd
    · subst hfd'
      rw [he.entry, List.count_append, List.count_singleton]
      simp [Ne.symm hdc]
    · rw [he.entries fd' hfd']

/-- A controller that has left the entry of `fd` and joins it again: the table is in order. -/
theorem Left.registered {m m1 m' : IOManager} {c : ControllerPtr} {fd : Int} {mode : Mode}
    (h : Registered m) (hnonneg : 0 ≤ fd) (hvalid : ValidMode mode)
    (hfd : (m.controllers c).fd = -1 ∨ (m.controllers c).fd = fd) (hleft : Left m c fd m1)
    (he : Entered m1 c fd mode m') : Registered m' := by
  have hneg : fd ≠ -1 := by omega
  have hcontrollers := congrArg FDAndControllers.controllers hleft.entry
  have hout := h.listed.notMem_of_erase hfd hcontrollers hleft.entries
  have hlisted := he.listed hneg (fun d hd =>
    h.listed.count_of_erase hd (hleft.controllers d hd) hcontrollers hleft.entries) hout
  refine ⟨hlisted, he.poller, fun fd' => ?_, fun d hd => ?_⟩
  · by_cases hfd' : fd' = fd
    · subst hfd'
      rw [he.entry, hleft.entry]
      dsimp only
      rw [BitVec.and_or_distrib_right, hvalid.and, h.clear_bits]
    · rw [he.entries fd' hfd', hleft.entries fd' hfd']
      exact h.bits fd'
  · by_cases hdc : d = c
    · subst hdc
      rw [he.controller.1] at hd
      exact absurd hd hneg
    · rw [he.controllers d hdc, hleft.controllers d hdc] at hd
      rw [modeOf, he.controllers d hdc, hleft.controllers d hdc]
      exact h.idle d hd

/-- The bits of an entry are those of a controller that is idle or listed there and the rest, and
the bits the controller shares are bits of the rest. -/
theorem Inv.mode_split {m : IOManager} (h : Inv m) {c : ControllerPtr} {fd : Int} (hneg : fd ≠ -1)
    (hfd : (m.controllers c).fd = -1 ∨ (m.controllers c).fd = fd) {rest : Mode}
    (hrest : orAll m.modeOf ((m.entry fd).controllers.erase c) = rest) :
    (m.entry fd).mode = m.modeOf c ||| rest ∧
      m.modeOf c &&& m.othersMode c = m.modeOf c &&& rest := by
  rcases hfd with hidle | hsame
  · have hnot : c ∉ (m.entry fd).controllers := fun hin =>
      hneg (((h.listed.mem_iff c fd).mp hin).2.symm.trans hidle)
    rw [List.erase_of_not_mem hnot, ← h.agrees.mode] at hrest
    rw [h.idle c hidle, hrest]
    simp
  · have hmode := h.mode_eq (hsame ▸ hneg)
    rw [othersMode] at hmode ⊢
    rw [hsame, hrest] at hmode
    rw [hsame, hrest]
    exact ⟨hmode, rfl⟩

/-- Watching leaves a table that agrees exactly when the controller keeps the bits it shares. -/
theorem Entered.agrees_iff {m m1 m' : IOManager} {c : ControllerPtr} {fd : Int} {mode : Mode}
    (h : Inv m) (hnonneg : 0 ≤ fd) (hfd : (m.controllers c).fd = -1 ∨ (m.controllers c).fd = fd)
    (hf : Freed m c fd m1) (he : Entered m1 c fd mode m') :
    TableAgrees m' ↔ m.modeOf c &&& m.othersMode c &&& ~~~mode = 0 := by
  have hneg : fd ≠ -1 := by omega
  have hout := hf.notMem h.listed hfd
  have hiff : (m'.entry fd).mode = orAll m'.modeOf (m'.entry fd).controllers ↔
      m.modeOf c &&& m.othersMode c &&& ~~~mode = 0 := by
    generalize hrest : orAll m.modeOf ((m.entry fd).controllers.erase c) = rest
    obtain ⟨hentry, hshared⟩ := h.mode_split hneg hfd hrest
    have hold : orAll m1.modeOf (m1.entry fd).controllers = rest := by
      rw [hf.entry, hf.orAll_eq (h.listed.nodup fd).not_mem_erase, hrest]
    have hsingle : orAll m'.modeOf [c] = mode := by
      rw [orAll_cons, orAll_nil, he.controller.2]
      exact BitVec.or_zero
    rw [he.entry, orAll_append, he.orAll_eq (hout fd), hold, hsingle, hf.entry, hentry, hshared]
    exact clear_set_eq_iff rest (m.modeOf c) mode
  rw [← hiff]
  refine ⟨fun hagrees => hagrees.mode fd, fun hmode => ?_⟩
  refine TableAgrees.of_table (fun fd' => ?_) he.poller
    (he.listed hneg (fun d _ => hf.listed h.listed hfd d) hout)
  by_cases hfd' : fd' = fd
  · exact hfd' ▸ hmode
  · rw [he.entries fd' hfd', he.orAll_eq (hout fd')]
    exact hf.mode_of_ne h hfd hfd'

/-! ### Every sequence of calls -/

/-- One call: the modes stay valid, and the table agrees afterwards exactly when no shared bit was
cleared. -/
theorem step_spec {m m' : IOManager} {a : Action} (h : Inv m) (hstep : step m a = some m') :
    (∀ c, (m'.controllers c).fd ≠ -1 → ValidMode (m'.modeOf c)) ∧
      (∀ c, (m'.controllers c).fd = -1 → m'.modeOf c = 0) ∧ (TableAgrees m' ↔ KeepsOthers m a) := by
  cases a with
  | stop c =>
      obtain ⟨m1, hstop, hf⟩ := stop_spec h (Or.inr (rfl : (m.controllers c).fd = _))
      simp only [step, hstop, Option.bind_eq_bind, Option.bind_some, if_true,
        Option.some.injEq] at hstep
      subst hstep
      refine ⟨fun d hd => ?_, (hf.registered h.registered (Or.inr rfl)).idle, hf.agrees_iff h⟩
      by_cases hdc : d = c
      · subst hdc
        exact absurd hf.controller.1 hd
      · rw [modeOf, hf.controllers d hdc] at *
        exact h.valid d hd
  | watch fd mode watcher c =>
      simp only [step] at hstep
      split_ifs at hstep with hok hother
      · obtain ⟨hnonneg, hvalid⟩ := hok
        have hrefused : m.watchFileDescriptor true true fd mode watcher c = some (false, m) := by
          simp only [watchFileDescriptor, if_pos hother]
        rw [hrefused] at hstep
        cases hstep
        refine ⟨h.valid, h.idle, ⟨fun _ hfd => ?_, fun _ => h.agrees⟩⟩
        exact absurd hother fun hw => hfd.elim hw.1 hw.2
      · obtain ⟨hnonneg, hvalid⟩ := hok
        have hfd : (m.controllers c).fd = -1 ∨ (m.controllers c).fd = fd := by
          by_contra hnot
          exact hother (not_or.mp hnot)
        obtain ⟨m1, m2, hstop, hf, hwatch, he⟩ := watch_spec h watcher hvalid hfd
        simp only [hwatch, hstop, Option.bind_eq_bind, Option.bind_some, Bool.and_self, if_true,
          Option.some.injEq] at hstep
        subst hstep
        have hregistered : Registered m2 :=
          (hf.left h.registered).registered h.registered hnonneg hvalid hfd he
        refine ⟨fun d hd => ?_, hregistered.idle, (he.agrees_iff h hnonneg hfd hf).trans
          ⟨fun hkeep _ => hkeep, fun hkeep => hkeep hfd⟩⟩
        by_cases hdc : d = c
        · subst hdc
          rw [he.controller.2]
          exact hvalid
        · rw [modeOf, he.controllers d hdc, hf.controllers d hdc] at *
          exact h.valid d hd

/-- The table agrees with the registrations along a sequence of calls if and only if no call of it
clears a bit that another controller of the same descriptor shares. -/
theorem table_agrees_iff (actions : List Action) :
    Transition.Along step TableAgrees new actions ↔
      Transition.Meets step KeepsOthers new actions := by
  refine Transition.along_iff_meets (fun m a m' (h : Inv m) hkeep hstep => ?_)
    (fun m a m' h hmiss hstep => ?_) (fun m h => h.agrees) new_inv
  · obtain ⟨hvalid, hidle, hiff⟩ := step_spec h hstep
    exact ⟨hiff.mpr hkeep, hvalid, hidle⟩
  · exact fun hagrees => hmiss ((step_spec h hstep).2.2.mp hagrees)

/-- Two controllers read one descriptor; one is stopped, and the poller no longer watches the
descriptor for the other, which is still listed. -/
theorem table_disagrees_shared_read :
    ∃ m, Transition.run step new
        [.watch 5 kWatchRead 0 1, .watch 5 kWatchRead 0 2, .stop 1] = some m ∧
      (m.controllers 2).fd = 5 ∧ (m.entry 5).controllers = [2] ∧ m.modeOf 2 = kWatchRead ∧
      (m.entry 5).mode = 0 ∧ m.poller 5 = none ∧ ¬TableAgrees m := by
  refine ⟨_, rfl, ?_⟩
  refine ⟨by decide, by decide, by decide, by decide, by decide, fun h => ?_⟩
  exact absurd (h.mode 5) (by decide)

end Iomgr.IOManager
