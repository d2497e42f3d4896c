import Iomgr.Task

/-!
What happens to a task over its whole history. Threads call `Run` and `CancelTask` in any order and
any number; a caller of `CancelTask` need not wait afterwards. The state alone does not tell the
history: a cancel overwrites `kRunning`, and the end of `Run` overwrites `kCanceled`. So the entries
of the functor and the cancels of a pending task are recorded.
-/

namespace Iomgr.Task

variable {Thread : Type}

/-- A step of a call, or the return of a `CancelTask` that no wait follows. -/
inductive HistoryAction (Thread : Type)
  | task (a : Action Thread)
  | leave (t : Thread)
  deriving DecidableEq, Repr

/-- The task and its threads, how often the functor was entered, and whether a compare-exchange of
`CancelTask` has taken the task from `kPending` to `kCanceled`. -/
structure History (Thread : Type) where
  system : System Thread
  entries : Nat
  cancelledPending : Bool

namespace History

def new (functor : Bool) : History Thread := ⟨System.new functor, 0, false⟩

def state (h : History Thread) : TaskState := h.system.task.taskState

def pc (h : History Thread) (t : Thread) : Pc := h.system.pc t

end History

/-- The step calls `functor_`. -/
def enters (s : System Thread) : Action Thread → Bool
  | .call _ _ => false
  | .step t => decide (s.pc t = .runFunctor) && s.task.functor

/-- The step is a compare-exchange of `CancelTask` that succeeds from `kPending`. -/
def cancelsPending (s : System Thread) : Action Thread → Bool
  | .call _ _ => false
  | .step t => decide (s.pc t = .cancelCas .kPending) && decide (s.task.taskState = .kPending)

section Step

variable [DecidableEq Thread]

def historyStep (h : History Thread) : HistoryAction Thread → Option (History Thread)
  | .task a => do
      let s ← step h.system a
      some ⟨s, h.entries + (enters h.system a).toNat,
        h.cancelledPending || cancelsPending h.system a⟩
  | .leave t =>
      if h.pc t = .waitLoadRunner then some { h with system := h.system.goto t .idle } else none

end Step

/-- Between the successful compare-exchange of `Run` and the test of `functor_`. -/
def Pc.beforeEntry : Pc → Bool
  | .runStoreRunner | .runFunctor => true
  | _ => false

theorem Pc.inRun_of_beforeEntry {pc : Pc} (h : pc.beforeEntry = true) : pc.inRun = true := by
  cases pc <;> simp_all [Pc.beforeEntry, Pc.inRun]

/-- What a step of thread `t` can do to the task's state and to its own place: start the task, cancel
it, go on in `Run` towards its end, or go on outside of `Run`. -/
inductive Effect (s : System Thread) (t : Thread) (s' : System Thread) : Prop
  | start (hpc : s.pc t = .runCas) (hstate : s.task.taskState = .kPending)
      (hstate' : s'.task.taskState = .kRunning) (hpc' : s'.pc t = .runStoreRunner)
  | cancel (state : TaskState) (hpc : s.pc t = .cancelCas state)
      (hstate : s.task.taskState = state) (hstate' : s'.task.taskState = .kCanceled)
      (hpc' : s'.pc t = .waitLoadRunner)
  | run (hpc : (s.pc t).inRun = true)
      (hstate : s'.task.taskState = s.task.taskState ∨ s'.task.taskState = .kCompleted)
      (hentry : (s'.pc t).beforeEntry = true → s.pc t = .runStoreRunner)
      (hcall : s'.pc t ≠ .runCas)
  | outside (hpc : (s.pc t).inRun = false) (hcas : s.pc t ≠ .cancelCas s.task.taskState)
      (hstate : s'.task.taskState = s.task.taskState) (hpc' : (s'.pc t).inRun = false)
      (hcall : s'.pc t = .runCas → s.pc t = .idle)

section Cases

variable [DecidableEq Thread]

/-- A step of `Run` that leaves the thread at `pc`. -/
theorem effect_run {s s' : System Thread} {t : Thread} {pc : Pc} (hpc : (s.pc t).inRun = true)
    (hpc' : s'.pc = Function.update s.pc t pc)
    (hstate : s'.task.taskState = s.task.taskState ∨ s'.task.taskState = .kCompleted)
    (hentry : pc.beforeEntry = true → s.pc t = .runStoreRunner) (hcall : pc ≠ .runCas) :
    Effect s t s' ∧ ∀ u, u ≠ t → s'.pc u = s.pc u := by
  have hself : s'.pc t = pc := by rw [hpc', Function.update_self]
  exact ⟨.run hpc hstate (hself ▸ hentry) (hself ▸ hcall),
    fun u hu => by rw [hpc', Function.update_of_ne hu]⟩

/-- A step outside of `Run` that leaves the task alone. -/
theorem effect_outside {s s' : System Thread} {t : Thread} {pc : Pc} (hpc : (s.pc t).inRun = false)
    (hcas : s.pc t ≠ .cancelCas s.task.taskState) (hpc' : s'.pc = Function.update s.pc t pc)
    (htask : s'.task = s.task) (hout : pc.inRun = false) (hcall : pc = .runCas → s.pc t = .idle) :
    Effect s t s' ∧ ∀ u, u ≠ t → s'.pc u = s.pc u := by
  have hself : s'.pc t = pc := by rw [hpc', Function.update_self]
  exact ⟨.outside hpc hcas (by rw [htask]) (hself ▸ hout) (hself ▸ hcall),
    fun u hu => by rw [hpc', Function.update_of_ne hu]⟩

theorem effect_goto {s : System Thread} {t : Thread} {pc : Pc} (hpc : (s.pc t).inRun = false)
    (hcas : s.pc t ≠ .cancelCas s.task.taskState) (hout : pc.inRun = false)
    (hcall : pc = .runCas → s.pc t = .idle) :
    Effect s t (s.goto t pc) ∧ ∀ u, u ≠ t → (s.goto t pc).pc u = s.pc u :=
  effect_outside hpc hcas rfl rfl hout hcall

theorem stepThread_effect {s s' : System Thread} {t : Thread} (hstep : stepThread s t = some s') :
    Effect s t s' ∧ ∀ u, u ≠ t → s'.pc u = s.pc u := by
  cases hpc : s.pc t with
  | idle =>
      simp only [stepThread, hpc] at hstep
      cases hstep
  | runCas =>
      simp only [stepThread, hpc] at hstep
      split_ifs at hstep with hstate
      · cases hstep
        exact ⟨.start hpc hstate rfl (goto_pc_self _ _ _), fun u hu => goto_pc_other _ _ hu⟩
      · cases hstep
        exact effect_outside (by rw [hpc]; rfl) (by simp [hpc]) rfl rfl rfl (by simp)
  | runStoreRunner =>
      simp only [stepThread, hpc] at hstep
      cases hstep
      exact effect_run (by rw [hpc]; rfl) rfl (Or.inl rfl) (fun _ => hpc) (by simp)
  | runFunctor =>
      simp only [stepThread, hpc] at hstep
      cases hstep
      have ht : (s.pc t).inRun = true := by rw [hpc]; rfl
      split_ifs
      · exact effect_run ht rfl (Or.inl rfl) (by simp [Pc.beforeEntry]) (by simp)
      · exact effect_run ht rfl (Or.inl rfl) (by simp [Pc.beforeEntry]) (by simp)
  | inFunctor =>
      simp only [stepThread, hpc] at hstep
      cases hstep
      exact effect_run (by rw [hpc]; rfl) rfl (Or.inl rfl) (by simp [Pc.beforeEntry]) (by simp)
  | runStoreCompleted =>
      simp only [stepThread, hpc] at hstep
      cases hstep
      exact effect_run (by rw [hpc]; rfl) rfl (Or.inr rfl) (by simp [Pc.beforeEntry]) (by simp)
  | runNotify =>
      simp only [stepThread, hpc] at hstep
      cases hstep
      exact effect_run (by rw [hpc]; rfl) rfl (Or.inl rfl) (by simp [Pc.beforeEntry]) (by simp)
  | runClearRunner =>
      simp only [stepThread, hpc] at hstep
      cases hstep
      exact effect_run (by rw [hpc]; rfl) rfl (Or.inl rfl) (by simp [Pc.beforeEntry]) (by simp)
  | cancelLoad =>
      have hout : (s.pc t).inRun = false := by rw [hpc]; rfl
      simp only [stepThread, hpc] at hstep
      split at hstep
      all_goals
        cases hstep
        exact effect_outside hout (by simp [hpc]) rfl rfl rfl (by simp)
  | cancelCas state =>
      simp only [stepThread, hpc] at hstep
      split_ifs at hstep with hstate
      · cases hstep
        exact ⟨.cancel state hpc hstate rfl (goto_pc_self _ _ _), fun u hu => goto_pc_other _ _ hu⟩
      · cases hstep
        refine effect_outside (by rw [hpc]; rfl) (fun heq => ?_) rfl rfl rfl (by simp)
        rw [hpc] at heq
        exact hstate (Pc.cancelCas.inj heq).symm
  | waitLoadRunner =>
      have hout : (s.pc t).inRun = false := by rw [hpc]; rfl
      simp only [stepThread, hpc] at hstep
      split_ifs at hstep
      all_goals
        cases hstep
        exact effect_outside hout (by simp [hpc]) rfl rfl rfl (by simp)
  | waitLoadState =>
      have hout : (s.pc t).inRun = false := by rw [hpc]; rfl
      simp only [stepThread, hpc] at hstep
      split_ifs at hstep
      all_goals
        cases hstep
        exact effect_outside hout (by simp [hpc]) rfl rfl rfl (by simp)
  | waitNotification =>
      simp only [stepThread, hpc] at hstep
      split_ifs at hstep
      cases hstep
      exact effect_outside (by rw [hpc]; rfl) (by simp [hpc]) rfl rfl rfl (by simp)

/-- `Run` is only entered by a call. -/
theorem stepThread_ne_runCas {s s' : System Thread} {t : Thread}
    (hstep : stepThread s t = some s') : s'.pc t ≠ .runCas := by
  intro hcall
  cases (stepThread_effect hstep).1 with
  | start hpc hstate hstate' hpc' => cases hpc'.symm.trans hcall
  | cancel state hpc hstate hstate' hpc' => cases hpc'.symm.trans hcall
  | run hpc hstate hentry hne => exact hne hcall
  | outside hpc hcas hstate hpc' hidle =>
      simp only [stepThread, hidle hcall] at hstep
      cases hstep

end Cases

/-- No step takes a task back to `kPending`. -/
theorem Effect.state_ne {s s' : System Thread} {t : Thread} (h : Effect s t s')
    (hne : s.task.taskState ≠ .kPending) : s'.task.taskState ≠ .kPending := by
  cases h with
  | start hpc hstate hstate' hpc' => exact absurd hstate hne
  | cancel state hpc hstate hstate' hpc' =>
      rw [hstate']
      nofun
  | run hpc hstate hentry hcall =>
      rcases hstate with hsame | hdone
      · rw [hsame]
        exact hne
      · rw [hdone]
        nofun
  | outside hpc hcas hstate hpc' hcall =>
      rw [hstate]
      exact hne

/-! ### Every interleaving -/

/-- What the history has been: a pending task is untouched, one thread at most runs the task, it has
not yet entered the functor while it is on its way there, and a task that was cancelled while pending
is never run. -/
structure HistoryInv (h : History Thread) : Prop where
  untouched : h.state = .kPending → h.entries = 0 ∧ h.cancelledPending = false ∧
    ∀ t, (h.pc t).inRun = false
  unique : ∀ t u, (h.pc t).inRun = true → (h.pc u).inRun = true → t = u
  before : ∀ t, (h.pc t).beforeEntry = true → h.entries = 0
  once : h.entries ≤ 1
  never : h.cancelledPending = true → h.entries = 0 ∧ ∀ t, (h.pc t).inRun = false

theorem new_historyInv (functor : Bool) : HistoryInv (History.new functor : History Thread) where
  untouched _ := ⟨rfl, rfl, fun _ => rfl⟩
  unique _ _ := nofun
  before _ := nofun
  once := Nat.zero_le 1
  never := nofun

namespace HistoryInv

variable {h h' : History Thread} {t : Thread}

/-- A step that ends outside of `Run` and enters nothing. Only a pending task may be recorded as
cancelled by it. -/
theorem outside (hinv : HistoryInv h) (hother : ∀ u, u ≠ t → h'.pc u = h.pc u)
    (hout : (h'.pc t).inRun = false) (hcount : h'.entries = h.entries)
    (hstate : h'.state = .kPending → h.state = .kPending ∧
      h'.cancelledPending = h.cancelledPending)
    (hcancelled : h'.cancelledPending = true → h.cancelledPending = true ∨ h.state = .kPending) :
    HistoryInv h' := by
  have hback : ∀ u, (h'.pc u).inRun = true → h'.pc u = h.pc u := by
    intro u hu
    apply hother
    rintro rfl
    rw [hout] at hu
    cases hu
  have hnone : (∀ u, (h.pc u).inRun = false) → ∀ u, (h'.pc u).inRun = false := by
    intro hquiet u
    by_contra hin
    have heq := hback u (Bool.not_eq_false _ ▸ hin)
    rw [heq, hquiet u] at hin
    exact hin rfl
  refine ⟨fun hp => ?_, fun u v hu hv => ?_, fun u hu => ?_, hcount.trans_le hinv.once, fun hc => ?_⟩
  · obtain ⟨hpending, hsame⟩ := hstate hp
    obtain ⟨hzero, hcan, hquiet⟩ := hinv.untouched hpending
    exact ⟨hcount.trans hzero, hsame.trans hcan, hnone hquiet⟩
  · exact hinv.unique u v (hback u hu ▸ hu) (hback v hv ▸ hv)
  · have heq := hback u (Pc.inRun_of_beforeEntry hu)
    exact hcount.trans (hinv.before u (heq ▸ hu))
  · rcases hcancelled hc with hold | hpending
    · obtain ⟨hzero, hquiet⟩ := hinv.never hold
      exact ⟨hcount.trans hzero, hnone hquiet⟩
    · obtain ⟨hzero, -, hquiet⟩ := hinv.untouched hpending
      exact ⟨hcount.trans hzero, hnone hquiet⟩

/-- A task with a thread in `Run` was started and not cancelled before. -/
theorem started (hinv : HistoryInv h) (ht : (h.pc t).inRun = true) :
    h.state ≠ .kPending ∧ h.cancelledPending = false := by
  constructor
  · intro hp
    rw [(hinv.untouched hp).2.2 t] at ht
    cases ht
  · rw [Bool.eq_false_iff]
    intro hc
    rw [(hinv.never hc).2 t] at ht
    cases ht

/-- A step of the only thread in `Run`. -/
theorem of_inRun (hother : ∀ u, u ≠ t → (h'.pc u).inRun = false)
    (hstate : h'.state ≠ .kPending) (hbefore : (h'.pc t).beforeEntry = true → h'.entries = 0)
    (honce : h'.entries ≤ 1) (hcancelled : h'.cancelledPending = false) : HistoryInv h' := by
  have honly : ∀ u, (h'.pc u).inRun = true → u = t := by
    intro u hu
    by_contra hne
    rw [hother u hne] at hu
    cases hu
  refine ⟨fun hp => absurd hp hstate, fun u v hu hv => (honly u hu).trans (honly v hv).symm,
    fun u hu => ?_, honce, fun hc => ?_⟩
  · obtain rfl := honly u (Pc.inRun_of_beforeEntry hu)
    exact hbefore hu
  · rw [hcancelled] at hc
    cases hc

/-- The invariant after a step of one thread, from what the step does and what it adds to the
record. -/
theorem effect (hinv : HistoryInv h) (heffect : Effect h.system t h'.system)
    (hother : ∀ u, u ≠ t → h'.pc u = h.pc u)
    (hentries : h'.entries = h.entries ∨ h.pc t = .runFunctor ∧ h'.entries = h.entries + 1)
    (hcancelled : h'.cancelledPending = true ↔ h.cancelledPending = true ∨
      h.pc t = .cancelCas .kPending ∧ h.state = .kPending) : HistoryInv h' := by
  have hsame : h.pc t ≠ .runFunctor → h'.entries = h.entries := fun hne =>
    hentries.resolve_right fun hand => hne hand.1
  have hstays : h.cancelledPending = false → h.pc t ≠ .cancelCas .kPending →
      h'.cancelledPending = false := by
    intro hcan hpc
    rw [Bool.eq_false_iff, Ne, hcancelled, hcan]
    rintro (hc | ⟨hcas, -⟩)
    · cases hc
    · exact hpc hcas
  cases heffect with
  | start hpc hstate hstate' hpc' =>
      have hpct : h.pc t = .runCas := hpc
      obtain ⟨hzero, hcan, hnone⟩ := hinv.untouched hstate
      have hcount : h'.entries = 0 := (hsame (by rw [hpct]; nofun)).trans hzero
      refine of_inRun (t := t) (fun u hu => by rw [hother u hu, hnone u]) ?_ (fun _ => hcount)
        (by omega) (hstays hcan (by rw [hpct]; nofun))
      rw [History.state, hstate']
      nofun
  | cancel state hpc hstate hstate' hpc' =>
      have hpct : h.pc t = .cancelCas state := hpc
      refine hinv.outside hother ?_ (hsame (by rw [hpct]; nofun)) (fun hp => ?_)
        fun hc => (hcancelled.mp hc).imp_right And.right
      · rw [History.pc, hpc']
        rfl
      · rw [History.state, hstate'] at hp
        cases hp
  | run hpc hstate hentry hcall =>
      have hpct : (h.pc t).inRun = true := hpc
      obtain ⟨hpending, hcan⟩ := hinv.started hpct
      refine of_inRun (t := t) (fun u hu => ?_) ?_ (fun hbefore => ?_) ?_ (hstays hcan ?_)
      · rw [hother u hu, Bool.eq_false_iff]
        exact fun hin => hu (hinv.unique u t hin hpct)
      · rcases hstate with hold | hdone
        · rw [History.state, hold]
          exact hpending
        · rw [History.state, hdone]
          nofun
      · have hstore : h.pc t = .runStoreRunner := hentry hbefore
        rw [hsame (by rw [hstore]; nofun)]
        exact hinv.before t (by rw [hstore]; rfl)
      · rcases hentries with hkeep | ⟨hfunctor, hplus⟩
        · rw [hkeep]
          exact hinv.once
        · rw [hplus, hinv.before t (by rw [hfunctor]; rfl)]
      · intro hcas
        rw [hcas] at hpct
        cases hpct
  | outside hpc hcas hstate hpc' hcall =>
      have hpct : (h.pc t).inRun = false := hpc
      have hkeeps : h'.cancelledPending = true → h.cancelledPending = true := by
        intro hc
        refine (hcancelled.mp hc).resolve_right fun ⟨hcas', hp⟩ => hcas ?_
        exact hcas'.trans (congrArg Pc.cancelCas hp.symm)
      refine hinv.outside hother hpc' (hsame fun hfunctor => ?_) (fun hp => ?_)
        fun hc => Or.inl (hkeeps hc)
      · rw [hfunctor] at hpct
        cases hpct
      · have hpending : h.state = .kPending := hstate.symm.trans hp
        have hcan := (hinv.untouched hpending).2.1
        rw [hcan, Bool.eq_false_iff]
        refine ⟨hpending, fun hc => ?_⟩
        rw [hkeeps hc] at hcan
        cases hcan

end HistoryInv

variable [DecidableEq Thread]

/-- Every step of the history is a step of one thread. -/
theorem historyStep_effect {h h' : History Thread} {a : HistoryAction Thread}
    (hstep : historyStep h a = some h') :
    ∃ t, Effect h.system t h'.system ∧ (∀ u, u ≠ t → h'.pc u = h.pc u) ∧
      (h'.entries = h.entries ∨ h.pc t = .runFunctor ∧ h'.entries = h.entries + 1) ∧
      (h'.cancelledPending = true ↔ h.cancelledPending = true ∨
        h.pc t = .cancelCas .kPending ∧ h.state = .kPending) ∧
      (h'.pc t = .runCas → a = .task (.call t .run)) := by
  cases a with
  | task a =>
      obtain ⟨s', hs', heq⟩ := Option.bind_eq_some_iff.mp hstep
      cases heq
      cases a with
      | call t c =>
          simp only [step] at hs'
          split_ifs at hs' with hidle
          cases hs'
          have hpc : h.pc t = .idle := hidle
          have hentry : c.entry.inRun = false := by
            cases c <;> rfl
          obtain ⟨heffect, hother⟩ := effect_goto (by rw [hidle]; rfl) (by simp [hidle]) hentry
            fun _ => hidle
          refine ⟨t, heffect, hother, Or.inl rfl, ?_, fun hcall => ?_⟩
          · simp [cancelsPending, hpc]
          · have hrun : c.entry = .runCas := (goto_pc_self _ _ _).symm.trans hcall
            cases c with
            | run => rfl
            | cancelAndWait => cases hrun
      | step t =>
          obtain ⟨heffect, hother⟩ := stepThread_effect hs'
          refine ⟨t, heffect, hother, ?_, ?_, fun hcall => ?_⟩
          · by_cases henters : enters h.system (.step t) = true
            · right
              refine ⟨?_, by rw [henters]; rfl⟩
              simp only [enters, Bool.and_eq_true, decide_eq_true_eq] at henters
              exact henters.1
            · left
              rw [Bool.not_eq_true] at henters
              rw [henters]
              rfl
          · simp [cancelsPending, History.pc, History.state]
          · exact absurd hcall (stepThread_ne_runCas hs')
  | leave t =>
      simp only [historyStep] at hstep
      split_ifs at hstep with hpc
      cases hstep
      have hpc' : h.system.pc t = .waitLoadRunner := hpc
      obtain ⟨heffect, hother⟩ := effect_goto (by rw [hpc']; rfl) (by simp [hpc'])
        (show Pc.idle.inRun = false from rfl) (by simp)
      refine ⟨t, heffect, hother, Or.inl rfl, ?_, fun hcall => ?_⟩
      · simp [hpc]
      · have hidle : Pc.idle = .runCas := (goto_pc_self _ _ _).symm.trans hcall
        cases hidle

theorem historyStep_inv (h : History Thread) (a : HistoryAction Thread) (h' : History Thread)
    (hinv : HistoryInv h) (hstep : historyStep h a = some h') : HistoryInv h' := by
  obtain ⟨t, heffect, hother, hentries, hcancelled, -⟩ := historyStep_effect hstep
  exact hinv.effect heffect hother hentries hcancelled

/-- For any number of threads in `Run` and `CancelTask` and every interleaving of their loads, stores
and compare-exchanges: the functor is entered once at most, never when a compare-exchange of
`CancelTask` has succeeded from `kPending`, and the state does not come back to `kPending`. -/
theorem task_runs_at_most_once {functor : Bool} {actions : List (HistoryAction Thread)}
    {h : History Thread}
    (hrun : Transition.run historyStep (History.new functor) actions = some h) :
    h.entries ≤ 1 ∧ (h.cancelledPending = true → h.entries = 0) ∧
    ∀ rest h', Transition.run historyStep h rest = some h' → h.state ≠ .kPending →
      h'.state ≠ .kPending := by
  have hinv : HistoryInv h :=
    Transition.run_invariant historyStep_inv (new_historyInv functor) hrun
  refine ⟨hinv.once, fun hc => (hinv.never hc).1, fun rest h' hrest hleft => ?_⟩
  have hkeep : ∀ (u : History Thread) a v, u.state ≠ .kPending → historyStep u a = some v →
      v.state ≠ .kPending := by
    intro u a v hu hstep
    obtain ⟨t, heffect, -⟩ := historyStep_effect hstep
    exact heffect.state_ne hu
  exact Transition.run_invariant hkeep hleft hrest

/-- One thread cancels the pending task, the other comes too late to run it. -/
theorem task_runs_at_most_once_cancelled :
    ∃ h, Transition.run historyStep (History.new true : History Bool)
        [.task (.call false .cancelAndWait), .task (.call true .run), .task (.step false),
          .task (.step false), .leave false, .task (.step true)] = some h ∧
      h.cancelledPending = true ∧ h.entries = 0 := by
  obtain ⟨h, hrun, hcancelled⟩ : ∃ h, Transition.run historyStep (History.new true : History Bool)
      [.task (.call false .cancelAndWait), .task (.call true .run), .task (.step false),
        .task (.step false), .leave false, .task (.step true)] = some h ∧
      h.cancelledPending = true := ⟨_, rfl, by decide⟩
  exact ⟨h, hrun, hcancelled, (task_runs_at_most_once hrun).2.1 hcancelled⟩

end Iomgr.Task
