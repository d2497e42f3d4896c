import Mathlib.Tactic.Common

/-!
Runs of a deterministic machine whose nondeterminism is in its actions. An action may be disabled
(`none`); a run is a list of actions, each enabled in the state the previous one left. Invariants
are proved for one step and carried along runs here, also under a condition that every step of the
run has to meet in the state before it.
-/

namespace Transition

variable {σ α : Type*} (step : σ → α → Option σ)

/-- The state a list of actions leads to, when each of them is enabled in its turn. -/
def run : σ → List α → Option σ
  | s, [] => some s
  | s, a :: as => (step s a).bind fun t => run t as

/-- The predicate holds in every state the actions pass through, the first one included. -/
def Along (good : σ → Prop) : σ → List α → Prop
  | s, [] => good s
  | s, a :: as => good s ∧ ∀ t, step s a = some t → Along good t as

/-- Every action that is taken meets the condition in the state before it. -/
def Meets (condition : σ → α → Prop) : σ → List α → Prop
  | _, [] => True
  | s, a :: as => ∀ t, step s a = some t → condition s a ∧ Meets condition t as

/-- The check of a decidable condition along a run. -/
def meetsCheck (condition : σ → α → Prop) [∀ s a, Decidable (condition s a)] : σ → List α → Bool
  | _, [] => true
  | s, a :: as =>
      match step s a with
      | none => true
      | some t => decide (condition s a) && meetsCheck condition t as

variable {step}

@[simp] theorem run_nil (s : σ) : run step s [] = some s := rfl

theorem run_cons {s t : σ} {a : α} {as : List α} :
    run step s (a :: as) = some t ↔ ∃ u, step s a = some u ∧ run step u as = some t := by
  simp only [run, Option.bind_eq_some_iff]

theorem run_append {s t : σ} {as bs : List α} :
    run step s (as ++ bs) = some t ↔ ∃ u, run step s as = some u ∧ run step u bs = some t := by
  induction as generalizing s with
  | nil => simp
  | cons a as ih =>
      simp only [List.cons_append, run_cons, ih]
      constructor
      · rintro ⟨u, hu, v, hv, ht⟩
        exact ⟨v, ⟨u, hu, hv⟩, ht⟩
      · rintro ⟨v, ⟨u, hu, hv⟩, ht⟩
        exact ⟨u, hu, v, hv, ht⟩

theorem meets_of_check {condition : σ → α → Prop} [∀ s a, Decidable (condition s a)] {s : σ}
    {as : List α} (h : meetsCheck step condition s as = true) : Meets step condition s as := by
  induction as generalizing s with
  | nil => trivial
  | cons a as ih =>
      intro t ht
      rw [meetsCheck, ht, Bool.and_eq_true, decide_eq_true_eq] at h
      exact ⟨h.1, ih h.2⟩

theorem Along.good {good : σ → Prop} {s : σ} {as : List α} (h : Along step good s as) : good s := by
  cases as with
  | nil => exact h
  | cons a as => exact h.1

/-- The predicate holds in the state the run ends in. -/
theorem Along.end_good {good : σ → Prop} {s t : σ} {as : List α} (h : Along step good s as)
    (hrun : run step s as = some t) : good t := by
  induction as generalizing s with
  | nil =>
      cases hrun
      exact h
  | cons a as ih =>
      obtain ⟨u, hu, ht⟩ := run_cons.mp hrun
      exact ih (h.2 u hu) ht

theorem along_cons_of_step {good : σ → Prop} {s t : σ} {a : α} {as : List α}
    (hstep : step s a = some t) : Along step good s (a :: as) ↔ good s ∧ Along step good t as := by
  refine and_congr_right fun _ => ⟨fun h => h t hstep, fun h u hu => ?_⟩
  rw [hstep] at hu
  cases hu
  exact h

/-- What every step keeps, every run keeps. -/
theorem run_invariant {inv : σ → Prop} (hstep : ∀ s a t, inv s → step s a = some t → inv t)
    {s t : σ} {as : List α} (hs : inv s) (hrun : run step s as = some t) : inv t := by
  induction as generalizing s with
  | nil =>
      cases hrun
      exact hs
  | cons a as ih =>
      obtain ⟨u, hu, ht⟩ := run_cons.mp hrun
      exact ih (hstep s a u hs hu) ht

/-- What every step that meets the condition keeps, every run that meets it keeps. -/
theorem run_invariant_of_meets {inv : σ → Prop} {condition : σ → α → Prop}
    (hkeep : ∀ s a t, inv s → condition s a → step s a = some t → inv t) {s t : σ} {as : List α}
    (hs : inv s) (hmeets : Meets step condition s as) (hrun : run step s as = some t) : inv t := by
  induction as generalizing s with
  | nil =>
      cases hrun
      exact hs
  | cons a as ih =>
      obtain ⟨u, hu, ht⟩ := run_cons.mp hrun
      obtain ⟨hcond, hrest⟩ := hmeets u hu
      exact ih (hkeep s a u hs hcond hu) hrest ht

/-- A measure that no step raises and each counted step lowers bounds the counted steps of a run. -/
theorem countP_add_measure_le {inv : σ → Prop} {counted : α → Bool} {measure : σ → ℕ}
    (hkeep : ∀ s a t, inv s → step s a = some t → inv t)
    (hlower : ∀ s a t, inv s → step s a = some t →
      measure t + (if counted a then 1 else 0) ≤ measure s)
    {s t : σ} {as : List α} (hs : inv s) (hrun : run step s as = some t) :
    as.countP counted + measure t ≤ measure s := by
  induction as generalizing s with
  | nil =>
      cases hrun
      simp
  | cons a as ih =>
      obtain ⟨u, hu, ht⟩ := run_cons.mp hrun
      have hfirst := hlower s a u hs hu
      have hrest := ih (hkeep s a u hs hu) ht
      rw [List.countP_cons]
      omega

/-- What every step that meets the condition keeps holds along every run that meets it. -/
theorem along_of_meets {inv good : σ → Prop} {condition : σ → α → Prop}
    (hkeep : ∀ s a t, inv s → condition s a → step s a = some t → inv t)
    (hgood : ∀ s, inv s → good s) {s : σ} {as : List α} (hs : inv s)
    (hmeets : Meets step condition s as) : Along step good s as := by
  induction as generalizing s with
  | nil => exact hgood s hs
  | cons a as ih =>
      refine ⟨hgood s hs, fun t ht => ?_⟩
      obtain ⟨hcond, hrest⟩ := hmeets t ht
      exact ih (hkeep s a t hs hcond ht) hrest

/-- When a step that misses the condition leaves the good states, the condition is exact: a run
stays good if and only if each of its steps meets the condition. -/
theorem along_iff_meets {inv good : σ → Prop} {condition : σ → α → Prop}
    (hkeep : ∀ s a t, inv s → condition s a → step s a = some t → inv t)
    (hbreak : ∀ s a t, inv s → ¬condition s a → step s a = some t → ¬good t)
    (hgood : ∀ s, inv s → good s) {s : σ} {as : List α} (hs : inv s) :
    Along step good s as ↔ Meets step condition s as := by
  refine ⟨fun halong => ?_, along_of_meets hkeep hgood hs⟩
  induction as generalizing s with
  | nil => trivial
  | cons a as ih =>
      intro t ht
      have hnext := halong.2 t ht
      have hcond : condition s a := by
        by_contra hnot
        exact hbreak s a t hs hnot ht hnext.good
      exact ⟨hcond, ih (hkeep s a t hs hcond ht) hnext⟩

/-- Two conditions that agree as long as an invariant holds, which steps that meet the second one
keep. -/
theorem meets_congr {inv : σ → Prop} {p q : σ → α → Prop}
    (hkeep : ∀ s a t, inv s → q s a → step s a = some t → inv t)
    (hiff : ∀ s a t, inv s → step s a = some t → (p s a ↔ q s a)) {s : σ} {as : List α}
    (hs : inv s) : Meets step p s as ↔ Meets step q s as := by
  induction as generalizing s with
  | nil => exact Iff.rfl
  | cons a as ih =>
      refine forall₂_congr fun t ht => ?_
      rw [hiff s a t hs ht]
      exact and_congr_right fun hq => ih (hkeep s a t hs hq ht)

/-- What a run ends in tells of each of its steps whether it met the condition, when a step that
misses it leaves a mark that stays. -/
theorem end_iff_meets {clean : σ → Prop} {condition : σ → α → Prop}
    (hstep : ∀ s a t, step s a = some t → (clean t ↔ clean s ∧ condition s a)) {s t : σ} {as : List α}
    (hrun : run step s as = some t) : clean t ↔ clean s ∧ Meets step condition s as := by
  induction as generalizing s with
  | nil =>
      cases hrun
      exact (and_iff_left trivial).symm
  | cons a as ih =>
      obtain ⟨u, hu, ht⟩ := run_cons.mp hrun
      rw [ih ht, hstep s a u hu, and_assoc]
      refine and_congr_right fun _ => ⟨fun h v hv => ?_, fun h => h u hu⟩
      rw [hu] at hv
      cases hv
      exact h

end Transition
