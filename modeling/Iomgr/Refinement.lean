import Iomgr.TransitionSystem

/-!
Machines whose steps carry a label, what a caller sees of the step. A machine refines another one
when each of its steps is matched by a step of the other with the same label, in related states: its
traces are traces of the other one then.
-/

namespace Refinement

variable {σ τ ℓ : Type*}

/-- A run with its labels, in order. -/
inductive Trace (step : σ → ℓ → σ → Prop) : σ → List ℓ → σ → Prop
  | nil (s : σ) : Trace step s [] s
  | cons {s t u : σ} {l : ℓ} {ls : List ℓ} (first : step s l t) (rest : Trace step t ls u) :
      Trace step s (l :: ls) u

/-- Each step from related states is matched, and leads to related states. -/
def Simulates (cstep : σ → ℓ → σ → Prop) (astep : τ → ℓ → τ → Prop) (related : σ → τ → Prop) :
    Prop :=
  ∀ s a l s', related s a → cstep s l s' → ∃ a', astep a l a' ∧ related s' a'

variable {cstep : σ → ℓ → σ → Prop} {astep : τ → ℓ → τ → Prop} {related : σ → τ → Prop}

theorem Simulates.trace (h : Simulates cstep astep related) {s s' : σ} {a : τ} {ls : List ℓ}
    (hrelated : related s a) (htrace : Trace cstep s ls s') :
    ∃ a', Trace astep a ls a' ∧ related s' a' := by
  induction htrace generalizing a with
  | nil s => exact ⟨a, Trace.nil a, hrelated⟩
  | cons first rest ih =>
      obtain ⟨a1, hfirst, hrelated1⟩ := h _ _ _ _ hrelated first
      obtain ⟨a', hrest, hrelated'⟩ := ih hrelated1
      exact ⟨a', Trace.cons hfirst hrest, hrelated'⟩

/-- Runs of machines whose labels are their actions: a run whose steps meet the condition is a run of
the other machine. -/
theorem run_simulates {cstep : σ → ℓ → Option σ} {astep : τ → ℓ → Option τ}
    {condition : σ → ℓ → Prop}
    (hstep : ∀ s a l s', related s a → condition s l → cstep s l = some s' →
      ∃ a', astep a l = some a' ∧ related s' a')
    {s s' : σ} {a : τ} {ls : List ℓ} (hrelated : related s a)
    (hmeets : Transition.Meets cstep condition s ls) (hrun : Transition.run cstep s ls = some s') :
    ∃ a', Transition.run astep a ls = some a' ∧ related s' a' := by
  induction ls generalizing s a with
  | nil =>
      cases hrun
      exact ⟨a, rfl, hrelated⟩
  | cons l ls ih =>
      obtain ⟨t, ht, hrest⟩ := Transition.run_cons.mp hrun
      obtain ⟨hcond, hmeets⟩ := hmeets t ht
      obtain ⟨b, hb, hrelated⟩ := hstep _ _ _ _ hrelated hcond ht
      obtain ⟨a', ha', hrelated'⟩ := ih hrelated hmeets hrest
      exact ⟨a', Transition.run_cons.mpr ⟨b, hb, ha'⟩, hrelated'⟩

end Refinement
