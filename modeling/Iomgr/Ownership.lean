import Mathlib.Order.BooleanAlgebra.Set
import Mathlib.Logic.Equiv.Basic
import Mathlib.Logic.Function.Basic
import Mathlib.Tactic.Common

/-!
Resources that are live or not, and owners that hold one resource or none. Each live resource has one
owner and each resource that is held is live. Then releasing what an owner holds releases something
live, and nothing is lost when all owners are empty.
-/

namespace Ownership

variable {O R : Type*}

/-- The live resources are those that are held, each by one owner. -/
structure Owns (held : O → Option R) (live : Set R) : Prop where
  live_iff : ∀ r, r ∈ live ↔ ∃ o, held o = some r
  unique : ∀ {o o' r}, held o = some r → held o' = some r → o = o'

variable {held : O → Option R} {live : Set R} {o : O} {r : R}

theorem Owns.mem_live (h : Owns held live) (ho : held o = some r) : r ∈ live := (h.live_iff r).mpr ⟨o, ho⟩

theorem owns_empty : Owns (fun _ : O => (none : Option R)) ∅ where
  live_iff r := by simp
  unique h := absurd h (by simp)

/-- When every owner is empty nothing is live. -/
theorem Owns.live_eq_empty (h : Owns held live) (hempty : ∀ o, held o = none) : live = ∅ := by
  refine Set.eq_empty_of_forall_notMem fun r hr => ?_
  obtain ⟨o, ho⟩ := (h.live_iff r).mp hr
  rw [hempty o] at ho
  cases ho

variable [DecidableEq O]

theorem Owns.acquire (h : Owns held live) (ho : held o = none) (hr : r ∉ live) :
    Owns (Function.update held o (some r)) (insert r live) where
  live_iff q := by
    rw [Set.mem_insert_iff, h.live_iff]
    constructor
    · rintro (rfl | ⟨o', ho'⟩)
      · exact ⟨o, Function.update_self ..⟩
      · have hne : o' ≠ o := by
          rintro rfl
          cases ho.symm.trans ho'
        exact ⟨o', (Function.update_of_ne hne ..).trans ho'⟩
    · rintro ⟨o', ho'⟩
      by_cases hne : o' = o
      · subst hne
        rw [Function.update_self] at ho'
        exact .inl (Option.some.inj ho').symm
      · rw [Function.update_of_ne hne] at ho'
        exact .inr ⟨o', ho'⟩
  unique {a b q} ha hb := by
    by_cases hao : a = o <;> by_cases hbo : b = o
    · exact hao.trans hbo.symm
    · rw [hao, Function.update_self] at ha
      rw [Function.update_of_ne hbo] at hb
      exact absurd (Option.some.inj ha ▸ h.mem_live hb) hr
    · rw [Function.update_of_ne hao] at ha
      rw [hbo, Function.update_self] at hb
      exact absurd (Option.some.inj hb ▸ h.mem_live ha) hr
    · rw [Function.update_of_ne hao] at ha
      rw [Function.update_of_ne hbo] at hb
      exact h.unique ha hb

theorem Owns.release (h : Owns held live) (ho : held o = some r) :
    Owns (Function.update held o none) (live \ {r}) where
  live_iff q := by
    rw [Set.mem_sdiff, h.live_iff, Set.mem_singleton_iff]
    constructor
    · rintro ⟨⟨o', ho'⟩, hne⟩
      have hoo : o' ≠ o := by
        rintro rfl
        exact hne (Option.some.inj (ho'.symm.trans ho))
      exact ⟨o', (Function.update_of_ne hoo ..).trans ho'⟩
    · rintro ⟨o', ho'⟩
      by_cases hoo : o' = o
      · rw [hoo, Function.update_self] at ho'
        cases ho'
      · rw [Function.update_of_ne hoo] at ho'
        refine ⟨⟨o', ho'⟩, ?_⟩
        rintro rfl
        exact hoo (h.unique ho' ho)
  unique {a b q} ha hb := by
    by_cases hao : a = o
    · rw [hao, Function.update_self] at ha
      cases ha
    · by_cases hbo : b = o
      · rw [hbo, Function.update_self] at hb
        cases hb
      · rw [Function.update_of_ne hao] at ha
        rw [Function.update_of_ne hbo] at hb
        exact h.unique ha hb

/-- An owner that may hold something lets go of it. -/
theorem Owns.drop (h : Owns held live) (o : O) :
    Owns (Function.update held o none) (live \ {r | held o = some r}) := by
  cases ho : held o with
  | none =>
      have hnone : {r : R | none = some r} = ∅ := by simp
      rw [← ho, Function.update_eq_self, ho, hnone, Set.sdiff_empty]
      exact h
  | some r =>
      have hsingle : {q : R | some r = some q} = {r} := by
        ext q
        simp [eq_comm]
      rw [hsingle]
      exact h.release ho

/-- An owner takes a new resource and lets go of what it held. -/
theorem Owns.replace (h : Owns held live) (o : O) (hr : r ∉ live) :
    Owns (Function.update held o (some r)) (insert r (live \ {r | held o = some r})) := by
  have hacquire := (h.drop o).acquire (Function.update_self o none held) fun hmem => hr hmem.1
  rwa [Function.update_idem] at hacquire

/-- Two owners exchange what they hold. -/
theorem Owns.swap (h : Owns held live) (o o' : O) :
    Owns (fun x => held (Equiv.swap o o' x)) live where
  live_iff r := by
    rw [h.live_iff]
    exact ((Equiv.swap o o').exists_congr_left.trans (by simp)).symm
  unique ha hb := (Equiv.swap o o').injective (h.unique ha hb)

/-- A resource goes from one owner to another one that holds nothing. -/
theorem Owns.transfer {o' : O} (h : Owns held live) (ho : held o = some r) (ho' : held o' = none) :
    Owns (Function.update (Function.update held o none) o' (some r)) live := by
  have hne : o' ≠ o := by
    rintro rfl
    cases ho.symm.trans ho'
  have hacquire := (h.release ho).acquire (o := o') (r := r)
    ((Function.update_of_ne hne ..).trans ho') (by simp)
  rwa [Set.insert_sdiff_singleton, Set.insert_eq_of_mem (h.mem_live ho)] at hacquire

end Ownership
