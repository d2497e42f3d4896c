import Mathlib.Data.Option.Basic
import Mathlib.Logic.Function.Basic
import Mathlib.Tactic.Common

/-!
Objects that a program makes, changes and destroys, by their numbers. The same program can be run on
other objects, values for instance; where each operation keeps a relation between an object and its
value, every object of the program stays related to its value.
-/

namespace ObjectTable

variable {α β : Type}

/-- A constructor runs on an object that does not exist yet. -/
def construct (objects : Nat → Option α) (x : Nat) (value : Option α) : Option (Nat → Option α) :=
  if (objects x).isSome then none
  else value.map fun value => Function.update objects x (some value)

/-- A member function changes an object that exists. -/
def modify (objects : Nat → Option α) (x : Nat) (f : α → Option α) : Option (Nat → Option α) :=
  ((objects x).bind f).map fun value => Function.update objects x (some value)

def destroy (objects : Nat → Option α) (x : Nat) : Option (Nat → Option α) :=
  (objects x).map fun _ => Function.update objects x none

/-- Each object is related to its value, and there is a value just where there is an object. -/
def Related (R : α → β → Prop) (objects : Nat → Option α) (values : Nat → Option β) : Prop :=
  ∀ x, Option.Rel R (objects x) (values x)

variable {R : α → β → Prop} {objects objects' : Nat → Option α} {values : Nat → Option β} {x : Nat}

theorem exists_of_rel_some {a : α} {b : Option β} (h : Option.Rel R (some a) b) :
    ∃ c, b = some c ∧ R a c := by
  cases h with
  | some hac => exact ⟨_, rfl, hac⟩

theorem eq_none_of_rel {b : Option β} (h : Option.Rel R none b) : b = none := by
  cases h
  rfl

theorem Related.value (h : Related R objects values) {a : α} (ha : objects x = some a) :
    ∃ b, values x = some b ∧ R a b := by
  have hx := h x
  rw [ha] at hx
  exact exists_of_rel_some hx

theorem Related.update (h : Related R objects values) (x : Nat) {o : Option α} {b : Option β}
    (hrel : Option.Rel R o b) :
    Related R (Function.update objects x o) (Function.update values x b) := by
  intro y
  by_cases hy : y = x
  · subst hy
    rw [Function.update_self, Function.update_self]
    exact hrel
  · rw [Function.update_of_ne hy, Function.update_of_ne hy]
    exact h y

theorem Related.construct (h : Related R objects values) {o : Option α} {b : Option β}
    (hrel : Option.Rel R o b) (hrun : construct objects x o = some objects') :
    ∃ values', ObjectTable.construct values x b = some values' ∧ Related R objects' values' := by
  unfold ObjectTable.construct at hrun ⊢
  have hx := h x
  cases hox : objects x with
  | some a => simp [hox] at hrun
  | none =>
      rw [hox] at hx hrun
      obtain ⟨a, ha, rfl⟩ := Option.map_eq_some_iff.mp hrun
      rw [ha] at hrel
      obtain ⟨c, hc, hac⟩ := exists_of_rel_some hrel
      rw [eq_none_of_rel hx, hc]
      exact ⟨_, rfl, h.update x (Option.Rel.some hac)⟩

theorem Related.modify (h : Related R objects values) {f : α → Option α} {g : β → Option β}
    (hrel : ∀ a b, objects x = some a → R a b → Option.Rel R (f a) (g b))
    (hrun : modify objects x f = some objects') :
    ∃ values', ObjectTable.modify values x g = some values' ∧ Related R objects' values' := by
  obtain ⟨a', hbind, rfl⟩ := Option.map_eq_some_iff.mp hrun
  obtain ⟨a, ha, hfa⟩ := Option.bind_eq_some_iff.mp hbind
  obtain ⟨b, hb, hab⟩ := h.value ha
  have hfg := hrel a b ha hab
  rw [hfa] at hfg
  obtain ⟨b', hgb, hab'⟩ := exists_of_rel_some hfg
  refine ⟨_, ?_, h.update x (Option.Rel.some hab')⟩
  rw [ObjectTable.modify, hb, Option.bind_some, hgb, Option.map_some]

theorem Related.destroy (h : Related R objects values) (hrun : destroy objects x = some objects') :
    ∃ values', ObjectTable.destroy values x = some values' ∧ Related R objects' values' := by
  obtain ⟨a, ha, rfl⟩ := Option.map_eq_some_iff.mp hrun
  obtain ⟨b, hb, -⟩ := h.value ha
  refine ⟨_, ?_, h.update x Option.Rel.none⟩
  rw [ObjectTable.destroy, hb, Option.map_some]

end ObjectTable
