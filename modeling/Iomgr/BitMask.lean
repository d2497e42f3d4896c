import Mathlib.Data.List.Perm.Basic

/-!
Bit masks joined over a list: the union of the members' masks, and what is left of it when one
member's bits are cleared. Clearing is exact when the member shares no bit with the others.
-/

namespace BitMask

variable {α : Type*} {w : Nat}

/-- The union of the masks of the members of a list. -/
def orAll (mask : α → BitVec w) (l : List α) : BitVec w := l.foldr (fun a acc => mask a ||| acc) 0

@[simp] theorem orAll_nil (mask : α → BitVec w) : orAll mask [] = 0 := rfl

@[simp] theorem orAll_cons (mask : α → BitVec w) (a : α) (l : List α) :
    orAll mask (a :: l) = mask a ||| orAll mask l := rfl

theorem orAll_append (mask : α → BitVec w) (l l' : List α) :
    orAll mask (l ++ l') = orAll mask l ||| orAll mask l' := by
  induction l with
  | nil => simp
  | cons a l ih => rw [List.cons_append, orAll_cons, orAll_cons, ih, BitVec.or_assoc]

theorem orAll_perm (mask : α → BitVec w) {l l' : List α} (h : l.Perm l') :
    orAll mask l = orAll mask l' := by
  induction h with
  | nil => rfl
  | cons a _ ih => rw [orAll_cons, orAll_cons, ih]
  | swap a b l =>
      rw [orAll_cons, orAll_cons, orAll_cons, orAll_cons, ← BitVec.or_assoc,
        BitVec.or_comm (mask b), BitVec.or_assoc]
  | trans _ _ ih ih' => exact ih.trans ih'

theorem orAll_congr {mask mask' : α → BitVec w} {l : List α} (h : ∀ a ∈ l, mask a = mask' a) :
    orAll mask l = orAll mask' l := by
  induction l with
  | nil => rfl
  | cons a l ih =>
      rw [orAll_cons, orAll_cons, h a List.mem_cons_self,
        ih fun b hb => h b (List.mem_cons_of_mem a hb)]

/-- A union of masks within `b` is within `b`. -/
theorem orAll_and {mask : α → BitVec w} {b : BitVec w} {l : List α}
    (h : ∀ a ∈ l, mask a &&& b = mask a) : orAll mask l &&& b = orAll mask l := by
  induction l with
  | nil => simp
  | cons a l ih =>
      rw [orAll_cons, BitVec.and_or_distrib_right, h a List.mem_cons_self,
        ih fun a' ha' => h a' (List.mem_cons_of_mem a ha')]

/-- A member's bits are in the union. -/
theorem and_orAll_of_mem {mask : α → BitVec w} {a : α} {l : List α} (h : a ∈ l) :
    orAll mask l &&& mask a = mask a := by
  obtain ⟨s, t, rfl⟩ := List.append_of_mem h
  rw [orAll_append, orAll_cons]
  apply BitVec.eq_of_getLsbD_eq
  intro i _
  simp only [BitVec.getLsbD_and, BitVec.getLsbD_or]
  cases (mask a).getLsbD i <;> simp

/-- Clearing the bits `b` from a union with `a` and then setting `c` loses nothing of `a` exactly
when the bits common to `a` and `b` are all in `c`. -/
theorem clear_set_eq_iff (a b c : BitVec w) :
    ((b ||| a) &&& ~~~b) ||| c = a ||| c ↔ b &&& a &&& ~~~c = 0 := by
  rw [BitVec.eq_of_getLsbD_eq_iff, BitVec.eq_of_getLsbD_eq_iff]
  refine forall₂_congr fun i hi => ?_
  simp only [BitVec.getLsbD_and, BitVec.getLsbD_or, BitVec.getLsbD_not, hi, decide_true,
    Bool.true_and]
  cases a.getLsbD i <;> cases b.getLsbD i <;> cases c.getLsbD i <;> simp

/-- Clearing the bits `b` from a union with `a` leaves `a` exactly when they share none. -/
theorem clear_eq_iff (a b : BitVec w) : (b ||| a) &&& ~~~b = a ↔ b &&& a = 0 := by
  have h := clear_set_eq_iff a b 0
  simpa using h

theorem and_not_zero (a : BitVec w) : a &&& ~~~0 = a := by
  apply BitVec.eq_of_getLsbD_eq
  intro i hi
  simp [hi]

theorem or_eq_zero_iff (a b : BitVec w) : a ||| b = 0 ↔ a = 0 ∧ b = 0 := by
  rw [BitVec.eq_of_getLsbD_eq_iff, BitVec.eq_of_getLsbD_eq_iff, BitVec.eq_of_getLsbD_eq_iff,
    ← forall₂_and]
  refine forall₂_congr fun i _ => ?_
  simp [BitVec.getLsbD_or]

end BitMask
