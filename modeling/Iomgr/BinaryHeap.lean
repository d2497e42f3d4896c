import Mathlib.Order.Lattice
import Mathlib.Tactic.Common

/-!
The order of an implicit binary heap, over any elements and any linearly ordered keys. A sift is a
chain of exchanges along one path of the tree; `UpReady` and `DownReady` say what holds of the
array, with the moving element put into the hole, between two exchanges. A sift that moves a hole
and stores the element once at the end makes the same arrays.
-/

namespace BinaryHeap

variable {α κ : Type*} [LinearOrder κ] (key : α → κ)

/-- The position above `i`. Position 0 is its own parent and is no position's child. -/
def parent (i : Nat) : Nat := (i - 1) / 2

theorem parent_lt {i : Nat} (h : 0 < i) : parent i < i := by
  unfold parent
  omega

theorem parent_le (i : Nat) : parent i ≤ i := by
  unfold parent
  omega

/-- Every element is at or after the one above it. -/
def Ordered (l : List α) : Prop :=
  ∀ i a b, 0 < i → l[parent i]? = some a → l[i]? = some b → key a ≤ key b

/-- Only the element at `hole` may be before the one above it, and what is below `hole` is at or
after what is above it. -/
structure UpReady (l : List α) (hole : Nat) : Prop where
  edge : ∀ i a b, 0 < i → i ≠ hole → l[parent i]? = some a → l[i]? = some b → key a ≤ key b
  skip : ∀ i a b, 0 < i → parent i = hole → 0 < hole → l[parent hole]? = some a →
    l[i]? = some b → key a ≤ key b

/-- Only the element at `hole` may be after those below it, and what is below `hole` is at or
after what is above it. -/
structure DownReady (l : List α) (hole : Nat) : Prop where
  edge : ∀ i a b, 0 < i → parent i ≠ hole → l[parent i]? = some a → l[i]? = some b → key a ≤ key b
  skip : ∀ i a b, 0 < i → parent i = hole → 0 < hole → l[parent hole]? = some a →
    l[i]? = some b → key a ≤ key b

/-- The array with the elements at two positions exchanged. -/
def exchange (l : List α) (i j : Nat) (a b : α) : List α := (l.set i b).set j a

variable {key}

theorem getElem?_exchange {l : List α} {i j : Nat} {a b : α} (ha : l[i]? = some a)
    (hb : l[j]? = some b) (k : Nat) :
    (exchange l i j a b)[k]? = if k = j then some a else if k = i then some b else l[k]? := by
  have hi : i < l.length := (List.getElem?_eq_some_iff.mp ha).1
  have hj : j < l.length := (List.getElem?_eq_some_iff.mp hb).1
  simp only [exchange, List.getElem?_set, List.length_set]
  split_ifs <;> first | rfl | omega

theorem exchange_perm {l : List α} {i j : Nat} {a b : α} (ha : l[i]? = some a)
    (hb : l[j]? = some b) : (exchange l i j a b).Perm l := by
  obtain ⟨hi, rfl⟩ := List.getElem?_eq_some_iff.mp ha
  obtain ⟨hj, rfl⟩ := List.getElem?_eq_some_iff.mp hb
  exact List.set_set_perm hi hj

theorem Ordered.root_le {l : List α} (h : Ordered key l) {root : α} (hroot : l[0]? = some root)
    (i : Nat) : ∀ a, l[i]? = some a → key root ≤ key a := by
  induction i using Nat.strongRecOn with
  | ind i ih =>
      intro a ha
      by_cases hi : i = 0
      · subst hi
        rw [hroot] at ha
        cases ha
        exact le_rfl
      · have hpos : 0 < i := Nat.pos_of_ne_zero hi
        have hlt := parent_lt hpos
        have hlen : i < l.length := (List.getElem?_eq_some_iff.mp ha).1
        have hp : l[parent i]? = some (l[parent i]) := List.getElem?_eq_getElem (by omega)
        exact (ih (parent i) hlt _ hp).trans (h i _ _ hpos hp ha)

theorem Ordered.root_le_of_mem {l : List α} (h : Ordered key l) {root : α}
    (hroot : l[0]? = some root) {a : α} (ha : a ∈ l) : key root ≤ key a := by
  obtain ⟨i, hi⟩ := List.mem_iff_getElem?.mp ha
  exact h.root_le hroot i a hi

theorem ordered_nil : Ordered key ([] : List α) := by
  intro i a b _ ha
  simp at ha

/-- A new last element only has the edge above it out of order. -/
theorem Ordered.upReady_concat {l : List α} (h : Ordered key l) (x : α) :
    UpReady key (l ++ [x]) l.length := by
  have hlt : ∀ i b, i ≠ l.length → (l ++ [x])[i]? = some b → i < l.length ∧ l[i]? = some b := by
    intro i b hne hb
    have hi : i < (l ++ [x]).length := (List.getElem?_eq_some_iff.mp hb).1
    rw [List.length_append, List.length_singleton] at hi
    have hlt : i < l.length := by omega
    rw [List.getElem?_append_left hlt] at hb
    exact ⟨hlt, hb⟩
  constructor
  · intro i a b hi hne ha hb
    obtain ⟨hil, hb⟩ := hlt i b hne hb
    have hp := parent_lt hi
    rw [List.getElem?_append_left (by omega)] at ha
    exact h i a b hi ha hb
  · intro i a b hi hpi _ _ hb
    have hp := parent_lt hi
    have hil := (List.getElem?_eq_some_iff.mp hb).1
    rw [List.length_append, List.length_singleton] at hil
    omega

/-- Dropping the last element keeps the order. -/
theorem Ordered.dropLast {l : List α} (h : Ordered key l) : Ordered key l.dropLast := by
  intro i a b hi ha hb
  rw [List.getElem?_dropLast] at ha hb
  split_ifs at ha hb
  exact h i a b hi ha hb

/-- Replacing one element leaves only the edges at its position in doubt. When the new element is
before the one above it, the edges below are in order. -/
theorem Ordered.upReady_set {l : List α} (h : Ordered key l) {i : Nat} {old new above : α}
    (hold : l[i]? = some old) (habove : l[parent i]? = some above) (hi : 0 < i)
    (hlt : key new < key above) : UpReady key (l.set i new) i := by
  have hil : i < l.length := (List.getElem?_eq_some_iff.mp hold).1
  have hio : key above ≤ key old := h i _ _ hi habove hold
  constructor
  · intro j a b hj hne ha hb
    rw [List.getElem?_set_ne (Ne.symm hne)] at hb
    rw [List.getElem?_set] at ha
    split_ifs at ha with hpj
    · cases ha
      exact (hlt.le.trans hio).trans (h j _ _ hj (hpj ▸ hold) hb)
    · exact h j _ _ hj ha hb
  · intro j a b hj hpj _ ha hb
    have hne : i ≠ j := by
      have := parent_lt hj
      omega
    have hne' : i ≠ parent i := by
      have := parent_lt hi
      omega
    rw [List.getElem?_set_ne hne] at hb
    rw [List.getElem?_set_ne hne', habove] at ha
    cases ha
    exact hio.trans (h j _ _ hj (hpj ▸ hold) hb)

/-- When the new element is not before the one above it, only the edges below are in doubt. -/
theorem Ordered.downReady_set {l : List α} (h : Ordered key l) {i : Nat} {old new : α}
    (hold : l[i]? = some old)
    (hle : ∀ above, 0 < i → l[parent i]? = some above → key above ≤ key new) :
    DownReady key (l.set i new) i := by
  have hil : i < l.length := (List.getElem?_eq_some_iff.mp hold).1
  constructor
  · intro j a b hj hne ha hb
    rw [List.getElem?_set_ne (Ne.symm hne)] at ha
    rw [List.getElem?_set] at hb
    split_ifs at hb with hij
    · cases hb
      subst hij
      exact hle a hj ha
    · exact h j _ _ hj ha hb
  · intro j a b hj hpj hi ha hb
    have hne : i ≠ j := by
      have := parent_lt hj
      omega
    have hne' : i ≠ parent i := by
      have := parent_lt hi
      omega
    rw [List.getElem?_set_ne hne] at hb
    rw [List.getElem?_set_ne hne'] at ha
    exact (h i _ _ hi ha hold).trans (h j _ _ hj (hpj ▸ hold) hb)

/-! ### Sifting up -/

theorem UpReady.finish {l : List α} {hole : Nat} (h : UpReady key l hole)
    (hstop : ∀ a b, 0 < hole → l[parent hole]? = some a → l[hole]? = some b → key a ≤ key b) :
    Ordered key l := by
  intro i a b hi ha hb
  by_cases hih : i = hole
  · subst hih
    exact hstop a b hi ha hb
  · exact h.edge i a b hi hih ha hb

/-- Exchanging with the element above moves the hole up. -/
theorem UpReady.move {l : List α} {hole : Nat} (h : UpReady key l hole) {x above : α}
    (hpos : 0 < hole) (hx : l[hole]? = some x) (habove : l[parent hole]? = some above)
    (hlt : key x < key above) :
    UpReady key (exchange l hole (parent hole) x above) (parent hole) := by
  have hp := parent_lt hpos
  constructor
  · intro i a b hi hne ha hb
    rw [getElem?_exchange hx habove] at ha hb
    have hpi := parent_lt hi
    by_cases hih : i = hole
    · subst hih
      simp only [ite_true, if_neg hne] at ha hb
      cases ha
      cases hb
      exact hlt.le
    · simp only [if_neg hne, if_neg hih] at hb
      by_cases hpp : parent i = parent hole
      · simp only [hpp, ite_true] at ha
        cases ha
        exact hlt.le.trans (h.edge i _ _ hi hih (hpp ▸ habove) hb)
      · by_cases hph : parent i = hole
        · simp only [hph, ite_true, ite_false, show hole ≠ parent hole by omega] at ha
          cases ha
          exact h.skip i _ _ hi hph hpos habove hb
        · simp only [hpp, hph, ite_false] at ha
          exact h.edge i _ _ hi hih ha hb
  · intro i a b hi hpi hpos' ha hb
    rw [getElem?_exchange hx habove] at ha hb
    have hpp := parent_lt hpos'
    have hpi' := parent_lt hi
    simp only [show parent (parent hole) ≠ parent hole by omega,
      show parent (parent hole) ≠ hole by omega, ite_false] at ha
    have hup : key a ≤ key above := h.edge (parent hole) _ _ hpos' (by omega) ha habove
    by_cases hih : i = hole
    · subst hih
      simp only [show i ≠ parent i by omega, ite_true, ite_false] at hb
      cases hb
      exact hup
    · simp only [show i ≠ parent hole by omega, hih, ite_false] at hb
      exact hup.trans (h.edge i _ _ hi hih (hpi ▸ habove) hb)

/-! ### Sifting down -/

theorem DownReady.finish {l : List α} {hole : Nat} (h : DownReady key l hole)
    (hstop : ∀ i a b, 0 < i → parent i = hole → l[hole]? = some a → l[i]? = some b →
      key a ≤ key b) : Ordered key l := by
  intro i a b hi ha hb
  by_cases hpi : parent i = hole
  · exact hstop i a b hi hpi (hpi ▸ ha) hb
  · exact h.edge i a b hi hpi ha hb

/-- Exchanging with the least element below moves the hole down. -/
theorem DownReady.move {l : List α} {hole child : Nat} (h : DownReady key l hole) {x below : α}
    (hpos : 0 < child) (hchild : parent child = hole) (hx : l[hole]? = some x)
    (hbelow : l[child]? = some below) (hlt : key below < key x)
    (hleast : ∀ i b, 0 < i → parent i = hole → l[i]? = some b → key below ≤ key b) :
    DownReady key (exchange l hole child x below) child := by
  have hp : hole < child := hchild ▸ parent_lt hpos
  constructor
  · intro i a b hi hne ha hb
    rw [getElem?_exchange hx hbelow] at ha hb
    have hpi := parent_lt hi
    by_cases hic : i = child
    · subst hic
      simp only [hchild, ite_true, show hole ≠ i by omega, ite_false] at ha hb
      cases ha
      cases hb
      exact hlt.le
    · simp only [hic, ite_false] at hb
      simp only [hne, ite_false] at ha
      by_cases hih : i = hole
      · subst hih
        simp only [ite_true, show parent i ≠ i by omega, ite_false] at ha hb
        cases hb
        exact h.skip child _ _ hpos hchild hi ha hbelow
      · simp only [hih, ite_false] at hb
        by_cases hph : parent i = hole
        · simp only [hph, ite_true] at ha
          cases ha
          exact hleast i b hi hph hb
        · simp only [hph, ite_false] at ha
          exact h.edge i _ _ hi hph ha hb
  · intro i a b hi hpi _ ha hb
    rw [getElem?_exchange hx hbelow] at ha hb
    have hpi' := parent_lt hi
    simp only [hchild, ite_true, show hole ≠ child by omega, ite_false] at ha
    cases ha
    simp only [show i ≠ child by omega, show i ≠ hole by omega, ite_false] at hb
    exact h.edge i _ _ hi (by omega) (hpi ▸ hbelow) hb

end BinaryHeap
