import Iomgr.RefCounted
import Mathlib.Algebra.Ring.Int.Defs
import Mathlib.Algebra.Ring.Nat

/-!
The reference count of an object and the number of pointers that hold it. Every operation on pointers
keeps the two equal as numbers of 32 bits, and an object is deleted once, when its last pointer lets
go; the query `HasAtLeastOneRef` adds a reference that nobody holds.
-/

namespace Iomgr.RefCounted

open Transition

/-- 1 if the pointer is one to the object. -/
def holds (p : Option ℕ) (y : ℕ) : ℕ := if p = some y then 1 else 0

namespace Heap

/-- How many `RefPtr`s hold the object. -/
def holders (s : Heap) (y : ℕ) : ℕ := s.refPtrs.count (some (some y))

/-- The object that a `RefPtr` holds, if it holds one. -/
def target (s : Heap) (i : ℕ) : Option ℕ := (s.get i).join

end Heap

/-- What a reference count is for. -/
structure Good (s : Heap) : Prop where
  refCount : ∀ y (o : Object), s.objects[y]? = some o → o.destroyed = 0 →
    o.refCount.toInt = s.holders y
  hasOneRef : ∀ y o, s.objects[y]? = some o → o.destroyed = 0 →
    (o.hasOneRef = true ↔ s.holders y = 1)
  destroyed : ∀ y o, s.objects[y]? = some o →
    o.destroyed = if o.held = true ∧ s.holders y = 0 then 1 else 0

/-- How many more `RefPtr`s hold the object after the construction in a step. -/
def gained (s : Heap) (y : ℕ) : Action → ℕ
  | .construct p => holds p y
  | .copyConstruct r => holds (s.target r) y
  | .assignRaw _ p => holds p y
  | .assignCopy _ r => holds (s.target r) y
  | _ => 0

/-- How many `RefPtr`s let go of the object in a step. -/
def lost (s : Heap) (y : ℕ) : Action → ℕ
  | .assignRaw i _ => holds (s.target i) y
  | .assignCopy i _ => holds (s.target i) y
  | .assignMove i r => if i = r then 0 else holds (s.target i) y
  | .reset i => holds (s.target i) y
  | .destroy i => holds (s.target i) y
  | _ => 0

/-- The step is not the query that counts, and the holders of every object can be counted in an `int`
after it. -/
def Keeps (s : Heap) : Action → Prop
  | .hasAtLeastOneRef _ => False
  | a => ∀ y, s.holders y + gained s y a < 2 ^ 31 + lost s y a

/-! ### The numbers of holders -/

theorem count_set_add {l : List (Option (Option ℕ))} {i : ℕ} {x : Option (Option ℕ)}
    (hx : l[i]? = some x) (a b : Option (Option ℕ)) :
    (l.set i a).count b + (if x = b then 1 else 0) = l.count b + if a = b then 1 else 0 := by
  obtain ⟨hi, hget⟩ := List.getElem?_eq_some_iff.mp hx
  rw [List.count_set hi, hget]
  simp only [beq_iff_eq]
  by_cases hb : x = b
  · have hpos : 0 < l.count b := List.count_pos_iff.mpr (hb ▸ List.mem_of_getElem? hx)
    rw [if_pos hb]
    omega
  · rw [if_neg hb]
    omega

namespace Heap

variable {s t : Heap} {i j r y : ℕ} {p q : Option ℕ}

theorem getElem?_of_get (h : s.get i = some p) : s.refPtrs[i]? = some (some p) :=
  Option.join_eq_some_iff.mp h

theorem get_of_getElem? (h : s.refPtrs[i]? = some (some p)) : s.get i = some p :=
  Option.join_eq_some_iff.mpr h

theorem lt_of_get (h : s.get i = some p) : i < s.refPtrs.length :=
  (List.getElem?_eq_some_iff.mp (getElem?_of_get h)).1

theorem target_of_get (h : s.get i = some p) : s.target i = p := by
  rw [target, h]
  rfl

theorem holders_pos_of_get (h : s.get i = some (some y)) : 0 < s.holders y :=
  List.count_pos_iff.mpr (List.mem_of_getElem? (getElem?_of_get h))

theorem count_set_ptr (h : s.get i = some p) (x : Option (Option ℕ)) (y : ℕ) :
    (s.refPtrs.set i x).count (some (some y)) + holds p y =
      s.holders y + if x = some (some y) then 1 else 0 := by
  have hcount := count_set_add (getElem?_of_get h) x (some (some y))
  simp only [Option.some_inj] at hcount
  exact hcount

@[simp] theorem refPtrs_onObject (s : Heap) (p : Option ℕ) (f : Object → Object) :
    (s.onObject p f).refPtrs = s.refPtrs := by
  cases p <;> rfl

theorem holders_construct (s : Heap) (p : Option ℕ) (y : ℕ) :
    (s.construct p).holders y = s.holders y + holds p y := by
  rw [holders, construct, refPtrs_onObject, List.count_append, List.count_singleton, holds]
  simp only [beq_iff_eq, Option.some_inj]
  rfl

theorem holders_moveConstruct (h : s.moveConstruct r = some t) : t.holders y = s.holders y := by
  obtain ⟨p, hp, rfl⟩ := Option.map_eq_some_iff.mp h
  have hset := count_set_ptr hp (some none) y
  rw [if_neg (by simp)] at hset
  rw [holders, List.count_append, List.count_singleton]
  simp only [beq_iff_eq, Option.some_inj]
  exact hset

theorem holders_swap (h : s.swap i j = some t) : t.holders y = s.holders y := by
  obtain ⟨p, hp, hmap⟩ := Option.bind_eq_some_iff.mp h
  obtain ⟨q, hq, rfl⟩ := Option.map_eq_some_iff.mp hmap
  have hfirst : (s.refPtrs.set i (some q)).count (some (some y)) + holds p y =
      s.holders y + holds q y := by
    rw [count_set_ptr hp]
    simp only [Option.some_inj, holds]
  -- the second pointer is as it was, or it is the first one
  have hq' : ({ s with refPtrs := s.refPtrs.set i (some q) } : Heap).get j = some q := by
    apply get_of_getElem?
    rw [List.getElem?_set]
    split_ifs with hij hlt
    · rfl
    · exact absurd (lt_of_get hp) hlt
    · exact getElem?_of_get hq
  have hsecond : ((s.refPtrs.set i (some q)).set j (some p)).count (some (some y)) + holds q y =
      (s.refPtrs.set i (some q)).count (some (some y)) + holds p y := by
    refine (count_set_ptr hq' (some p) y).trans ?_
    simp only [Option.some_inj, holds]
    rfl
  show ((s.refPtrs.set i (some q)).set j (some p)).count (some (some y)) = s.holders y
  omega

theorem holders_destroy (hp : s.get i = some p) (h : s.destroy i = some t) :
    t.holders y + holds p y = s.holders y := by
  obtain ⟨p', hp', rfl⟩ := Option.map_eq_some_iff.mp h
  cases hp.symm.trans hp'
  have hset := count_set_ptr hp none y
  rw [if_neg (by simp)] at hset
  rw [holders, refPtrs_onObject]
  exact hset

end Heap

/-! ### The invariant -/

/-- The state of an object with `n` holders, whose count may have wrapped. -/
structure Counted (n : ℕ) (o : Object) : Prop where
  refCount : o.refCount = Int32.ofNat n
  held : 0 < n → o.held = true
  destroyed : o.destroyed = if o.held = true ∧ n = 0 then 1 else 0

/-- The number of holders of an object is at most one more than an `int` can count, which it is while
the parameter of an assignment exists. -/
structure Inv (s : Heap) : Prop where
  known : ∀ y, 0 < s.holders y → y < s.objects.length
  counted : ∀ y o, s.objects[y]? = some o → Counted (s.holders y) o
  bound : ∀ y, s.holders y ≤ 2 ^ 31

namespace Counted

variable {n : ℕ} {o : Object}

theorem destroyed_of_pos (h : Counted n o) (hn : 0 < n) : o.destroyed = 0 := by
  rw [h.destroyed, if_neg fun hzero => Nat.ne_of_gt hn hzero.2]

theorem refCount_eq_one_iff (h : Counted n o) (hn : n ≤ 2 ^ 31) : o.refCount = 1 ↔ n = 1 := by
  rw [h.refCount]
  constructor
  · intro hone
    have hbits := congrArg (fun c : Int32 => c.toBitVec.toNat) hone
    simp only [Int32.toBitVec_ofNat', BitVec.toNat_ofNat] at hbits
    have hone' : (1 : Int32).toBitVec.toNat = 1 := by decide
    omega
  · rintro rfl
    rfl

theorem new : Counted 0 Object.new := ⟨rfl, by simp, rfl⟩

theorem addRef (h : Counted n o) (hlive : o.destroyed = 0) : Counted (n + 1) o.addRef where
  refCount := by
    rw [Object.addRef, h.refCount, Int32.ofNat_add]
    rfl
  held _ := rfl
  destroyed := by
    rw [if_neg (by omega)]
    exact hlive

/-- The last holder deletes the object. -/
theorem release (h : Counted (n + 1) o) (hn : n + 1 ≤ 2 ^ 31) : Counted n o.release where
  refCount := by
    rw [Object.release, h.refCount, Int32.ofNat_add]
    exact Int32.add_sub_cancel _ _
  held _ := h.held (Nat.succ_pos n)
  destroyed := by
    have hheld : o.held = true := h.held (Nat.succ_pos n)
    have hone := h.refCount_eq_one_iff hn
    have hzero := h.destroyed_of_pos (Nat.succ_pos n)
    show (if o.refCount = 1 then o.destroyed + 1 else o.destroyed) = _
    by_cases hn : n = 0
    · rw [if_pos (hone.mpr (by omega)), if_pos ⟨hheld, hn⟩, hzero]
    · rw [if_neg (fun h => hn (by have := hone.mp h; omega)), if_neg fun h => hn h.2, hzero]

end Counted

theorem good_iff {s : Heap} (hs : Inv s) : Good s ↔ ∀ y, s.holders y < 2 ^ 31 := by
  constructor
  · intro h y
    by_contra hge
    have hpos : 0 < s.holders y := by omega
    have hlt := hs.known y hpos
    have hget := List.getElem?_eq_getElem hlt
    have hcount := h.refCount y _ hget ((hs.counted y _ hget).destroyed_of_pos hpos)
    have hmax := (s.objects[y]).refCount.toInt_lt
    omega
  · intro h
    refine ⟨fun y o ho _ => ?_, fun y o ho _ => ?_, fun y o ho => (hs.counted y o ho).destroyed⟩
    · rw [(hs.counted y o ho).refCount, Int32.toInt_ofNat_of_lt (h y)]
    · rw [Object.hasOneRef, decide_eq_true_iff]
      exact (hs.counted y o ho).refCount_eq_one_iff (hs.bound y)

/-! ### The members of `RefPtr` -/

section

variable {s t : Heap} {i j r : ℕ} {p q : Option ℕ}

theorem getElem?_onObject (s : Heap) (p : Option ℕ) (f : Object → Object) (y : ℕ) :
    (s.onObject p f).objects[y]? = if p = some y then s.objects[y]?.map f else s.objects[y]? := by
  cases p with
  | none => rfl
  | some y' =>
      rw [Heap.onObject]
      simp only [List.getElem?_modify, Option.some_inj]
      split_ifs with h
      · rfl
      · simp

theorem length_onObject (s : Heap) (p : Option ℕ) (f : Object → Object) :
    (s.onObject p f).objects.length = s.objects.length := by
  cases p with
  | none => rfl
  | some y => exact List.length_modify _ _ _

/-- An operation on one object that goes with its number of holders. -/
theorem Inv.onObject {f : Object → Object} (hs : Inv s) (hobjects : t.objects = (s.onObject p f).objects)
    (hknown : ∀ y, 0 < t.holders y → 0 < s.holders y ∨ y < s.objects.length)
    (hother : ∀ y, p ≠ some y → t.holders y = s.holders y)
    (hself : ∀ y o, p = some y → s.objects[y]? = some o → Counted (t.holders y) (f o))
    (hbound : ∀ y, t.holders y ≤ 2 ^ 31) : Inv t where
  known y hy := by
    rw [hobjects, length_onObject]
    exact (hknown y hy).elim (hs.known y) id
  counted y o ho := by
    rw [hobjects, getElem?_onObject] at ho
    split_ifs at ho with hp
    · obtain ⟨o', ho', rfl⟩ := Option.map_eq_some_iff.mp ho
      exact hself y o' hp ho'
    · rw [hother y hp]
      exact hs.counted y o ho
  bound := hbound

/-- The pointers change, but not the number of those that hold an object. -/
theorem Inv.congr (hs : Inv s) (hobjects : t.objects = s.objects)
    (hholders : ∀ y, t.holders y = s.holders y) : Inv t where
  known y hy := by
    rw [hobjects]
    exact hs.known y (hholders y ▸ hy)
  counted y o ho := by
    rw [hholders]
    exact hs.counted y o (hobjects ▸ ho)
  bound y := by
    rw [hholders]
    exact hs.bound y

theorem isLive_iff {y : ℕ} :
    s.isLive y = true ↔ ∃ o, s.objects[y]? = some o ∧ o.destroyed = 0 := by
  rw [Heap.isLive]
  cases s.objects[y]? <;> simp

/-- What a `RefPtr` points to has not been deleted. -/
theorem Inv.all_isLive_of_get (hs : Inv s) (h : s.get i = some p) : p.all s.isLive = true := by
  cases p with
  | none => rfl
  | some y =>
      have hpos := Heap.holders_pos_of_get h
      have hget := List.getElem?_eq_getElem (hs.known y hpos)
      exact isLive_iff.mpr ⟨_, hget, (hs.counted y _ hget).destroyed_of_pos hpos⟩

theorem Inv.construct (hs : Inv s) (hlive : p.all s.isLive = true)
    (hroom : ∀ y, s.holders y < 2 ^ 31) : Inv (s.construct p) := by
  have hholders := Heap.holders_construct s p
  have hlive' : ∀ y, p = some y → ∃ o, s.objects[y]? = some o ∧ o.destroyed = 0 := by
    rintro y rfl
    exact isLive_iff.mp hlive
  refine hs.onObject (f := Object.addRef) rfl (fun y hy => ?_) (fun y hy => ?_) (fun y o hp ho => ?_)
    fun y => ?_
  · by_cases hp : p = some y
    · obtain ⟨o, ho, -⟩ := hlive' y hp
      exact Or.inr (List.getElem?_eq_some_iff.mp ho).1
    · rw [hholders, holds, if_neg hp] at hy
      exact Or.inl hy
  · rw [hholders, holds, if_neg hy, Nat.add_zero]
  · obtain ⟨o', ho', hdestroyed⟩ := hlive' y hp
    cases ho.symm.trans ho'
    rw [hholders, holds, if_pos hp]
    exact (hs.counted y o ho).addRef hdestroyed
  · have hle := hroom y
    rw [hholders, holds]
    split_ifs <;> omega

theorem Inv.moveConstruct (hs : Inv s) (h : s.moveConstruct r = some t) : Inv t := by
  refine hs.congr ?_ fun y => Heap.holders_moveConstruct h
  obtain ⟨p, -, rfl⟩ := Option.map_eq_some_iff.mp h
  rfl

theorem Inv.swap (hs : Inv s) (h : s.swap i j = some t) : Inv t := by
  refine hs.congr ?_ fun y => Heap.holders_swap h
  obtain ⟨p, -, hmap⟩ := Option.bind_eq_some_iff.mp h
  obtain ⟨q, -, rfl⟩ := Option.map_eq_some_iff.mp hmap
  rfl

theorem Inv.destroy (hs : Inv s) (h : s.destroy i = some t) : Inv t := by
  obtain ⟨p, hp, ht⟩ := Option.map_eq_some_iff.mp h
  have hholders : ∀ y, t.holders y + holds p y = s.holders y := fun y => Heap.holders_destroy hp h
  have hobjects : t.objects = (s.onObject p Object.release).objects := by
    rw [← ht]
    cases p <;> rfl
  refine hs.onObject hobjects (fun y hy => ?_) (fun y hy => ?_) (fun y o hy ho => ?_) fun y => ?_
  · have := hholders y
    exact Or.inl (by omega)
  · rw [← hholders, holds, if_neg hy, Nat.add_zero]
  · have hcount := hholders y
    have hbound := hs.bound y
    have hcounted := hs.counted y o ho
    rw [holds, if_pos hy] at hcount
    rw [← hcount] at hcounted hbound
    exact hcounted.release hbound
  · exact Nat.le_trans (by have := hholders y; omega) (hs.bound y)

/-- An assignment lets go of what the pointer held. -/
theorem Inv.assign (hs : Inv s) (hq : s.get i = some q) (h : s.assign i r = some t) :
    Inv t ∧ ∀ y, t.holders y + holds q y = s.holders y := by
  obtain ⟨u, hswap, hdestroy⟩ := Option.bind_eq_some_iff.mp h
  have hparam : u.get r = some q := by
    obtain ⟨p, hp, hmap⟩ := Option.bind_eq_some_iff.mp hswap
    obtain ⟨p', hp', rfl⟩ := Option.map_eq_some_iff.mp hmap
    cases hq.symm.trans hp
    apply Heap.get_of_getElem?
    rw [List.getElem?_set_self]
    rw [List.length_set]
    exact Heap.lt_of_get hp'
  refine ⟨(hs.swap hswap).destroy hdestroy, fun y => ?_⟩
  rw [Heap.holders_destroy hparam hdestroy, Heap.holders_swap hswap]

theorem get_construct (hi : i < s.refPtrs.length) (p : Option ℕ) : (s.construct p).get i = s.get i := by
  rw [Heap.get, Heap.construct, Heap.refPtrs_onObject, List.getElem?_append_left hi]
  rfl

theorem get_moveConstruct (hi : i < s.refPtrs.length) (h : s.moveConstruct r = some t) :
    t.get i = if i = r then some none else s.get i := by
  obtain ⟨p, hp, rfl⟩ := Option.map_eq_some_iff.mp h
  rw [Heap.get, List.getElem?_append_left (by rwa [List.length_set]), List.getElem?_set]
  by_cases hir : i = r
  · rw [if_pos hir.symm, if_pos (hir ▸ hi), if_pos hir]
    rfl
  · rw [if_neg (Ne.symm hir), if_neg hir]
    rfl

theorem assignFrom_cases {constructed : Option Heap} (h : s.assignFrom i constructed = some t) :
    i < s.refPtrs.length ∧
      ∃ u q, constructed = some u ∧ u.get i = some q ∧ u.assign i s.refPtrs.length = some t := by
  rw [Heap.assignFrom] at h
  split_ifs at h with hi
  obtain ⟨u, hu, hassign⟩ := Option.bind_eq_some_iff.mp h
  obtain ⟨v, hswap, -⟩ := Option.bind_eq_some_iff.mp hassign
  obtain ⟨q, hq, -⟩ := Option.bind_eq_some_iff.mp hswap
  exact ⟨hi, u, q, hu, hq, hassign⟩

/-- An assignment from a pointer that was constructed for it. -/
theorem Inv.assignFrom_construct (hs : Inv s) (hroom : ∀ y, s.holders y < 2 ^ 31)
    (hlive : p.all s.isLive = true) (h : s.assignFrom i (some (s.construct p)) = some t) :
    Inv t ∧ ∀ y, t.holders y + holds (s.target i) y = s.holders y + holds p y := by
  obtain ⟨hi, u, q, hu, hq, hassign⟩ := assignFrom_cases h
  cases hu
  obtain ⟨hinv, hholders⟩ := (hs.construct hlive hroom).assign hq hassign
  rw [get_construct hi] at hq
  refine ⟨hinv, fun y => ?_⟩
  rw [Heap.target_of_get hq, hholders, Heap.holders_construct]

theorem Inv.newObject (hs : Inv s) : Inv { s with objects := s.objects ++ [Object.new] } where
  known y hy := by
    rw [List.length_append]
    exact Nat.lt_add_right _ (hs.known y hy)
  counted y o ho := by
    rcases Nat.lt_or_ge y s.objects.length with hlt | hge
    · rw [List.getElem?_append_left hlt] at ho
      exact hs.counted y o ho
    · rw [List.getElem?_append_right hge] at ho
      have hzero : s.holders y = 0 := by
        by_contra hne
        exact absurd (hs.known y (Nat.pos_of_ne_zero hne)) (by omega)
      have hnew : o = Object.new := List.mem_singleton.mp (List.mem_of_getElem? ho)
      show Counted (s.holders y) o
      rw [hzero, hnew]
      exact Counted.new
  bound := hs.bound

/-! ### Every step -/

/-- A step other than the query that counts keeps the invariant and changes the holders of an object
as the pointers that it constructs and destroys tell. -/
theorem Inv.step {a : Action} (hs : Inv s) (hroom : ∀ y, s.holders y < 2 ^ 31)
    (ha : ∀ y, a ≠ .hasAtLeastOneRef y) (h : step s a = some t) :
    Inv t ∧ ∀ y, t.holders y + lost s y a = s.holders y + gained s y a := by
  cases a with
  | newObject =>
      cases h
      exact ⟨hs.newObject, fun _ => rfl⟩
  | construct p =>
      rw [RefCounted.step] at h
      split_ifs at h with hlive
      cases h
      exact ⟨hs.construct hlive hroom, Heap.holders_construct s p⟩
  | copyConstruct r =>
      obtain ⟨p, hp, rfl⟩ := Option.map_eq_some_iff.mp h
      refine ⟨hs.construct (hs.all_isLive_of_get hp) hroom, fun y => ?_⟩
      rw [gained, Heap.target_of_get hp]
      exact Heap.holders_construct s p y
  | moveConstruct r => exact ⟨hs.moveConstruct h, fun _ => Heap.holders_moveConstruct h⟩
  | assignRaw i p =>
      rw [RefCounted.step] at h
      split_ifs at h with hlive
      exact hs.assignFrom_construct hroom hlive h
  | assignCopy i r =>
      obtain ⟨-, u, -, hcopy, -, -⟩ := assignFrom_cases h
      obtain ⟨p, hp, -⟩ := Option.map_eq_some_iff.mp hcopy
      rw [RefCounted.step, Heap.copyConstruct, hp, Option.map_some] at h
      obtain ⟨hinv, hholders⟩ := hs.assignFrom_construct hroom (hs.all_isLive_of_get hp) h
      refine ⟨hinv, fun y => ?_⟩
      rw [gained, Heap.target_of_get hp]
      exact hholders y
  | assignMove i r =>
      obtain ⟨hi, u, q, hmove, hq, hassign⟩ := assignFrom_cases h
      obtain ⟨hinv, hholders⟩ := (hs.moveConstruct hmove).assign hq hassign
      refine ⟨hinv, fun y => ?_⟩
      have hmoved := Heap.holders_moveConstruct (y := y) hmove
      have hcount := hholders y
      rw [get_moveConstruct hi hmove] at hq
      show t.holders y + (if i = r then 0 else holds (s.target i) y) = s.holders y
      by_cases hir : i = r
      · rw [if_pos hir] at hq ⊢
        cases hq
        rw [holds, if_neg (by simp)] at hcount
        omega
      · rw [if_neg hir] at hq ⊢
        rw [Heap.target_of_get hq]
        omega
  | reset i => exact hs.assignFrom_construct hroom rfl h
  | swap i j => exact ⟨hs.swap h, fun _ => Heap.holders_swap h⟩
  | destroy i =>
      obtain ⟨p, hp, -⟩ := Option.map_eq_some_iff.mp h
      refine ⟨hs.destroy h, fun y => ?_⟩
      rw [lost, Heap.target_of_get hp]
      exact Heap.holders_destroy hp h
  | hasOneRef y =>
      rw [RefCounted.step] at h
      split_ifs at h with hlive
      cases h
      exact ⟨hs, fun _ => rfl⟩
  | hasAtLeastOneRef y => exact absurd rfl (ha y)

/-- The reference that `HasAtLeastOneRef` adds is nobody's. -/
theorem not_good_hasAtLeastOneRef {y : ℕ} (hs : Good s)
    (h : step s (.hasAtLeastOneRef y) = some t) : ¬Good t := by
  rw [RefCounted.step] at h
  split_ifs at h with hlive
  obtain ⟨o, ho, hdestroyed⟩ := isLive_iff.mp hlive
  cases h
  intro ht
  have hafter := ht.refCount y o.hasAtLeastOneRef.2 (by rw [getElem?_onObject, if_pos rfl, ho]; rfl)
    hdestroyed
  have hbefore := hs.refCount y o ho hdestroyed
  have hsame : (o.refCount + 1).toInt = o.refCount.toInt := hafter.trans hbefore.symm
  have hone : o.refCount + 1 = o.refCount := Int32.toInt_inj.mp hsame
  exact absurd (Int32.add_eq_left.mp hone) (by decide)

/-- The invariant, with counts that have not wrapped. -/
structure Exact (s : Heap) : Prop where
  inv : Inv s
  room : ∀ y, s.holders y < 2 ^ 31

theorem keeps_iff {a : Action} (ha : ∀ y, a ≠ .hasAtLeastOneRef y) :
    Keeps s a ↔ ∀ y, s.holders y + gained s y a < 2 ^ 31 + lost s y a := by
  cases a with
  | hasAtLeastOneRef y => exact absurd rfl (ha y)
  | _ => rfl

theorem Exact.step {a : Action} (hs : Exact s) (hkeeps : Keeps s a) (h : step s a = some t) :
    Exact t := by
  have ha : ∀ y, a ≠ .hasAtLeastOneRef y := by
    rintro y rfl
    exact hkeeps
  obtain ⟨hinv, hholders⟩ := hs.inv.step hs.room ha h
  refine ⟨hinv, fun y => ?_⟩
  have hcount := hholders y
  have hlt := (keeps_iff ha).mp hkeeps y
  omega

theorem Exact.not_good {a : Action} (hs : Exact s) (hkeeps : ¬Keeps s a)
    (h : RefCounted.step s a = some t) : ¬Good t := by
  by_cases ha : ∃ y, a = .hasAtLeastOneRef y
  · obtain ⟨y, rfl⟩ := ha
    exact not_good_hasAtLeastOneRef ((good_iff hs.inv).mpr hs.room) h
  · have ha' : ∀ y, a ≠ .hasAtLeastOneRef y := fun y hy => ha ⟨y, hy⟩
    obtain ⟨hinv, hholders⟩ := hs.inv.step hs.room ha' h
    rw [keeps_iff ha', not_forall] at hkeeps
    obtain ⟨y, hy⟩ := hkeeps
    intro hgood
    have hlt := (good_iff hinv).mp hgood y
    have hcount := hholders y
    omega

end

/-! ### Every run -/

theorem new_exact : Exact Heap.new where
  inv := ⟨fun _ h => absurd h (by simp [Heap.holders, Heap.new]), by simp [Heap.new],
    fun _ => Nat.zero_le _⟩
  room _ := by
    show 0 < 2 ^ 31
    decide

/-- In every run the reference counts are the numbers of holders, and objects are deleted when their
last pointer lets go, just as long as no step is the query that counts or gives an object more holders
than an `int` counts. -/
theorem ref_counts_are_owners_iff (as : List Action) :
    Along step Good Heap.new as ↔ Meets step Keeps Heap.new as := by
  refine @along_iff_meets _ _ _ Exact _ _ ?_ ?_ ?_ _ _ new_exact
  · intro s a t hs hkeeps h
    exact hs.step hkeeps h
  · intro s a t hs hkeeps h
    exact hs.not_good hkeeps h
  · intro s hs
    exact (good_iff hs.inv).mpr hs.room

/-- After the query the pointer lets go of an object that is not deleted. -/
theorem ref_count_leaks_after_query :
    let actions : List Action := [.newObject, .construct (some 0), .hasAtLeastOneRef 0, .destroy 0]
    run step Heap.new actions = some ⟨[⟨1, 0, true⟩], [none]⟩ ∧
      ¬Along step Good Heap.new actions := by
  intro actions
  refine ⟨by decide, fun h => ?_⟩
  have hlast := ((((h.2 _ rfl).2 _ rfl).2 _ rfl).2 _ rfl).good
  exact absurd (hlast.destroyed 0 ⟨1, 0, true⟩ rfl) (by decide)

end Iomgr.RefCounted
