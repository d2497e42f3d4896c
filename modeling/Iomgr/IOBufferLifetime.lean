import Iomgr.IOBufferMemory
import Mathlib.Data.List.Count

/-!
Memory of buffers over whole runs. The references of a buffer are counted, each block has one owner
that frees it, and what `data_` points into is a block of a buffer further down the chain of bases.
Only a `realloc` can break the last of these, and only one that fails loses a block.
-/

namespace Iomgr

open Ownership

namespace IOBufferHeap

/-- The base of each buffer, where there is one. -/
def bases (s : IOBufferHeap) : List (Option Nat) := s.buffers.map fun o => o.bind IOBufferObject.base

/-- The `RefPtr`s to a buffer, those inside of other buffers included. -/
def holders (s : IOBufferHeap) (y : Nat) : Nat := s.refPtrs.count (some y) + s.bases.count (some y)

def live (s : IOBufferHeap) : Set Nat := {m | ∃ a, s.blocks[m]? = some (some a)}

/-- Who has a block: the buffer that frees it, or nobody any more. -/
inductive Owner
  | buffer (y : Nat)
  | lost (k : Nat)
  deriving DecidableEq

def held (s : IOBufferHeap) : Owner → Option Nat
  | .buffer y => (s.buffer y).bind fun o => o.owned.map Prod.fst
  | .lost k => s.lost[k]?

variable {s t : IOBufferHeap} {x y : Nat} {o : IOBufferObject} {f : IOBufferObject → IOBufferObject}

/-! ### What the operations leave -/

theorem buffer_onBuffer (s : IOBufferHeap) (y x : Nat) (f : IOBufferObject → IOBufferObject) :
    (s.onBuffer y f).buffer x = if x = y then (s.buffer y).map f else s.buffer x := by
  simp only [onBuffer, buffer, List.getElem?_modify]
  by_cases hx : x = y
  · subst hx
    cases s.buffers[x]? <;> simp
  · rw [if_neg hx]
    cases s.buffers[x]? <;> simp [Ne.symm hx]

/-- Without the buffer that is deleted. -/
def without (s : IOBufferHeap) (y : Nat) : IOBufferHeap := { s with buffers := s.buffers.set y none }

theorem buffer_without (s : IOBufferHeap) (y x : Nat) :
    (s.without y).buffer x = if x = y then none else s.buffer x := by
  simp only [without, buffer, List.getElem?_set]
  by_cases hx : x = y
  · subst hx
    by_cases hlt : x < s.buffers.length <;> simp [hlt]
  · rw [if_neg hx, if_neg (Ne.symm hx)]

theorem buffer_of_length_le (h : s.buffers.length ≤ y) : s.buffer y = none := by
  rw [buffer, List.getElem?_eq_none h]
  rfl

theorem buffer_make (s : IOBufferHeap) (o : IOBufferObject) (x : Nat) :
    (s.make o).buffer x = if x = s.buffers.length then some o else s.buffer x := by
  simp only [make, keep, buffer, List.getElem?_append]
  by_cases hx : x = s.buffers.length
  · simp [hx]
  · rw [if_neg hx]
    by_cases hlt : x < s.buffers.length
    · rw [if_pos hlt]
    · have hout : x - s.buffers.length ≠ 0 := by omega
      rw [if_neg hlt, List.getElem?_eq_none (by omega : s.buffers.length ≤ x),
        List.getElem?_eq_none (Nat.pos_of_ne_zero hout)]

theorem getElem?_bases (s : IOBufferHeap) (y : Nat) :
    s.bases[y]?.join = (s.buffer y).bind IOBufferObject.base := by
  rw [bases, List.getElem?_map, buffer]
  rcases s.buffers[y]? with _ | _ | o <;> rfl

theorem bases_onBuffer (hbase : ∀ o, s.buffer y = some o → (f o).base = o.base) :
    (s.onBuffer y f).bases = s.bases := by
  refine List.ext_getElem? fun x => ?_
  simp only [bases, onBuffer, List.getElem?_map, List.getElem?_modify]
  by_cases hx : y = x
  · subst hx
    rw [buffer] at hbase
    rcases hy : s.buffers[y]? with _ | _ | o
    · rfl
    · simp
    · rw [hy] at hbase
      simpa using hbase o rfl
  · simp [hx]

theorem bases_without (s : IOBufferHeap) (y : Nat) : (s.without y).bases = s.bases.set y none := by
  simp [bases, without, List.map_set]

theorem bases_make (s : IOBufferHeap) (o : IOBufferObject) :
    (s.make o).bases = s.bases ++ [o.base] := by
  simp [bases, make, keep]

/-- Where only one buffer is another one, only this one may have another block. -/
theorem held_eq_update {o : Option IOBufferObject}
    (hbuffer : ∀ x, t.buffer x = if x = y then o else s.buffer x) (hlost : t.lost = s.lost) :
    t.held = Function.update s.held (.buffer y) (o.bind fun o => o.owned.map Prod.fst) := by
  funext w
  cases w with
  | lost k => exact congrArg (·[k]?) hlost
  | buffer x =>
      rw [held, hbuffer]
      by_cases hx : x = y
      · rw [if_pos hx, hx, Function.update_self]
      · have hne : Owner.buffer x ≠ .buffer y := fun h => hx (Owner.buffer.inj h)
        rw [if_neg hx, Function.update_of_ne hne, held]

theorem held_onBuffer (hy : s.buffer y = some o) :
    (s.onBuffer y f).held = Function.update s.held (.buffer y) ((f o).owned.map Prod.fst) := by
  rw [held_eq_update (s.buffer_onBuffer y · f) rfl, hy]
  rfl

theorem held_onBuffer_of_owned (howned : ∀ o, s.buffer y = some o → (f o).owned = o.owned) :
    (s.onBuffer y f).held = s.held := by
  rw [held_eq_update (s.buffer_onBuffer y · f) rfl, Function.update_eq_self_iff, held]
  cases hy : s.buffer y with
  | none => rfl
  | some o => simp [howned o hy]

theorem held_without (s : IOBufferHeap) (y : Nat) :
    (s.without y).held = Function.update s.held (.buffer y) none :=
  held_eq_update (s.buffer_without y) rfl

theorem held_make (s : IOBufferHeap) (o : IOBufferObject) :
    (s.make o).held = Function.update s.held (.buffer s.buffers.length) (o.owned.map Prod.fst) :=
  held_eq_update (s.buffer_make o) rfl

/-! ### The references -/

theorem count_set_none (l : List (Option Nat)) (i y : Nat) :
    (l.set i none).count (some y) + (if l[i]?.join = some y then 1 else 0) = l.count (some y) := by
  induction l generalizing i with
  | nil => simp
  | cons x l ih =>
      cases i with
      | zero =>
          by_cases hx : x = some y
          · simp [hx]
          · simp [hx]
      | succ i =>
          have hrest := ih i
          simp only [List.set_cons_succ, List.count_cons, List.getElem?_cons_succ]
          omega

/-- The references to a buffer, with the one that is just being made or given back. -/
def references (s : IOBufferHeap) (owed : Option Nat) (y : Nat) : Nat :=
  s.holders y + if owed = some y then 1 else 0

/-- Every buffer has as many references as its count says, one at least, and its base is an older
one. -/
structure Counted (owed : Option Nat) (s : IOBufferHeap) : Prop where
  count : ∀ y, (s.buffer y).elim 0 IOBufferObject.refCount = s.references owed y
  pos : ∀ y o, s.buffer y = some o → 0 < o.refCount
  older : ∀ y o base, s.buffer y = some o → o.base = some base → base < y

theorem counted_new : Counted none new where
  count _ := rfl
  pos _ _ h := by cases h
  older _ _ _ h := by cases h

namespace Counted

variable {owed : Option Nat}

/-- A buffer that something refers to has not been deleted. -/
theorem exists_of_references (h : Counted owed s) (hpos : 0 < s.references owed y) :
    ∃ o, s.buffer y = some o ∧ o.refCount = s.references owed y := by
  have hcount := h.count y
  cases hy : s.buffer y with
  | none =>
      rw [hy, Option.elim_none] at hcount
      omega
  | some o =>
      rw [hy, Option.elim_some] at hcount
      exact ⟨o, rfl, hcount⟩

/-- A buffer gets another count, which is that of its references from now on. -/
theorem onBuffer {owed' : Option Nat} (h : Counted owed s) (hy : s.buffer y = some o)
    (hbase : (f o).base = o.base) (hpos : 0 < (f o).refCount)
    (hself : (f o).refCount = s.references owed' y)
    (hothers : ∀ x, x ≠ y → s.references owed' x = s.references owed x) :
    Counted owed' (s.onBuffer y f) := by
  have hbases : (s.onBuffer y f).bases = s.bases := bases_onBuffer fun o' ho' => by
    cases hy.symm.trans ho'
    exact hbase
  refine ⟨fun x => ?_, fun x o' hx => ?_, fun x o' base hx hbase' => ?_⟩
  · have hsame : (s.onBuffer y f).references owed' x = s.references owed' x := by
      rw [references, holders, hbases]
      rfl
    rw [hsame, buffer_onBuffer]
    by_cases hxy : x = y
    · rw [hxy, if_pos rfl, hy]
      exact hself
    · rw [if_neg hxy, hothers x hxy]
      exact h.count x
  · rw [buffer_onBuffer, hy] at hx
    split at hx
    · cases hx
      exact hpos
    · exact h.pos x o' hx
  · rw [buffer_onBuffer, hy] at hx
    split at hx
    · next hxy =>
        cases hx
        exact hxy ▸ h.older y o base hy (hbase.symm.trans hbase')
    · exact h.older x o' base hx hbase'

/-- What an operation does to the other members of a buffer does not matter. -/
theorem onBuffer_of_same (h : Counted owed s) (hy : s.buffer y = some o)
    (hbase : (f o).base = o.base) (hcount : (f o).refCount = o.refCount) :
    Counted owed (s.onBuffer y f) := by
  have hself := h.count y
  rw [hy, Option.elim_some] at hself
  exact h.onBuffer hy hbase (hcount ▸ h.pos y o hy) (hcount.trans hself) fun _ _ => rfl

theorem references_some (s : IOBufferHeap) (y : Nat) :
    s.references (some y) y = s.references none y + 1 := by
  simp [references]

theorem references_of_ne (s : IOBufferHeap) (h : x ≠ y) :
    s.references (some y) x = s.references none x := by
  simp [references, Ne.symm h]

theorem addRef (h : Counted none s) (hy : s.buffer y = some o) : Counted (some y) (s.addRef y) := by
  have hself := h.count y
  rw [hy, Option.elim_some] at hself
  refine h.onBuffer hy rfl (Nat.succ_pos _) ?_ fun x hx => references_of_ne s hx
  rw [references_some, ← hself]

/-- A reference is given back that is not the last one. -/
theorem giveBack (h : Counted (some y) s) (hy : s.buffer y = some o) (ho : o.refCount ≠ 1) :
    Counted none (s.onBuffer y fun o => { o with refCount := o.refCount - 1 }) := by
  have hself := h.count y
  rw [hy, Option.elim_some, references_some] at hself
  have hpos := h.pos y o hy
  refine h.onBuffer hy rfl (Nat.sub_pos_of_lt (by omega)) ?_ fun x hx => (references_of_ne s hx).symm
  change o.refCount - 1 = s.references none y
  omega

theorem keep (h : Counted (some y) s) : Counted none (s.keep y) := by
  refine ⟨fun x => ?_, h.pos, h.older⟩
  have hcount : (s.buffer x).elim 0 IOBufferObject.refCount = s.references (some y) x := h.count x
  rw [references, holders] at hcount ⊢
  change (s.buffer x).elim 0 _ = (s.refPtrs ++ [some y]).count (some x) + s.bases.count (some x) + _
  rw [hcount, List.count_append]
  by_cases hxy : y = x
  · simp [hxy]
    omega
  · simp [hxy]

theorem letGo {i : Nat} (h : Counted none s) (hi : s.target i = some y) :
    Counted (some y) { s with refPtrs := s.refPtrs.set i none } := by
  refine ⟨fun x => ?_, h.pos, h.older⟩
  have hcount : (s.buffer x).elim 0 IOBufferObject.refCount = s.references none x := h.count x
  have hset := count_set_none s.refPtrs i x
  rw [target] at hi
  rw [references, holders] at hcount ⊢
  change (s.buffer x).elim 0 _ =
    (s.refPtrs.set i none).count (some x) + s.bases.count (some x) + _
  rw [hi] at hset
  rw [if_neg (Option.some_ne_none x).symm] at hcount
  omega

theorem make (h : Counted o.base s) (ho : o.refCount = 1) : Counted none (s.make o) := by
  have hlength := h.count s.buffers.length
  rw [s.buffer_of_length_le le_rfl, Option.elim_none] at hlength
  have hbase : ∀ base, o.base = some base → base < s.buffers.length := by
    intro base hbase
    by_contra hle
    have hcount := h.count base
    rw [s.buffer_of_length_le (not_lt.mp hle), Option.elim_none, references, hbase] at hcount
    simp at hcount
  refine ⟨fun x => ?_, fun x o' hx => ?_, fun x o' base hx hbase' => ?_⟩
  · have hcount := h.count x
    have hrefPtrs : (s.make o).refPtrs = s.refPtrs ++ [some s.buffers.length] := rfl
    rw [references, holders] at hcount hlength ⊢
    rw [buffer_make, bases_make, hrefPtrs, List.count_append, List.count_append]
    by_cases hx : x = s.buffers.length
    · subst hx
      have hnone : o.base ≠ some s.buffers.length := fun heq => (hbase _ heq).false
      rw [if_neg hnone] at hlength
      simp [ho, hnone]
      omega
    · simp [hx, Ne.symm hx, hcount, List.count_singleton]
      omega
  · rw [buffer_make] at hx
    split at hx
    · cases hx
      omega
    · exact h.pos x o' hx
  · rw [buffer_make] at hx
    split at hx
    · next hxy =>
        cases hx
        exact hxy ▸ hbase base hbase'
    · exact h.older x o' base hx hbase'

/-- The last reference is given back, and the buffer gives back the one to its base. -/
theorem without (h : Counted (some y) s) (hy : s.buffer y = some o) (ho : o.refCount = 1) :
    Counted o.base (s.without y) := by
  refine ⟨fun x => ?_, fun x o' hx => ?_, fun x o' base hx hbase => ?_⟩
  · have hcount := h.count x
    have hset := count_set_none s.bases y x
    rw [getElem?_bases, hy, Option.bind_some] at hset
    rw [references, holders] at hcount ⊢
    rw [buffer_without, bases_without]
    change _ = s.refPtrs.count (some x) + _ + _
    by_cases hxy : x = y
    · subst hxy
      rw [hy, Option.elim_some, ho, if_pos rfl] at hcount
      have hself : o.base ≠ some x := fun hbase => (h.older x o x hy hbase).false
      rw [if_neg hself] at hset
      rw [if_pos rfl, if_neg hself, Option.elim_none]
      omega
    · rw [if_neg fun heq => hxy (Option.some.inj heq).symm] at hcount
      rw [if_neg hxy]
      omega
  · rw [buffer_without] at hx
    split at hx
    · cases hx
    · exact h.pos x o' hx
  · rw [buffer_without] at hx
    split at hx
    · cases hx
    · exact h.older x o' base hx hbase

end Counted

/-! ### The blocks -/

/-- What the object frees is not the caller's. -/
def FreesOwn (o : IOBufferObject) : Prop :=
  match o.members with
  | .plain => o.data.memory ≠ .foreign
  | .growable realData _ _ => realData ≠ .foreign
  | _ => True

/-- What the object frees is a block, and it was allocated to be freed so. -/
structure Frees (s : IOBufferHeap) (o : IOBufferObject) : Prop where
  own : FreesOwn o
  allocated : ∀ m a, o.owned = some (m, a) → s.blocks[m]? = some (some a)

/-- Each block that is not freed has one owner, and nothing else was ever freed. -/
structure MemoryOwned (s : IOBufferHeap) : Prop where
  owns : Owns s.held s.live
  frees : ∀ y o, s.buffer y = some o → s.Frees o
  faults : s.faults = 0

/-- A block is there no more. -/
def clear (s : IOBufferHeap) (m : Option Nat) : IOBufferHeap :=
  { s with blocks := m.elim s.blocks fun m => s.blocks.set m none }

theorem getElem?_clear (s : IOBufferHeap) (m : Option Nat) (k : Nat) (a : Allocator) :
    (s.clear m).blocks[k]? = some (some a) ↔ s.blocks[k]? = some (some a) ∧ m ≠ some k := by
  cases m with
  | none => simp [clear]
  | some m =>
      rw [clear, Option.elim_some, List.getElem?_set]
      by_cases hk : m = k
      · simp [hk]
      · simp [hk]

theorem live_clear (s : IOBufferHeap) (m : Option Nat) :
    (s.clear m).live = s.live \ {k | m = some k} := by
  ext k
  simp only [live, Set.mem_ofPred_eq, getElem?_clear, exists_and_right, Set.mem_sdiff, ne_eq]

theorem getElem?_allocate (s : IOBufferHeap) (b : Allocator) (k : Nat) (a : Allocator) :
    (s.allocate b).blocks[k]? = some (some a) ↔
      s.blocks[k]? = some (some a) ∨ k = s.blocks.length ∧ b = a := by
  rw [allocate, List.getElem?_append]
  by_cases hk : k < s.blocks.length
  · have hne : k ≠ s.blocks.length := hk.ne
    simp [hk, hne]
  · rw [if_neg hk, List.getElem?_eq_none (not_lt.mp hk)]
    by_cases heq : k = s.blocks.length
    · simp [heq]
    · have hpos : k - s.blocks.length ≠ 0 := by omega
      simp [heq, hpos]

theorem live_allocate (s : IOBufferHeap) (b : Allocator) :
    (s.allocate b).live = insert s.blocks.length s.live := by
  ext k
  simp only [live, Set.mem_ofPred_eq, getElem?_allocate, Set.mem_insert_iff, exists_or]
  constructor
  · rintro (h | ⟨a, hk, -⟩)
    · exact .inr h
    · exact .inl hk
  · rintro (hk | h)
    · exact .inr ⟨b, hk, rfl⟩
    · exact .inl h

theorem length_notMem_live (s : IOBufferHeap) : s.blocks.length ∉ s.live := by
  rintro ⟨a, ha⟩
  rw [List.getElem?_eq_none le_rfl] at ha
  cases ha

theorem free_eq_clear {memory : Memory} {a : Allocator} (hforeign : memory ≠ .foreign)
    (hallocated : ∀ m, memory.number = some m → s.blocks[m]? = some (some a)) :
    s.free memory a = s.clear memory.number := by
  cases memory with
  | null => rfl
  | block m => exact if_pos (hallocated m rfl)
  | foreign => exact absurd rfl hforeign

theorem Frees.destruct_eq (h : s.Frees o) : s.destruct o = s.clear (o.owned.map Prod.fst) := by
  obtain ⟨hown, hallocated⟩ := h
  rw [IOBufferObject.owned] at hallocated ⊢
  unfold destruct
  unfold FreesOwn at hown
  split
  · next hmembers =>
      rw [free_eq_clear (by rwa [hmembers] at hown) fun m hm =>
        hallocated m .newArray (by simp [hmembers, hm])]
      simp [Function.comp_def]
  · next text hmembers =>
      refine free_eq_clear Memory.noConfusion fun m hm => ?_
      cases hm
      exact hallocated text .string (by rw [hmembers])
  · next realData capacity offset hmembers =>
      rw [free_eq_clear (by rwa [hmembers] at hown) fun m hm =>
        hallocated m .malloc (by simp [hmembers, hm])]
      simp [Function.comp_def]
  · rfl
  · rfl

theorem memoryOwned_new : MemoryOwned new where
  owns := by
    have hheld : new.held = fun _ => none := by
      funext w
      cases w <;> rfl
    have hlive : new.live = ∅ := by
      ext m
      simp [live, new]
    rw [hheld, hlive]
    exact owns_empty
  frees _ _ h := by cases h
  faults := rfl

namespace MemoryOwned

theorem held_eq (hy : s.buffer y = some o) : s.held (.buffer y) = o.owned.map Prod.fst := by
  rw [held, hy]
  rfl

theorem frees_ne (h : MemoryOwned s) {m : Nat} {a : Allocator} {o' : IOBufferObject}
    (hx : s.buffer x = some o') (howned : o'.owned = some (m, a)) (hxy : x ≠ y) :
    s.held (.buffer y) ≠ some m := by
  intro hy
  have hheld : s.held (.buffer x) = some m := by rw [held_eq hx, howned]; rfl
  exact hxy (Owner.buffer.inj (h.owns.unique hheld hy))

/-- A buffer is deleted: its block is freed, and nothing else. -/
theorem delete (h : MemoryOwned s) (hy : s.buffer y = some o) :
    MemoryOwned ((s.without y).destruct o) ∧
      (s.without y).destruct o = (s.without y).clear (o.owned.map Prod.fst) := by
  have hfrees : (s.without y).Frees o := ⟨(h.frees y o hy).own, (h.frees y o hy).allocated⟩
  have heq := hfrees.destruct_eq
  refine ⟨?_, heq⟩
  rw [heq]
  refine ⟨?_, fun x o' hx => ?_, h.faults⟩
  · have hdrop := h.owns.drop (.buffer y)
    rw [held_eq hy] at hdrop
    change Owns (s.without y).held ((s.without y).clear (o.owned.map Prod.fst)).live
    rw [live_clear, held_without]
    exact hdrop
  · have hne : x ≠ y := by
      rintro rfl
      change (s.without x).buffer x = some o' at hx
      rw [buffer_without, if_pos rfl] at hx
      cases hx
    have hx' : s.buffer x = some o' := by
      change (s.without y).buffer x = some o' at hx
      rwa [buffer_without, if_neg hne] at hx
    refine ⟨(h.frees x o' hx').own, fun m a howned => ?_⟩
    rw [getElem?_clear]
    exact ⟨(h.frees x o' hx').allocated m a howned, held_eq hy ▸ h.frees_ne hx' howned hne⟩

/-- A buffer without a block of its own is made. -/
theorem make_of_none (h : MemoryOwned s) (hown : FreesOwn o) (howned : o.owned = none) :
    MemoryOwned (s.make o) := by
  refine ⟨?_, fun x o' hx => ?_, h.faults⟩
  · have hnone : s.held (.buffer s.buffers.length) = none := by
      rw [held, buffer_of_length_le le_rfl]
      rfl
    have hsame : (s.make o).held = s.held := by
      rw [held_make, howned, Option.map_none, ← hnone, Function.update_eq_self]
    rw [hsame]
    exact h.owns
  · rw [buffer_make] at hx
    split at hx
    · cases hx
      refine ⟨hown, fun m a hm => ?_⟩
      rw [howned] at hm
      cases hm
    · exact ⟨(h.frees x o' hx).own, (h.frees x o' hx).allocated⟩

/-- A buffer is made with a new block. -/
theorem make_of_new {a : Allocator} (h : MemoryOwned s) (hown : FreesOwn o)
    (howned : o.owned = some (s.blocks.length, a)) : MemoryOwned ((s.allocate a).make o) := by
  refine ⟨?_, fun x o' hx => ?_, h.faults⟩
  · have hnone : s.held (.buffer s.buffers.length) = none := by
      rw [held, buffer_of_length_le le_rfl]
      rfl
    have hacquire := h.owns.acquire hnone s.length_notMem_live
    rw [held_make, howned]
    change Owns _ (s.allocate a).live
    rw [live_allocate]
    exact hacquire
  · rw [buffer_make] at hx
    split at hx
    · cases hx
      refine ⟨hown, fun m b hm => ?_⟩
      cases howned.symm.trans hm
      exact (getElem?_allocate s a _ a).mpr (.inr ⟨rfl, rfl⟩)
    · have hold := h.frees x o' hx
      refine ⟨hold.own, fun m b hm => ?_⟩
      exact (getElem?_allocate s a m b).mpr (.inl (hold.allocated m b hm))

/-- What happens to a buffer apart from its block. -/
theorem onBuffer_of_same (h : MemoryOwned s) (hy : s.buffer y = some o) (hown : FreesOwn (f o))
    (howned : (f o).owned = o.owned) : MemoryOwned (s.onBuffer y f) := by
  refine ⟨?_, fun x o' hx => ?_, h.faults⟩
  · have hsame : (s.onBuffer y f).held = s.held := held_onBuffer_of_owned fun o' ho' => by
      cases hy.symm.trans ho'
      exact howned
    rw [hsame]
    exact h.owns
  · rw [buffer_onBuffer, hy] at hx
    split at hx
    · cases hx
      exact ⟨hown, fun m a hm => (h.frees y o hy).allocated m a (howned.symm.trans hm)⟩
    · exact ⟨(h.frees x o' hx).own, (h.frees x o' hx).allocated⟩

end MemoryOwned

/-! ### The pointers -/

/-- From a buffer down the chain of bases. -/
inductive Based (bases : List (Option Nat)) : Nat → Nat → Prop
  | refl (y : Nat) : Based bases y y
  | step {y z x : Nat} (hbase : bases[y]?.join = some z) (hrest : Based bases z x) : Based bases y x

/-- The block belongs to a buffer down the chain, or it is lost. -/
def Anchor (s : IOBufferHeap) (y m : Nat) : Prop :=
  (∃ x, Based s.bases y x ∧ s.held (.buffer x) = some m) ∨ m ∈ s.lost

/-- The bytes of the buffer are where they are for as long as it lives. -/
def IsStatic (o : IOBufferObject) : Prop :=
  match o.members with
  | .plain | .string _ | .wrapped => True
  | _ => False

/-- The buffer shows what its base has from `used_` on. -/
def Shows (o b : IOBufferObject) (used : Int) : Prop :=
  o.data = ⟨b.data.memory, b.data.offset + used⟩

/-- Where the pointers point: into a block down the chain, and over a base that stays where it is to
the byte that comes next. -/
structure Pointed (s : IOBufferHeap) : Prop where
  anchored : ∀ y o m, s.buffer y = some o → o.data.memory = .block m → s.Anchor y m
  drained : ∀ y o base used b, s.buffer y = some o → o.members = .drainable base used →
    s.buffer base = some b → IsStatic b → Shows o b used

theorem pointed_new : Pointed new where
  anchored _ _ _ h := by cases h
  drained _ _ _ _ _ h := by cases h

/-- A block at the end of a chain is there. -/
theorem MemoryOwned.mem_live {m : Nat} (h : MemoryOwned s) (hanchor : s.Anchor y m) : m ∈ s.live := by
  rcases hanchor with ⟨x, -, hheld⟩ | hlost
  · exact h.owns.mem_live hheld
  · obtain ⟨k, hk⟩ := List.mem_iff_getElem?.mp hlost
    have hheld : s.held (.lost k) = some m := hk
    exact h.owns.mem_live hheld

theorem Anchor.congr {m : Nat} (h : s.Anchor y m) (hbases : t.bases = s.bases)
    (hheld : t.held = s.held) (hlost : t.lost = s.lost) : t.Anchor y m := by
  rw [Anchor, hbases, hheld, hlost]
  exact h

theorem Based.append {l : List (Option Nat)} (h : Based l y x) (l' : List (Option Nat)) :
    Based (l ++ l') y x := by
  induction h with
  | refl y => exact .refl y
  | step hbase _ ih =>
      refine .step ?_ ih
      have hget := Option.join_eq_some_iff.mp hbase
      rw [List.getElem?_append_left (List.getElem?_eq_some_iff.mp hget).1]
      exact hbase

/-- A chain does not come to a buffer that is no buffer's base. -/
theorem Based.set_none {l : List (Option Nat)} {z : Nat} (h : Based l y x) (hyz : y ≠ z)
    (hnone : l.count (some z) = 0) : Based (l.set z none) y x ∧ x ≠ z := by
  induction h with
  | refl y => exact ⟨.refl y, hyz⟩
  | @step y w x hbase _ ih =>
      have hget := Option.join_eq_some_iff.mp hbase
      have hwz : w ≠ z := by
        rintro rfl
        exact List.count_eq_zero.mp hnone (List.mem_of_getElem? hget)
      obtain ⟨hrest, hx⟩ := ih hwz
      refine ⟨.step ?_ hrest, hx⟩
      rwa [List.getElem?_set_ne (Ne.symm hyz)]

namespace Pointed

/-- One buffer changes, but neither its base nor its block. -/
theorem onBuffer (h : Pointed s) (hy : s.buffer y = some o) (hbase : (f o).base = o.base)
    (howned : (f o).owned = o.owned) (hstatic : IsStatic (f o) → IsStatic o ∧ (f o).data = o.data)
    (hanchored : ∀ m, (f o).data.memory = .block m → s.Anchor y m)
    (hdrained : ∀ base used b, (f o).members = .drainable base used → s.buffer base = some b →
      IsStatic b → Shows (f o) b used) : Pointed (s.onBuffer y f) := by
  have hself : ∀ {o'}, s.buffer y = some o' → o' = o := fun h => Option.some.inj (h.symm.trans hy)
  have hbases : (s.onBuffer y f).bases = s.bases := bases_onBuffer fun o' ho' => by
    rw [hself ho', hbase]
  have hheld : (s.onBuffer y f).held = s.held := held_onBuffer_of_owned fun o' ho' => by
    rw [hself ho', howned]
  refine ⟨fun x o' m hx hdata => ?_, fun x o' base used b hx hmembers hb hbstatic => ?_⟩
  · refine Anchor.congr ?_ hbases hheld rfl
    rw [buffer_onBuffer, hy] at hx
    split at hx
    · next hxy =>
        cases hx
        exact hxy ▸ hanchored m hdata
    · exact h.anchored x o' m hx hdata
  · -- the base as it was shows the same
    obtain ⟨b', hb', hstatic', hdata'⟩ :
        ∃ b', s.buffer base = some b' ∧ IsStatic b' ∧ b'.data = b.data := by
      rw [buffer_onBuffer, hy] at hb
      split at hb
      · next heq =>
          cases hb
          exact ⟨o, heq ▸ hy, (hstatic hbstatic).1, (hstatic hbstatic).2.symm⟩
      · exact ⟨b, hb, hbstatic, rfl⟩
    rw [Shows, ← hdata']
    rw [buffer_onBuffer, hy] at hx
    split at hx
    · cases hx
      exact hdrained base used b' hmembers hb' hstatic'
    · exact h.drained x o' base used b' hx hmembers hb' hstatic'

/-- Only the count of a buffer changes. -/
theorem onBuffer_of_same (h : Pointed s) (hy : s.buffer y = some o)
    (hmembers : (f o).members = o.members) (hdata : (f o).data = o.data) :
    Pointed (s.onBuffer y f) := by
  have hbase : (f o).base = o.base := by rw [IOBufferObject.base, hmembers, IOBufferObject.base]
  have howned : (f o).owned = o.owned := by
    rw [IOBufferObject.owned, hmembers, hdata, IOBufferObject.owned]
  refine h.onBuffer hy hbase howned (fun hstatic => ⟨?_, hdata⟩) (fun m hm => ?_) ?_
  · rwa [IsStatic, hmembers] at hstatic
  · exact h.anchored y o m hy (hdata ▸ hm)
  · intro base used b hdrain hb hbstatic
    rw [Shows, hdata]
    exact h.drained y o base used b hy (hmembers ▸ hdrain) hb hbstatic

/-- A buffer is deleted that nothing refers to. -/
theorem delete (h : Pointed s) (hcount : s.bases.count (some y) = 0) (m : Option Nat) :
    Pointed ((s.without y).clear m) := by
  have hkept : ∀ {x o'}, ((s.without y).clear m).buffer x = some o' →
      x ≠ y ∧ s.buffer x = some o' := by
    intro x o' hx
    change (s.without y).buffer x = some o' at hx
    rw [buffer_without] at hx
    split at hx
    · cases hx
    · exact ⟨‹_›, hx⟩
  refine ⟨fun x o' k hx hdata => ?_, fun x o' base used b hx hmembers hb hstatic => ?_⟩
  · obtain ⟨hxy, hx⟩ := hkept hx
    rcases h.anchored x o' k hx hdata with ⟨z, hbased, hheld⟩ | hlost
    · obtain ⟨hchain, hzy⟩ := hbased.set_none hxy hcount
      refine .inl ⟨z, ?_, ?_⟩
      · change Based (s.without y).bases x z
        rwa [bases_without]
      · have hne : Owner.buffer z ≠ .buffer y := fun heq => hzy (Owner.buffer.inj heq)
        change (s.without y).held (.buffer z) = some k
        rwa [held_without, Function.update_of_ne hne]
    · exact .inr hlost
  · exact h.drained x o' base used b (hkept hx).2 hmembers (hkept hb).2 hstatic

theorem anchor_make {m : Nat} (h : s.Anchor y m) (o : IOBufferObject) : (s.make o).Anchor y m := by
  rcases h with ⟨x, hbased, hheld⟩ | hlost
  · have hne : Owner.buffer x ≠ .buffer s.buffers.length := by
      intro heq
      rw [heq, held, buffer_of_length_le le_rfl] at hheld
      cases hheld
    refine .inl ⟨x, ?_, ?_⟩
    · rw [bases_make]
      exact hbased.append _
    · rwa [held_make, Function.update_of_ne hne]
  · exact .inr hlost

/-- A buffer is made. What it shows is its own, or its base's. -/
theorem make {owed : Option Nat} (h : Pointed s) (hcounted : Counted owed s)
    (hanchored : ∀ m, o.data.memory = .block m →
      o.owned.map Prod.fst = some m ∨ ∃ z, o.base = some z ∧ s.Anchor z m)
    (hdrained : ∀ base used, o.members = .drainable base used →
      ∃ b, s.buffer base = some b ∧ Shows o b used) : Pointed (s.make o) := by
  -- the base of a buffer is none that is only being made
  have hdrained' : ∀ base used b, o.members = .drainable base used →
      (s.make o).buffer base = some b → Shows o b used := by
    intro base used b hmembers hb
    obtain ⟨b', hb', hshows⟩ := hdrained base used hmembers
    have hne : base ≠ s.buffers.length := by
      rintro rfl
      rw [buffer_of_length_le le_rfl] at hb'
      cases hb'
    rw [buffer_make, if_neg hne] at hb
    cases hb.symm.trans hb'
    exact hshows
  refine ⟨fun x o' m hx hdata => ?_, fun x o' base used b hx hmembers hb hstatic => ?_⟩
  · rw [buffer_make] at hx
    split at hx
    · next hlength =>
        cases hx
        subst hlength
        rcases hanchored m hdata with howned | ⟨z, hz, hanchor⟩
        · refine .inl ⟨_, .refl _, ?_⟩
          rw [held_make, Function.update_self, howned]
        · rcases anchor_make hanchor o with ⟨w, hbased, hheld⟩ | hlost
          · refine .inl ⟨w, .step ?_ hbased, hheld⟩
            rw [getElem?_bases, buffer_make, if_pos rfl, Option.bind_some, hz]
          · exact .inr hlost
    · exact anchor_make (h.anchored x o' m hx hdata) o
  · rw [buffer_make] at hx
    split at hx
    · cases hx
      exact hdrained' base used b hmembers hb
    · rw [buffer_make] at hb
      split at hb
      · have hlt : x < s.buffers.length := by
          by_contra hle
          rw [buffer_of_length_le (not_lt.mp hle)] at hx
          cases hx
        have hbase : o'.base = some base := by rw [IOBufferObject.base, hmembers]
        have holder := hcounted.older x o' base hx hbase
        omega
      · exact h.drained x o' base used b hx hmembers hb hstatic

end Pointed

/-! ### The last reference -/

theorem releaseRounds_of_one {n : Nat} (hy : s.buffer y = some o) (hone : o.refCount = 1) :
    releaseRounds (n + 1) s y =
      o.base.elim ((s.without y).destruct o) (releaseRounds n ((s.without y).destruct o)) := by
  rw [releaseRounds, hy]
  dsimp only
  rw [if_pos hone]
  cases o.base <;> rfl

theorem releaseRounds_of_ne_one {n : Nat} (hy : s.buffer y = some o) (hmore : o.refCount ≠ 1) :
    releaseRounds (n + 1) s y = s.onBuffer y fun o => { o with refCount := o.refCount - 1 } := by
  rw [releaseRounds, hy]
  exact if_neg hmore

theorem releaseRounds_spec {n : Nat} (hn : y < n) (hcounted : Counted (some y) s)
    (howned : MemoryOwned s) :
    Counted none (releaseRounds n s y) ∧ MemoryOwned (releaseRounds n s y) ∧
      (Pointed s → Pointed (releaseRounds n s y)) := by
  induction n generalizing s y with
  | zero => exact absurd hn (Nat.not_lt_zero y)
  | succ n ih =>
      have hpos : 0 < s.references (some y) y := by
        rw [Counted.references_some]
        exact Nat.succ_pos _
      obtain ⟨o, hy, hcount⟩ := hcounted.exists_of_references hpos
      by_cases hone : o.refCount = 1
      · -- no other buffer has this one as its base
        have hbases : s.bases.count (some y) = 0 := by
          rw [hone, Counted.references_some, references, holders] at hcount
          omega
        obtain ⟨hdeleted, heq⟩ := howned.delete hy
        have hcounted' : Counted o.base ((s.without y).destruct o) := by
          have hleft := hcounted.without hy hone
          rw [heq]
          exact ⟨hleft.count, hleft.pos, hleft.older⟩
        have hpointed : Pointed s → Pointed ((s.without y).destruct o) := by
          rw [heq]
          exact fun h => h.delete hbases _
        rw [releaseRounds_of_one hy hone]
        cases hbase : o.base with
        | none =>
            rw [hbase] at hcounted'
            exact ⟨hcounted', hdeleted, hpointed⟩
        | some base =>
            have hlt := hcounted.older y o base hy hbase
            rw [hbase] at hcounted'
            obtain ⟨hc, hm, hp⟩ := ih (by omega) hcounted' hdeleted
            exact ⟨hc, hm, hp ∘ hpointed⟩
      · rw [releaseRounds_of_ne_one hy hone]
        refine ⟨hcounted.giveBack hy hone, ?_, fun h => h.onBuffer_of_same hy rfl rfl⟩
        exact howned.onBuffer_of_same hy (howned.frees y o hy).own rfl

theorem lost_free (s : IOBufferHeap) (memory : Memory) (a : Allocator) :
    (s.free memory a).lost = s.lost := by
  unfold free
  split
  · rfl
  · split <;> rfl
  · rfl

theorem lost_releaseRounds (n : Nat) (s : IOBufferHeap) (y : Nat) :
    (releaseRounds n s y).lost = s.lost := by
  have hdestruct : ∀ (s : IOBufferHeap) (o : IOBufferObject), (s.destruct o).lost = s.lost := by
    intro s o
    unfold destruct
    split
    · exact lost_free _ _ _
    · exact lost_free _ _ _
    · exact lost_free _ _ _
    · rfl
    · rfl
  induction n generalizing s y with
  | zero => rfl
  | succ n ih =>
      unfold releaseRounds
      split
      · rfl
      · split
        · dsimp only
          split
          · exact (ih _ _).trans (hdestruct _ _)
          · exact hdestruct _ _
        · rfl

/-! ### `SetCapacity` -/

section SetCapacity

variable {realData : Memory} {capacity capacity' offset : Int} {answer : ReallocAnswer}

/-- The block of the buffer is freed. -/
def FreesOld (capacity : Int) (answer : ReallocAnswer) : Prop :=
  answer = .moved ∨ answer = .null ∧ capacity = 0

/-- The four things that `realloc` can do, and the buffer over what it returns. -/
theorem setCapacity_cases (howned : MemoryOwned s) (hy : s.buffer y = some o)
    (hmembers : o.members = .growable realData capacity' offset)
    (h : s.setCapacity y realData offset capacity answer = some t) :
    ∃ memory u, memory ≠ .foreign ∧
      t = onBuffer u y
        (growableOffset memory capacity (if offset > capacity then capacity else offset)) ∧
      ((answer = .inPlace ∧ memory = realData ∧ u = s) ∨
        (answer = .moved ∧ memory = .block s.blocks.length ∧
          u = (s.clear realData.number).allocate .malloc) ∨
        (answer = .null ∧ capacity = 0 ∧ memory = .null ∧ u = s.clear realData.number) ∨
        (answer = .null ∧ capacity ≠ 0 ∧ memory = .null ∧
          u = { s with lost := s.lost ++ realData.number.toList })) := by
  obtain ⟨hown, hallocated⟩ := howned.frees y o hy
  have hforeign : realData ≠ .foreign := by rwa [FreesOwn, hmembers] at hown
  have hfree : s.free realData .malloc = s.clear realData.number := by
    refine free_eq_clear hforeign fun m hm => hallocated m .malloc ?_
    rw [IOBufferObject.owned, hmembers]
    simp [hm]
  obtain ⟨⟨memory, u⟩, hrealloc, rfl⟩ := Option.map_eq_some_iff.mp h
  cases answer with
  | inPlace =>
      change (if realData = .null then none else some (realData, s)) = some (memory, u) at hrealloc
      split at hrealloc
      · cases hrealloc
      · cases hrealloc
        have hlost : lostBlock realData capacity .inPlace = [] := if_neg fun h => by cases h.1
        refine ⟨realData, s, hforeign, ?_, .inl ⟨rfl, rfl, rfl⟩⟩
        dsimp only
        rw [hlost, List.append_nil]
  | moved =>
      cases hrealloc
      have hlost : lostBlock realData capacity .moved = [] := if_neg fun h => by cases h.1
      refine ⟨_, (s.clear realData.number).allocate .malloc, Memory.noConfusion, ?_,
        .inr (.inl ⟨rfl, rfl, rfl⟩)⟩
      dsimp only
      rw [hlost, List.append_nil, hfree]
  | null =>
      cases hrealloc
      refine ⟨.null, _, Memory.noConfusion, rfl, .inr (.inr ?_)⟩
      by_cases hzero : capacity = 0
      · have hlost : lostBlock realData capacity .null = [] := if_neg fun h => h.2 hzero
        refine .inl ⟨rfl, hzero, rfl, ?_⟩
        rw [hlost, List.append_nil, if_pos hzero, hfree]
      · have hlost : lostBlock realData capacity .null = realData.number.toList :=
          if_pos ⟨rfl, hzero⟩
        refine .inr ⟨rfl, hzero, rfl, ?_⟩
        rw [hlost, if_neg hzero]

theorem lost_setCapacity (h : s.setCapacity y realData offset capacity answer = some t) :
    t.lost = s.lost ++ lostBlock realData capacity answer := by
  obtain ⟨⟨memory, u⟩, hrealloc, rfl⟩ := Option.map_eq_some_iff.mp h
  have hlost : u.lost = s.lost := by
    cases answer with
    | inPlace =>
        change (if realData = .null then none else some (realData, s)) = some (memory, u) at hrealloc
        split at hrealloc
        · cases hrealloc
        · cases hrealloc
          rfl
    | moved =>
        cases hrealloc
        exact lost_free s realData .malloc
    | null =>
        cases hrealloc
        split
        · exact lost_free s realData .malloc
        · rfl
  exact congrArg (· ++ lostBlock realData capacity answer) hlost

variable {memory : Memory} {u : IOBufferHeap} {offset' : Int}

theorem buffer_regrow (hbuffers : u.buffers = s.buffers) (hy : s.buffer y = some o) (x : Nat) :
    (u.onBuffer y f).buffer x = if x = y then some (f o) else s.buffer x := by
  have hsame : ∀ z, u.buffer z = s.buffer z := fun z => by rw [buffer, hbuffers, buffer]
  rw [buffer_onBuffer, hsame, hsame, hy]
  rfl

theorem owned_growableOffset (memory : Memory) (capacity offset : Int) (o : IOBufferObject) :
    (growableOffset memory capacity offset o).owned.map Prod.fst = memory.number := by
  simp [growableOffset, IOBufferObject.owned, Function.comp_def]

/-- The memory after `realloc`: the other blocks are still there, and the buffer has the new one. -/
theorem MemoryOwned.regrow (h : MemoryOwned s) (hy : s.buffer y = some o)
    (hbuffers : u.buffers = s.buffers) (hfaults : u.faults = s.faults) (hforeign : memory ≠ .foreign)
    (howns : Owns (Function.update u.held (.buffer y) memory.number) u.live)
    (hkept : ∀ m a, s.blocks[m]? = some (some a) → s.held (.buffer y) ≠ some m →
      u.blocks[m]? = some (some a))
    (hself : ∀ m, memory.number = some m → u.blocks[m]? = some (some .malloc)) :
    MemoryOwned (u.onBuffer y (growableOffset memory capacity offset')) := by
  have hbuffer := buffer_regrow (f := growableOffset memory capacity offset') hbuffers hy
  refine ⟨?_, fun x o' hx => ?_, hfaults.trans h.faults⟩
  · have huy : u.buffer y = some o := by rwa [buffer, hbuffers]
    rw [held_onBuffer huy, owned_growableOffset]
    exact howns
  · rw [hbuffer] at hx
    split at hx
    · cases hx
      refine ⟨hforeign, fun m a hm => ?_⟩
      obtain ⟨k, hk, heq⟩ := Option.map_eq_some_iff.mp hm
      cases heq
      exact hself m hk
    · next hxy =>
        have hold := h.frees x o' hx
        refine ⟨hold.own, fun m a hm => hkept m a (hold.allocated m a hm) ?_⟩
        exact h.frees_ne hx hm hxy

/-- The pointers after `realloc`: each block that is gone is pointed into by nobody else. -/
theorem Pointed.regrow (h : Pointed s) (hy : s.buffer y = some o)
    (hmembers : o.members = .growable realData capacity' offset)
    (hbuffers : u.buffers = s.buffers) (hlost : ∀ m ∈ s.lost, m ∈ u.lost)
    (hold : ∀ m, realData.number = some m → memory.number = some m ∨ m ∈ u.lost ∨
      ∀ x b, s.buffer x = some b → x ≠ y → b.data.memory ≠ .block m) :
    Pointed (u.onBuffer y (growableOffset memory capacity offset')) := by
  have hbuffer := buffer_regrow (f := growableOffset memory capacity offset') hbuffers hy
  have huy : u.buffer y = some o := by rwa [buffer, hbuffers]
  have hbases : (u.onBuffer y (growableOffset memory capacity offset')).bases = s.bases := by
    have hsame : u.bases = s.bases := by rw [bases, hbuffers, bases]
    rw [bases_onBuffer, hsame]
    intro o' ho'
    cases huy.symm.trans ho'
    rw [growableOffset, IOBufferObject.base, IOBufferObject.base, hmembers]
  have hheldSelf : (u.onBuffer y (growableOffset memory capacity offset')).held (.buffer y) =
      memory.number := by
    rw [held, hbuffer, if_pos rfl]
    exact owned_growableOffset ..
  have hheldOld : s.held (.buffer y) = realData.number := by
    rw [held, hy, Option.bind_some, IOBufferObject.owned, hmembers]
    simp [Function.comp_def]
  have hheldOther : ∀ z, z ≠ y →
      (u.onBuffer y (growableOffset memory capacity offset')).held (.buffer z) =
        s.held (.buffer z) := by
    intro z hz
    rw [held, hbuffer, if_neg hz, held]
  refine ⟨fun x o' m hx hdata => ?_, fun x o' base used b hx hmembers' hb hstatic => ?_⟩
  · rw [hbuffer] at hx
    split at hx
    · next hxy =>
        cases hx
        refine .inl ⟨y, hxy ▸ .refl x, hheldSelf.trans ?_⟩
        change memory = .block m at hdata
        rw [hdata]
        rfl
    · next hxy =>
        rw [Anchor, hbases]
        rcases h.anchored x o' m hx hdata with ⟨z, hbased, hheld⟩ | hm
        · by_cases hz : z = y
          · subst hz
            rcases hold m (hheldOld.symm.trans hheld) with hsame | hm | hnone
            · exact .inl ⟨z, hbased, hheldSelf.trans hsame⟩
            · exact .inr hm
            · exact absurd hdata (hnone x o' hx hxy)
          · exact .inl ⟨z, hbased, (hheldOther z hz).trans hheld⟩
        · exact .inr (hlost m hm)
  · -- a growable buffer is neither drained nor does it stay where it is
    rw [hbuffer] at hx hb
    split at hx
    · cases hx
      cases hmembers'
    · split at hb
      · cases hb
        exact hstatic.elim
      · exact h.drained x o' base used b hx hmembers' hb hstatic

theorem length_clear (s : IOBufferHeap) (m : Option Nat) :
    (s.clear m).blocks.length = s.blocks.length := by
  cases m with
  | none => rfl
  | some m => exact List.length_set

theorem held_lose (s : IOBufferHeap) (m : Nat) :
    held { s with lost := s.lost ++ [m] } = Function.update s.held (.lost s.lost.length) (some m) := by
  funext w
  cases w with
  | buffer x => exact (Function.update_of_ne Owner.noConfusion ..).symm
  | lost k =>
      change (s.lost ++ [m])[k]? = _
      by_cases hk : k = s.lost.length
      · rw [hk, Function.update_self, List.getElem?_append_right le_rfl, Nat.sub_self]
        rfl
      · have hne : Owner.lost k ≠ .lost s.lost.length := fun h => hk (Owner.lost.inj h)
        rw [Function.update_of_ne hne, held, List.getElem?_append]
        by_cases hlt : k < s.lost.length
        · rw [if_pos hlt]
        · rw [if_neg hlt, List.getElem?_eq_none (by simp; omega),
            List.getElem?_eq_none (not_lt.mp hlt)]

theorem MemoryOwned.setCapacity (h : MemoryOwned s) (hy : s.buffer y = some o)
    (hmembers : o.members = .growable realData capacity' offset)
    (hset : s.setCapacity y realData offset capacity answer = some t) : MemoryOwned t := by
  have hheld : s.held (.buffer y) = realData.number := by
    rw [held, hy, Option.bind_some, IOBufferObject.owned, hmembers]
    simp [Function.comp_def]
  obtain ⟨memory, u, hforeign, rfl, hcases⟩ := setCapacity_cases h hy hmembers hset
  have hfreed : ∀ m a, s.blocks[m]? = some (some a) → s.held (.buffer y) ≠ some m →
      (s.clear realData.number).blocks[m]? = some (some a) := fun m a hm hne =>
    (getElem?_clear s _ m a).mpr ⟨hm, hheld ▸ hne⟩
  rcases hcases with ⟨-, rfl, rfl⟩ | ⟨-, rfl, rfl⟩ | ⟨-, -, rfl, rfl⟩ | ⟨-, -, rfl, rfl⟩
  · refine h.regrow hy rfl rfl hforeign ?_ (fun m a hm _ => hm) fun m hm => ?_
    · rw [← hheld, Function.update_eq_self]
      exact h.owns
    · apply (h.frees y o hy).allocated
      rw [IOBufferObject.owned, hmembers]
      simp [hm]
  · refine h.regrow hy rfl rfl hforeign ?_ (fun m a hm hne => ?_) fun m hm => ?_
    · have hreplace := h.owns.replace (.buffer y) s.length_notMem_live
      rw [live_allocate, live_clear, length_clear]
      rw [hheld] at hreplace
      exact hreplace
    · exact (getElem?_allocate _ _ m a).mpr (.inl (hfreed m a hm hne))
    · cases hm
      exact (getElem?_allocate _ _ _ _).mpr (.inr ⟨(length_clear s _).symm, rfl⟩)
  · refine h.regrow hy rfl rfl hforeign ?_ hfreed fun m hm => by cases hm
    have hdrop := h.owns.drop (.buffer y)
    rw [live_clear]
    rw [hheld] at hdrop
    exact hdrop
  · refine h.regrow hy rfl rfl hforeign ?_ (fun m a hm _ => hm) fun m hm => by cases hm
    change Owns (Function.update _ (Owner.buffer y) none) s.live
    cases hnumber : realData.number with
    | none =>
        rw [hnumber] at hheld
        rw [Option.toList_none, List.append_nil, ← hheld, Function.update_eq_self]
        exact h.owns
    | some m =>
        rw [hnumber] at hheld
        have hfree : s.held (.lost s.lost.length) = none := List.getElem?_eq_none le_rfl
        rw [Option.toList_some, held_lose, Function.update_comm Owner.noConfusion]
        exact h.owns.transfer hheld hfree

end SetCapacity

end IOBufferHeap

end Iomgr
