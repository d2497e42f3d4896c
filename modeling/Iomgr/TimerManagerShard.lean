import Iomgr.TimerHeapInvariant
import Iomgr.TimerManager

/-!
What the operations on one shard keep. A pending timer is in the heap or in the list of its own
shard, once, and the heap is valid. While an operation moves a timer it is for a moment in neither
of them (`ShardExcept`); each operation takes a timer out of the shard, or puts one in, or both.
-/

namespace Iomgr

open TimerHeap (IndexOnly)

structure ShardValid (i : ShardId) (h : TimerHeap) (l : List TimerPtr) (mem : Timers) : Prop where
  heap : h.Valid mem
  listNodup : l.Nodup
  listIndex : ∀ x ∈ l, (mem x).heapIndex = kInvalidIndex
  pending : ∀ x, shardOf x = i → ((mem x).pending = true ↔ x ∈ h.timers ∨ x ∈ l)
  shard : ∀ x, x ∈ h.timers ∨ x ∈ l → shardOf x = i

/-- A valid shard but for the timer `t`, which is neither in the heap nor in the list. -/
structure ShardExcept (t : TimerPtr) (h : TimerHeap) (l : List TimerPtr) (mem : Timers) : Prop where
  heap : h.Valid mem
  listNodup : l.Nodup
  listIndex : ∀ x ∈ l, (mem x).heapIndex = kInvalidIndex
  pending : ∀ x, x ≠ t → shardOf x = shardOf t →
    ((mem x).pending = true ↔ x ∈ h.timers ∨ x ∈ l)
  shard : ∀ x, x ∈ h.timers ∨ x ∈ l → shardOf x = shardOf t
  notHeap : t ∉ h.timers
  notList : t ∉ l

/-- A timer's deadline, closure and pending flag are unchanged. -/
def TimerSame (mem mem' : Timers) (x : TimerPtr) : Prop :=
  (mem' x).deadline = (mem x).deadline ∧ (mem' x).closure = (mem x).closure ∧
    (mem' x).pending = (mem x).pending

theorem TimerSame.trans {mem mem' mem'' : Timers} {x : TimerPtr} (h : TimerSame mem mem' x)
    (h' : TimerSame mem' mem'' x) : TimerSame mem mem'' x :=
  ⟨h'.1.trans h.1, h'.2.1.trans h.2.1, h'.2.2.trans h.2.2⟩

theorem TimerSame.of_eq {mem mem' : Timers} {x : TimerPtr} (h : mem' x = mem x) :
    TimerSame mem mem' x := by
  rw [TimerSame, h]
  exact ⟨rfl, rfl, rfl⟩

theorem timerSame_of_indexOnly {moved : TimerPtr → Prop} {mem mem' : Timers}
    (h : IndexOnly moved mem mem') (x : TimerPtr) : TimerSame mem mem' x :=
  ⟨h.deadline x, h.closure x, h.pending x⟩

variable {i : ShardId} {t : TimerPtr} {h : TimerHeap} {l : List TimerPtr} {mem mem' : Timers}

theorem ShardValid.congr (hv : ShardValid i h l mem)
    (hmem : ∀ x, shardOf x = i → mem' x = mem x) : ShardValid i h l mem' := by
  refine ⟨hv.heap.congr fun x hx => ?_, hv.listNodup, fun x hx => ?_, fun x hx => ?_, hv.shard⟩
  · rw [hmem x (hv.shard x (Or.inl hx))]
    exact ⟨rfl, rfl⟩
  · rw [hmem x (hv.shard x (Or.inr hx))]
    exact hv.listIndex x hx
  · rw [hmem x hx]
    exact hv.pending x hx

theorem ShardValid.not_mem_list (hv : ShardValid i h l mem) (ht : t ∈ h.timers) : t ∉ l :=
  fun hl => hv.heap.heapIndex_ne ht (hv.listIndex t hl)

theorem ShardValid.nodup (hv : ShardValid i h l mem) : (h.timers ++ l).Nodup :=
  hv.heap.nodup.append hv.listNodup fun _ hh hl => hv.not_mem_list hh hl

theorem ShardValid.perm {l' : List TimerPtr} (hv : ShardValid i h l mem) (hl : l'.Perm l) :
    ShardValid i h l' mem := by
  refine ⟨hv.heap, hl.nodup_iff.mpr hv.listNodup, fun x hx => hv.listIndex x (hl.mem_iff.mp hx),
    fun x hx => ?_, fun x hx => ?_⟩
  · rw [hl.mem_iff]
    exact hv.pending x hx
  · rw [hl.mem_iff] at hx
    exact hv.shard x hx

/-- A timer that is not pending is in no container. -/
theorem ShardValid.except (hv : ShardValid (shardOf t) h l mem)
    (hidle : (mem t).pending = false) : ShardExcept t h l mem := by
  have hfree : ¬(t ∈ h.timers ∨ t ∈ l) := by
    rw [← hv.pending t rfl, hidle]
    exact Bool.false_ne_true
  exact ⟨hv.heap, hv.listNodup, hv.listIndex, fun x _ => hv.pending x, hv.shard,
    fun hh => hfree (Or.inl hh), fun hl => hfree (Or.inr hl)⟩

/-- The fields of the timer in motion may change. -/
theorem ShardExcept.congr (hv : ShardExcept t h l mem) (hmem : ∀ x, x ≠ t → mem' x = mem x) :
    ShardExcept t h l mem' := by
  have hheap : ∀ x ∈ h.timers, mem' x = mem x := fun x hx =>
    hmem x fun heq => hv.notHeap (heq ▸ hx)
  have hlist : ∀ x ∈ l, mem' x = mem x := fun x hx => hmem x fun heq => hv.notList (heq ▸ hx)
  refine ⟨hv.heap.congr fun x hx => ?_, hv.listNodup, fun x hx => ?_, fun x hxt hx => ?_, hv.shard,
    hv.notHeap, hv.notList⟩
  · rw [hheap x hx]
    exact ⟨rfl, rfl⟩
  · rw [hlist x hx]
    exact hv.listIndex x hx
  · rw [hmem x hxt]
    exact hv.pending x hxt hx

/-- A timer out of the shard that is not pending is where it should be. -/
theorem ShardExcept.valid (hv : ShardExcept t h l mem) (hidle : (mem t).pending = false) :
    ShardValid (shardOf t) h l mem := by
  refine ⟨hv.heap, hv.listNodup, hv.listIndex, fun x hx => ?_, hv.shard⟩
  by_cases hxt : x = t
  · subst hxt
    rw [hidle]
    exact ⟨fun hf => absurd hf Bool.false_ne_true,
      fun hmem => (hmem.elim hv.notHeap hv.notList).elim⟩
  · exact hv.pending x hxt hx

/-- A pending timer goes to the heap. -/
theorem ShardExcept.add (hv : ShardExcept t h l mem) (hpending : (mem t).pending = true)
    {first : Bool} {h' : TimerHeap} (hadd : h.add mem t = some (first, h', mem')) :
    ShardValid (shardOf t) h' l mem' ∧ h'.timers.Perm (t :: h.timers) ∧
      (∀ x, TimerSame mem mem' x) ∧ (∀ x, shardOf x ≠ shardOf t → mem' x = mem x) ∧
      (first = true ↔ ∀ root, h.top = some root → (mem t).deadline < (mem root).deadline) := by
  obtain ⟨hvalid, hperm, hframe, hfirst⟩ := TimerHeap.add_of_some hv.heap hv.notHeap hadd
  have hmem : ∀ x, x ∈ h'.timers ↔ x = t ∨ x ∈ h.timers := fun x => by
    rw [hperm.mem_iff, List.mem_cons]
  have hsame := timerSame_of_indexOnly hframe
  refine ⟨⟨hvalid, hv.listNodup, fun x hx => ?_, fun x hx => ?_, fun x hx => ?_⟩, hperm, hsame,
    fun x hx => hframe.other x fun hin => ?_, hfirst⟩
  · have hout : x ∉ t :: h.timers := by
      intro hin
      rcases List.mem_cons.mp hin with rfl | hh
      · exact hv.notList hx
      · exact hv.heap.heapIndex_ne hh (hv.listIndex x hx)
    rw [hframe.other x hout]
    exact hv.listIndex x hx
  · rw [(hsame x).2.2, hmem, or_assoc]
    by_cases hxt : x = t
    · subst hxt
      exact ⟨fun _ => Or.inl rfl, fun _ => hpending⟩
    · rw [hv.pending x hxt hx]
      exact ⟨Or.inr, fun hor => hor.resolve_left hxt⟩
  · rw [hmem, or_assoc] at hx
    rcases hx with rfl | hx
    · rfl
    · exact hv.shard x hx
  · rcases List.mem_cons.mp hin with rfl | hh
    · exact hx rfl
    · exact hx (hv.shard x (Or.inl hh))

/-- A pending timer goes to the head of the list. -/
theorem ShardExcept.push (hv : ShardExcept t h l mem) (hpending : (mem t).pending = true) :
    ShardValid (shardOf t) h (t :: l) (setHeapIndex mem t kInvalidIndex) := by
  have hframe := TimerHeap.setHeapIndex_indexOnly (· = t) mem kInvalidIndex rfl
  have hv' := hv.congr hframe.other
  refine ⟨hv'.heap, List.nodup_cons.mpr ⟨hv.notList, hv.listNodup⟩, fun x hx => ?_, fun x hx => ?_,
    fun x hx => ?_⟩
  · rcases List.mem_cons.mp hx with rfl | hx
    · exact TimerHeap.setHeapIndex_self mem x kInvalidIndex
    · exact hv'.listIndex x hx
  · by_cases hxt : x = t
    · subst hxt
      rw [hframe.pending]
      exact ⟨fun _ => Or.inr List.mem_cons_self, fun _ => hpending⟩
    · rw [hv'.pending x hxt hx, List.mem_cons]
      exact or_congr_right (or_iff_right hxt).symm
  · rcases hx with hx | hx
    · exact hv.shard x (Or.inl hx)
    · rcases List.mem_cons.mp hx with rfl | hx
      · rfl
      · exact hv.shard x (Or.inr hx)

/-- A timer leaves the list. -/
theorem ShardValid.erase (hv : ShardValid i h l mem) (ht : t ∈ l) :
    ShardExcept t h (l.erase t) mem := by
  have hti : shardOf t = i := hv.shard t (Or.inr ht)
  have herase : ∀ x, x ≠ t → (x ∈ l.erase t ↔ x ∈ l) := fun x hx => List.mem_erase_of_ne hx
  refine ⟨hv.heap, hv.listNodup.erase t, fun x hx => hv.listIndex x (List.mem_of_mem_erase hx),
    fun x hxt hx => ?_, fun x hx => ?_, fun hh => hv.not_mem_list hh ht,
    hv.listNodup.not_mem_erase⟩
  · rw [herase x hxt]
    exact hv.pending x (hx.trans hti)
  · exact (hv.shard x (hx.imp_right List.mem_of_mem_erase)).trans hti.symm

/-- A timer leaves the heap, from any position. -/
theorem ShardValid.remove (hv : ShardValid i h l mem) (ht : t ∈ h.timers)
    (hmem : ∀ x, x ≠ t → mem' x = mem x) (hdeadline : (mem' t).deadline = (mem t).deadline)
    (hindex : (mem' t).heapIndex = (mem t).heapIndex) :
    ∃ h' mem'', h.remove mem' t = some (h', mem'') ∧ ShardExcept t h' l mem'' ∧
      h'.timers.Perm (h.timers.erase t) ∧ (∀ x, TimerSame mem' mem'' x) ∧
      (∀ x, shardOf x ≠ i → mem'' x = mem' x) := by
  have hti : shardOf t = i := hv.shard t (Or.inl ht)
  have hheap : h.Valid mem' := by
    refine hv.heap.congr fun x _ => ?_
    by_cases hxt : x = t
    · subst hxt
      exact ⟨hdeadline, hindex⟩
    · rw [hmem x hxt]
      exact ⟨rfl, rfl⟩
  obtain ⟨h', mem'', hrun, hvalid, hperm, hframe⟩ := TimerHeap.remove_spec hheap ht
  have hin : ∀ x, x ∈ h'.timers ↔ x ≠ t ∧ x ∈ h.timers := fun x => by
    rw [hperm.mem_iff, hv.heap.nodup.mem_erase_iff]
  have hsame := timerSame_of_indexOnly hframe
  refine ⟨h', mem'', hrun, ⟨hvalid, hv.listNodup, fun x hx => ?_, fun x hxt hx => ?_, fun x hx => ?_,
    fun hh => ((hin t).mp hh).1 rfl, hv.not_mem_list ht⟩, hperm, hsame, fun x hx => ?_⟩
  · have hxh : x ∉ h.timers := fun hh => hv.not_mem_list hh hx
    rw [hframe.other x fun hh => hxh (List.mem_of_mem_erase hh),
      hmem x fun heq => hxh (heq ▸ ht)]
    exact hv.listIndex x hx
  · rw [(hsame x).2.2, hmem x hxt, hv.pending x (hx.trans hti), hin]
    exact or_congr_left (and_iff_right hxt).symm
  · exact (hv.shard x (hx.imp_left fun hh => ((hin x).mp hh).2)).trans hti.symm
  · exact hframe.other x fun hh => hx (hv.shard x (Or.inl (List.mem_of_mem_erase hh)))

end Iomgr
