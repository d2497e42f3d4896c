import Mathlib.Data.List.Basic
import Mathlib.Data.Vector.Basic
import Mathlib.Tactic.Common

/-!
Buffers of a fixed size. A stretch of cells is read from an offset, and a list is stored at an offset;
what was stored is read back, and a stretch that the list does not reach is left as it was.
-/

namespace FixedBuffer

variable {α : Type*} {n : Nat}

/-- The `len` cells from `offset` on. -/
def loadAt (buffer : Vector α n) (offset len : Nat) : List α := (buffer.toList.drop offset).take len

/-- The cells from `offset` on become those of the list. -/
def storeAt (buffer : Vector α n) (offset : Nat) (src : List α) : Vector α n :=
  Vector.ofFn fun i => if offset ≤ i.val then src[i.val - offset]?.getD buffer[i] else buffer[i]

variable {buffer : Vector α n} {offset len : Nat} {src : List α}

theorem getElem?_loadAt (i : Nat) :
    (loadAt buffer offset len)[i]? = if i < len then buffer[offset + i]? else none := by
  rw [loadAt, List.getElem?_take, List.getElem?_drop, Vector.getElem?_toList]

theorem length_loadAt (h : offset + len ≤ n) : (loadAt buffer offset len).length = len := by
  rw [loadAt, List.length_take, List.length_drop, Vector.length_toList]
  omega

theorem getElem?_storeAt (i : Nat) :
    (storeAt buffer offset src)[i]? =
      if offset ≤ i ∧ i < offset + src.length ∧ i < n then src[i - offset]? else buffer[i]? := by
  by_cases hi : i < n
  · rw [Vector.getElem?_eq_getElem hi, storeAt, Vector.getElem_ofFn, Vector.getElem?_eq_getElem hi]
    by_cases hle : offset ≤ i
    · by_cases hlt : i - offset < src.length
      · have hin : offset ≤ i ∧ i < offset + src.length ∧ i < n := by omega
        rw [if_pos hin]
        simp [hle, hlt]
      · have hout : ¬(offset ≤ i ∧ i < offset + src.length ∧ i < n) := by omega
        rw [if_neg hout]
        simp [hle, List.getElem?_eq_none (Nat.le_of_not_lt hlt)]
    · have hout : ¬(offset ≤ i ∧ i < offset + src.length ∧ i < n) := fun h => hle h.left
      rw [if_neg hout]
      simp [hle]
  · have hsize : n ≤ i := by omega
    have hout : ¬(offset ≤ i ∧ i < offset + src.length ∧ i < n) := fun h => hi h.right.right
    rw [Vector.getElem?_eq_none hsize, Vector.getElem?_eq_none hsize, if_neg hout]

/-- What was stored is read back. -/
theorem loadAt_storeAt (h : offset + src.length ≤ n) :
    loadAt (storeAt buffer offset src) offset src.length = src := by
  apply List.ext_getElem?
  intro i
  rw [getElem?_loadAt]
  by_cases hi : i < src.length
  · have hin : offset ≤ offset + i ∧ offset + i < offset + src.length ∧ offset + i < n := by omega
    rw [if_pos hi, getElem?_storeAt, if_pos hin, Nat.add_sub_cancel_left]
  · rw [if_neg hi, List.getElem?_eq_none (by omega)]

/-- A stretch before or after what is stored. -/
theorem loadAt_storeAt_of_disjoint {at' len' : Nat}
    (h : at' + len' ≤ offset ∨ offset + src.length ≤ at') :
    loadAt (storeAt buffer offset src) at' len' = loadAt buffer at' len' := by
  apply List.ext_getElem?
  intro i
  rw [getElem?_loadAt, getElem?_loadAt]
  by_cases hi : i < len'
  · have hout : ¬(offset ≤ at' + i ∧ at' + i < offset + src.length ∧ at' + i < n) := by omega
    rw [if_pos hi, if_pos hi, getElem?_storeAt, if_neg hout]
  · rw [if_neg hi, if_neg hi]

/-- A stretch is its first part and the rest. -/
theorem loadAt_add (len' : Nat) :
    loadAt buffer offset (len + len') =
      loadAt buffer offset len ++ loadAt buffer (offset + len) len' := by
  rw [loadAt, loadAt, loadAt, List.take_add, List.drop_drop]

/-- A stretch of a stretch. -/
theorem loadAt_loadAt {offset' len' : Nat} (h : offset' + len' ≤ len) :
    ((loadAt buffer offset len).drop offset').take len' = loadAt buffer (offset + offset') len' := by
  rw [loadAt, loadAt, List.drop_take, List.take_take, List.drop_drop]
  congr 1
  omega

theorem loadAt_replicate (a : α) (h : offset + len ≤ n) :
    loadAt (Vector.replicate n a) offset len = List.replicate len a := by
  rw [loadAt, Vector.toList_replicate, List.drop_replicate, List.take_replicate]
  congr 1
  omega

end FixedBuffer
