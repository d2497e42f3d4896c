import Iomgr.Status
import Mathlib.Algebra.Ring.Int.Defs
import Mathlib.Algebra.Ring.Nat
import Mathlib.Data.List.Infix

/-!
The buffer a text is sent from. `DrainableIOBuffer` counts its bytes in a `size_t` and says how many
remain in an `int`, so that a multiple of `2 ^ 32` bytes looks like none.
-/

namespace Iomgr

/-- A write of `requested` bytes transfers at least one of them and at most all, or fails. -/
def StatusOr.Transferred (write : StatusOr Nat) (requested : Int) : Prop :=
  match write with
  | .value n => 1 ≤ n ∧ (n : Int) ≤ requested
  | .failed _ => True

instance (requested : Int) (write : StatusOr Nat) :
    Decidable (write.Transferred requested) :=
  match write with
  | .value _ => inferInstanceAs (Decidable (_ ∧ _))
  | .failed _ => isTrue trivial

/-- A `DrainableIOBuffer` over a string: the bytes of the string, `size_` and `used_`. -/
structure DrainableIOBuffer where
  base : List UInt8
  size : Nat
  used : Int
  deriving DecidableEq, Repr

namespace DrainableIOBuffer

/-- The buffer over a string of its own size, as `SendResponse` and `InternalRequest` make it. -/
def new (base : List UInt8) : DrainableIOBuffer := ⟨base, base.length, 0⟩

def setOffset (b : DrainableIOBuffer) (bytes : Int) : DrainableIOBuffer := { b with used := bytes }

def didConsume (b : DrainableIOBuffer) (bytes : Int) : DrainableIOBuffer :=
  b.setOffset (b.used + bytes)

/-- `size_ - used_`, converted to `int`. -/
def bytesRemaining (b : DrainableIOBuffer) : Int := (b.size - b.used).bmod (2 ^ 32)

/-- The bytes from `data_` on. -/
def data (b : DrainableIOBuffer) : List UInt8 := b.base.drop b.used.toNat

/-- The bytes on the wire are those before the offset of a buffer over the text. -/
structure Sent (b : DrainableIOBuffer) (text wire : List UInt8) : Prop where
  base_eq : b.base = text
  size_eq : b.size = text.length
  used_nonneg : 0 ≤ b.used
  used_le : b.used ≤ b.size
  wire_eq : wire = text.take b.used.toNat

theorem bytesRemaining_le {b : DrainableIOBuffer} (h : b.used ≤ b.size) :
    b.bytesRemaining ≤ b.size - b.used := by
  unfold bytesRemaining Int.bmod
  dsimp only
  split <;> omega

/-- The conversion loses nothing that a test for zero would see, below `2 ^ 32` bytes. -/
theorem bytesRemaining_eq_zero {b : DrainableIOBuffer} (h0 : 0 ≤ b.used) (h : b.used ≤ b.size)
    (hsize : b.size < 2 ^ 32) : b.bytesRemaining = 0 ↔ b.used = b.size := by
  unfold bytesRemaining Int.bmod
  dsimp only
  split <;> omega

theorem sent_new (text : List UInt8) : (new text).Sent text [] where
  base_eq := rfl
  size_eq := rfl
  used_nonneg := Int.le_refl 0
  used_le := Int.natCast_nonneg _
  wire_eq := List.take_zero.symm

namespace Sent

variable {b : DrainableIOBuffer} {text wire : List UInt8}

theorem isPrefix (h : b.Sent text wire) : wire <+: text := by
  rw [h.wire_eq]
  exact List.take_prefix _ _

/-- The next bytes of the buffer are put on the wire and consumed. -/
theorem didConsume (h : b.Sent text wire) {n : Nat} (hn : (n : Int) ≤ b.bytesRemaining) :
    (b.didConsume n).Sent text (wire ++ b.data.take n) := by
  have hle := bytesRemaining_le h.used_le
  have h0 := h.used_nonneg
  refine ⟨h.base_eq, h.size_eq, ?_, ?_, ?_⟩
  · change 0 ≤ b.used + n
    omega
  · change b.used + n ≤ b.size
    omega
  · have hused : (b.didConsume n).used.toNat = b.used.toNat + n := by
      change (b.used + n).toNat = b.used.toNat + n
      omega
    rw [hused, h.wire_eq, data, h.base_eq, List.take_add]

/-- When no byte remains, the whole text is on the wire. -/
theorem eq_of_bytesRemaining (h : b.Sent text wire) (hlength : text.length < 2 ^ 32)
    (hzero : b.bytesRemaining = 0) : wire = text := by
  have hsize : b.size < 2 ^ 32 := h.size_eq ▸ hlength
  have hused := (bytesRemaining_eq_zero h.used_nonneg h.used_le hsize).mp hzero
  rw [h.wire_eq, hused, h.size_eq]
  exact List.take_length

end Sent

end DrainableIOBuffer

end Iomgr
