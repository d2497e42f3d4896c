import Iomgr.TCPClientImpl

/-!
The memory that a write hands to the system. `Write` goes through `DoWrite` and passes
`buf->data()`; `OnWriteDone` repeats the call with `write_buf_.get()`, which is the address of the
buffer object.
-/

namespace Iomgr

namespace TCPWriteMemory

/-- An `IOBuffer` in memory: the address of the object and the pointer `data_` that it holds. -/
structure IOBuffer where
  object : Nat
  data : Nat
  deriving DecidableEq, Repr

/-- The arguments `buf` and `count` of the system call `write`. -/
structure Region where
  buf : Nat
  count : Int
  deriving DecidableEq, Repr

/-- The first `n` bytes of a region. -/
def Region.first (mem : Nat → UInt8) (region : Region) (n : Nat) : List UInt8 :=
  (List.range n).map fun i => mem (region.buf + i)

variable {Callback Address : Type}

/-- What `DoWrite` hands over. -/
def doWrite (buf : IOBuffer) (bufLen : Int) : Region := ⟨buf.data, bufLen⟩

/-- What `OnWriteDone` hands over; the pointer of an empty `write_buf_` is null. -/
def onWriteDone (c : TCPClientImpl Callback IOBuffer Address) : Region :=
  ⟨(c.writeBuf.map IOBuffer.object).getD 0, c.writeBufLen⟩

/-- What is handed over by the writable events of a connected client, one for each result, for as
long as the socket is watched. -/
def retries : TCPClientImpl Callback IOBuffer Address → List SysResult → List Region
  | _, [] => []
  | c, result :: results =>
      if c.writeSocketController then
        onWriteDone c :: retries (c.onFileWritable 0 result).1 results
      else []

/-- What is handed over by a `Write` whose registration succeeds and by the events after it; the
first result is that of `Write`. -/
def calls (c : TCPClientImpl Callback IOBuffer Address) (buf : IOBuffer) (bufLen : Int)
    (writeCallback : Callback) : List SysResult → List Region
  | [] => []
  | result :: results =>
      doWrite buf bufLen :: retries (c.write buf bufLen writeCallback result .registered).2 results

/-- A write of the buffer is pending. -/
structure Pending (c : TCPClientImpl Callback IOBuffer Address) (buf : IOBuffer) (bufLen : Int) :
    Prop where
  connected : c.connectState = .kConnected
  watching : c.writeSocketController = true
  buf : c.writeBuf = some buf
  bufLen : c.writeBufLen = bufLen

variable {c : TCPClientImpl Callback IOBuffer Address} {buf : IOBuffer} {bufLen : Int}

theorem transfer_again : (FileOp.transfer (.error EAGAIN)).isTryAgain = true := by decide

theorem pending_write (hconnected : c.connectState = .kConnected) (writeCallback : Callback) :
    Pending (c.write buf bufLen writeCallback (.error EAGAIN) .registered).2 buf bufLen := by
  simp only [TCPClientImpl.write, transfer_again, Bool.not_true, Bool.false_eq_true, if_false]
  exact ⟨hconnected, rfl, rfl, rfl⟩

namespace Pending

theorem onWriteDone_eq (h : Pending c buf bufLen) : onWriteDone c = ⟨buf.object, bufLen⟩ := by
  rw [onWriteDone, h.buf, h.bufLen]
  rfl

/-- An event that finds the socket not ready changes nothing. -/
theorem onFileWritable_again (h : Pending c buf bufLen) :
    (c.onFileWritable 0 (.error EAGAIN)).1 = c := by
  have hdone : ¬c.connectState = .kConnecting := by
    rw [h.connected]
    exact ConnectState.noConfusion
  rw [TCPClientImpl.onFileWritable, if_neg hdone, TCPClientImpl.onWriteDone]
  simp only [transfer_again, if_true]

/-- Each retry of a pending write hands over the buffer object. -/
theorem retries_eq (h : Pending c buf bufLen) (k : Nat) (result : SysResult) :
    retries c (List.replicate k (.error EAGAIN) ++ [result]) =
      List.replicate (k + 1) ⟨buf.object, bufLen⟩ := by
  induction k with
  | zero =>
      rw [List.replicate_zero, List.nil_append, retries, if_pos h.watching, h.onWriteDone_eq, retries]
      exact List.replicate_one.symm
  | succ k ih =>
      rw [List.replicate_succ, List.cons_append, retries, if_pos h.watching, h.onWriteDone_eq,
        h.onFileWritable_again, ih]
      exact List.replicate_succ.symm

end Pending

/-- The calls of a write that would block `k` times: the data first, then `k` times the buffer
object. -/
theorem calls_eq (hconnected : c.connectState = .kConnected) (writeCallback : Callback) (k : Nat)
    (result : SysResult) :
    calls c buf bufLen writeCallback (List.replicate k (.error EAGAIN) ++ [result]) =
      doWrite buf bufLen :: List.replicate k ⟨buf.object, bufLen⟩ := by
  cases k with
  | zero =>
      rw [List.replicate_zero, List.nil_append, calls, retries, List.replicate_zero]
  | succ k =>
      rw [List.replicate_succ, List.cons_append, calls,
        (pending_write hconnected writeCallback).retries_eq]

/-- Every buffer, length and callback, and every number `k` of would-block results before a success
of `n` bytes: all calls hand over the bytes at `buf->data()` and the reported bytes are the first of
them, if and only if the first call succeeds or the buffer's data is the buffer object itself. -/
theorem write_memory_iff (c : TCPClientImpl Callback IOBuffer Address)
    (hconnected : c.connectState = .kConnected) (buf : IOBuffer) (bufLen : Int)
    (writeCallback : Callback) (k n : Nat) :
    let handed := calls c buf bufLen writeCallback
      (List.replicate k (.error EAGAIN) ++ [.value n])
    ((∀ region ∈ handed, region = ⟨buf.data, bufLen⟩) ∧
      ∀ mem, ∃ region, handed.getLast? = some region ∧
        region.first mem n = (doWrite buf bufLen).first mem n) ↔
      k = 0 ∨ buf.object = buf.data := by
  intro handed
  have hcalls : handed = doWrite buf bufLen :: List.replicate k ⟨buf.object, bufLen⟩ :=
    calls_eq hconnected writeCallback k (.value n)
  rw [hcalls]
  constructor
  · rintro ⟨hsame, -⟩
    rcases Nat.eq_zero_or_pos k with hzero | hpos
    · exact Or.inl hzero
    · have hmem : (⟨buf.object, bufLen⟩ : Region) ∈ List.replicate k ⟨buf.object, bufLen⟩ :=
        List.mem_replicate.mpr ⟨Nat.ne_of_gt hpos, rfl⟩
      exact Or.inr (Region.mk.inj (hsame _ (List.mem_cons_of_mem _ hmem))).1
  · intro h
    have hsame : ∀ region ∈ doWrite buf bufLen :: List.replicate k ⟨buf.object, bufLen⟩,
        region = ⟨buf.data, bufLen⟩ := by
      intro region hregion
      rcases List.mem_cons.mp hregion with rfl | hretry
      · rfl
      · obtain ⟨hk, rfl⟩ := List.mem_replicate.mp hretry
        rw [h.resolve_left hk]
    refine ⟨hsame, fun mem => ⟨_, List.getLast?_eq_some_getLast (List.cons_ne_nil _ _), ?_⟩⟩
    rw [hsame _ (List.getLast_mem _)]
    rfl

/-- A client that has adopted a connected socket. -/
def connected : TCPClientImpl Unit IOBuffer Unit := TCPClientImpl.new.adoptConnectedSocket 3 ()

/-- A write that succeeds at once. -/
theorem write_memory_at_once :
    connected.connectState = .kConnected ∧
      ∀ region ∈ calls connected ⟨64, 4096⟩ 5 () [.value 5], region = ⟨4096, 5⟩ :=
  ⟨rfl, ((write_memory_iff connected rfl ⟨64, 4096⟩ 5 () 0 5).mpr (Or.inl rfl)).1⟩

/-- A write that would block once: the retry hands over the bytes of the buffer object. -/
theorem retry_hands_over_object :
    calls connected ⟨64, 4096⟩ 5 () [.error EAGAIN, .value 5] = [⟨4096, 5⟩, ⟨64, 5⟩] ∧
      ¬∀ region ∈ calls connected ⟨64, 4096⟩ 5 () [.error EAGAIN, .value 5],
        region = ⟨4096, 5⟩ := by
  constructor
  · decide
  · intro h
    exact absurd (h ⟨64, 5⟩ (by decide)) (by decide)

end TCPWriteMemory

end Iomgr
