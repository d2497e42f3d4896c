import Iomgr.HTTPLineLocal

/-!
The line buffer of the parser over any bytes, fed on whether or not the parser has refused a line. A
line that is refused stays in the buffer and the next one is stored behind it, so that the buffer may
hold more than one line when `FinishLine` is called.
-/

namespace Iomgr

namespace HTTPParser

variable {T : Type}

/-! ### What the source asserts -/

/-- The index of `cur_line_` at which the next byte is stored, if it is stored. -/
def storeIndex (p : HTTPParser T) : Option Nat :=
  if p.parseState = .kParseBody ∨ kMaxHeaderLength ≤ p.curLineLength then none
  else some p.curLineLength

/-- The length of the terminator that the bytes in the buffer end with, 0 if they end with none. -/
def terminatorLength (p : HTTPParser T) : Nat :=
  let n := p.curLineLength
  if 2 ≤ n ∧ p.curLine (n - 2) = CR ∧ p.curLine (n - 1) = LF then 2
  else if 1 ≤ n ∧ p.curLine (n - 1) = LF then 1
  else 0

/-- Where `AddHeader` stands when it takes the value, if it gets there. -/
def valueCur (p : HTTPParser T) : Option Nat :=
  let endPos := p.curLineLength
  let colon := scanWhile (· != byteOf ':') p.curLine endPos 0
  if isBlank (p.curLine 0) ∨ colon = endPos then none
  else some (scanWhile isBlank p.curLine (endPos - (colon + 1)) (colon + 1))

/-- The assertions of `AddHeader` on a line that is finished, with what they rest on. -/
structure Finishable (p : HTTPParser T) : Prop where
  endLength : p.curLineEndLength = 1 ∨ p.curLineEndLength = 2
  endLength_le : p.curLineEndLength ≤ p.terminatorLength
  length_ne : p.curLineLength ≠ 0
  value : ∀ cur ∈ p.valueCur, cur + p.curLineEndLength ≤ p.curLineLength

theorem terminatorLength_le (p : HTTPParser T) : p.terminatorLength ≤ p.curLineLength := by
  rw [terminatorLength]
  split_ifs <;> omega

/-- A byte of the terminator is CR or LF. -/
theorem mem_terminator {p : HTTPParser T} {i : Nat} (hi : i < p.curLineLength)
    (hend : p.curLineLength - p.terminatorLength ≤ i) : p.curLine i = CR ∨ p.curLine i = LF := by
  rw [terminatorLength] at hend
  split_ifs at hend with hcrlf hlf
  · rcases (by omega : i = p.curLineLength - 2 ∨ i = p.curLineLength - 1) with rfl | rfl
    · exact Or.inl hcrlf.2.1
    · exact Or.inr hcrlf.2.2
  · rw [(by omega : i = p.curLineLength - 1)]
    exact Or.inr hlf.2
  · omega

/-- Neither the key nor the blanks before the value reach into the terminator. -/
theorem valueCur_le {p : HTTPParser T} (hpos : 0 < p.terminatorLength) {cur : Nat}
    (hcur : cur ∈ p.valueCur) : cur + p.terminatorLength ≤ p.curLineLength := by
  have hle := p.terminatorLength_le
  rw [valueCur] at hcur
  generalize hcolon : scanWhile (· != byteOf ':') p.curLine p.curLineLength 0 = colon at hcur
  by_cases hnone : isBlank (p.curLine 0) = true ∨ colon = p.curLineLength
  · rw [if_pos hnone] at hcur
    cases hcur
  have hne := (not_or.mp hnone).2
  rw [if_neg hnone] at hcur
  have hbyte : p.curLine colon = byteOf ':' := by
    have hne' : scanWhile (· != byteOf ':') p.curLine p.curLineLength 0 ≠ 0 + p.curLineLength := by
      omega
    have hstop := scanWhile_stop hne'
    rw [hcolon] at hstop
    simpa using hstop
  have hbefore : colon < p.curLineLength - p.terminatorLength := by
    by_contra hge
    have hlt : colon ≤ p.curLineLength := by
      rw [← hcolon]
      exact (scanWhile_bounds _ _ _ 0).2.trans_eq (Nat.zero_add _)
    rcases mem_terminator (p := p) (i := colon) (by omega) (by omega) with hCR | hLF
    · exact absurd (hbyte.symm.trans hCR) (by decide)
    · exact absurd (hbyte.symm.trans hLF) (by decide)
  have hstop : isBlank (p.curLine (p.curLineLength - p.terminatorLength)) = false := by
    rcases mem_terminator (p := p) (i := p.curLineLength - p.terminatorLength) (by omega) le_rfl
      with hCR | hLF
    · rw [hCR]
      decide
    · rw [hLF]
      decide
  have hscan := scanWhile_le isBlank p.curLine (p.curLineLength - (colon + 1))
    (by omega : colon + 1 ≤ _) hstop
  cases hcur
  omega

/-- `CheckLine` calls a line complete with a line end that is no longer than its terminator. -/
theorem checkLine_finishable {p : HTTPParser T}
    (hend : p.curLineEndLength = 1 ∨ p.curLineEndLength = 2) (h : p.checkLine.1 = true) :
    p.checkLine.2.Finishable := by
  have hlength : (p.checkLine.2.curLineEndLength = 1 ∨ p.checkLine.2.curLineEndLength = 2) ∧
      p.checkLine.2.curLineEndLength ≤ p.checkLine.2.terminatorLength := by
    unfold checkLine at h ⊢
    dsimp only at h ⊢
    split_ifs at h ⊢ with hcrlf hlfcr hlf
    · refine ⟨hend, ?_⟩
      rw [terminatorLength, if_pos hcrlf]
      show p.curLineEndLength ≤ 2
      omega
    · refine ⟨Or.inl rfl, ?_⟩
      rw [terminatorLength, if_neg hcrlf, if_pos hlf]
  have hle := p.checkLine.2.terminatorLength_le
  refine ⟨hlength.1, hlength.2, by omega, fun cur hcur => ?_⟩
  have hvalue := valueCur_le (by omega) hcur
  omega

/-- The buffer does not overflow, and the line end is one of those there are. -/
structure LineBuffer (p : HTTPParser T) : Prop where
  fits : p.curLineLength ≤ kMaxHeaderLength
  endLength : p.curLineEndLength = 1 ∨ p.curLineEndLength = 2

theorem LineBuffer.store {p : HTTPParser T} (h : p.LineBuffer)
    (hroom : p.curLineLength < kMaxHeaderLength) (byte : UInt8) : (p.store byte).LineBuffer :=
  ⟨hroom, h.endLength⟩

theorem LineBuffer.checkLine {p : HTTPParser T} (h : p.LineBuffer) : p.checkLine.2.LineBuffer := by
  unfold HTTPParser.checkLine
  dsimp only
  split_ifs
  · exact h
  · exact h
  · exact ⟨h.fits, Or.inl rfl⟩
  · exact h

theorem finishing_finishable {p : HTTPParser T} (h : p.LineBuffer) {byte : UInt8} {q : HTTPParser T}
    (hq : q ∈ p.finishing byte) : q.Finishable := by
  rw [finishing] at hq
  split_ifs at hq with hnone hcheck
  · cases hq
  · cases hq
    exact checkLine_finishable h.endLength hcheck
  · cases hq

variable [HTTPMessage T]

/-- `AddHeader` from where it takes the value. -/
theorem addHeader_eq_valueCur (p : HTTPParser T) : p.addHeader =
    match p.valueCur with
    | none => (false, p)
    | some cur => (true, { p with
        reqOrRes := HTTPMessage.addHeader p.reqOrRes
          (bufferSlice p.curLine 0 (scanWhile (· != byteOf ':') p.curLine p.curLineLength 0))
          (bufferSlice p.curLine cur (p.curLineLength - cur - p.curLineEndLength)) }) := by
  rw [addHeader, valueCur]
  by_cases hblank : isBlank (p.curLine 0) = true
  · rw [if_pos hblank, if_pos (Or.inl hblank)]
  · rw [if_neg hblank]
    by_cases hcolon : scanWhile (· != byteOf ':') p.curLine p.curLineLength 0 = p.curLineLength
    · rw [if_pos (Or.inr hcolon)]
      exact if_pos hcolon
    · rw [if_neg (not_or.mpr ⟨hblank, hcolon⟩)]
      exact if_neg hcolon

/-! ### Every byte -/

theorem addHeader_buffer (p : HTTPParser T) :
    p.addHeader.2.curLine = p.curLine ∧ p.addHeader.2.curLineLength = p.curLineLength ∧
      p.addHeader.2.curLineEndLength = p.curLineEndLength := by
  rw [addHeader_eq_valueCur]
  split <;> exact ⟨rfl, rfl, rfl⟩

/-- `FinishLine` keeps what is in the buffer, or starts a new line. -/
theorem finishLine_buffer (p : HTTPParser T) :
    p.finishLine.2.2.curLine = p.curLine ∧ p.finishLine.2.2.curLineLength ≤ p.curLineLength ∧
      p.finishLine.2.2.curLineEndLength = p.curLineEndLength := by
  have hheader := p.addHeader_buffer
  unfold finishLine
  split
  · split
    · exact ⟨rfl, le_rfl, rfl⟩
    · exact ⟨rfl, Nat.zero_le _, rfl⟩
  · split_ifs
    · exact ⟨rfl, Nat.zero_le _, rfl⟩
    · split
      · next hadd =>
          rw [hadd] at hheader
          exact ⟨hheader.1, Nat.le_of_eq hheader.2.1, hheader.2.2⟩
      · next hadd =>
          rw [hadd] at hheader
          exact ⟨hheader.1, Nat.zero_le _, hheader.2.2⟩
  · exact ⟨rfl, Nat.zero_le _, rfl⟩

theorem LineBuffer.finishIfLine {p : HTTPParser T} (h : p.LineBuffer) :
    p.finishIfLine.2.2.LineBuffer := by
  have hcheck := h.checkLine
  unfold HTTPParser.finishIfLine
  split
  · next q hq =>
      rw [hq] at hcheck
      obtain ⟨-, hlength, hend⟩ := q.finishLine_buffer
      exact ⟨Nat.le_trans hlength hcheck.fits, hend ▸ hcheck.endLength⟩
  · next q hq =>
      rw [hq] at hcheck
      exact hcheck

/-- A byte keeps the buffer as it has to be, whatever the result. -/
theorem LineBuffer.addByte {p : HTTPParser T} (h : p.LineBuffer) (byte : UInt8) :
    (p.addByte byte).2.2.LineBuffer := by
  by_cases hbody : p.parseState = .kParseBody
  · rw [addByte_body hbody]
    exact ⟨h.fits, h.endLength⟩
  · rw [addByte_headers hbody]
    split_ifs with hfull
    · exact h
    · exact (h.store (not_le.mp hfull) byte).finishIfLine

/-- The content of the buffer changes at the index of the store only. -/
theorem addByte_curLine (p : HTTPParser T) (byte : UInt8) :
    (p.addByte byte).2.2.curLine =
      p.storeIndex.elim p.curLine fun i => Function.update p.curLine i byte := by
  rw [storeIndex]
  by_cases hbody : p.parseState = .kParseBody
  · rw [addByte_body hbody, if_pos (Or.inl hbody)]
    rfl
  · rw [addByte_headers hbody]
    by_cases hfull : kMaxHeaderLength ≤ p.curLineLength
    · rw [if_pos hfull, if_pos (Or.inr hfull)]
      rfl
    · rw [if_neg hfull, if_neg (not_or.mpr ⟨hbody, hfull⟩)]
      obtain ⟨hline, -⟩ := (p.store byte).checkLine_buffer
      unfold finishIfLine
      split
      · next q hq =>
          rw [hq] at hline
          exact q.finishLine_buffer.1.trans hline
      · next q hq =>
          rw [hq] at hline
          exact hline

/-! ### Every run -/

/-- The parser after some calls of `AddByte`, whatever they returned. -/
def feed (p : HTTPParser T) (bytes : Bytes) : HTTPParser T :=
  bytes.foldl (fun p byte => (p.addByte byte).2.2) p

theorem LineBuffer.feed {p : HTTPParser T} (h : p.LineBuffer) (bytes : Bytes) :
    (p.feed bytes).LineBuffer := by
  induction bytes generalizing p with
  | nil => exact h
  | cons byte bytes ih => exact ih (h.addByte byte)

/-- After any bytes the line fits into the buffer, and so does the next byte where it is stored; and
when that byte completes a line, the assertions of `AddHeader` hold on it. -/
theorem line_buffer_invariant (message : T) (mem : Nat → UInt8) (bytes : Bytes) (byte : UInt8) :
    let p := (new message mem).feed bytes
    p.curLineLength ≤ kMaxHeaderLength ∧
      (p.addByte byte).2.2.curLine =
        (p.storeIndex.elim p.curLine fun i => Function.update p.curLine i byte) ∧
      (∀ i ∈ p.storeIndex, i < kMaxHeaderLength) ∧
      ∀ q ∈ p.finishing byte, q.Finishable := by
  intro p
  have hnew : (new message mem).LineBuffer := ⟨Nat.zero_le _, Or.inr rfl⟩
  have hp : p.LineBuffer := hnew.feed bytes
  refine ⟨hp.fits, p.addByte_curLine byte, fun i hi => ?_, fun q hq => finishing_finishable hp hq⟩
  rw [storeIndex] at hi
  split_ifs at hi with hnone
  · cases hi
  · cases hi
    exact not_le.mp (not_or.mp hnone).2

end HTTPParser

end Iomgr
