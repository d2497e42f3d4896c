import Iomgr.HTTPContentLength
import Iomgr.HTTPReads

/-!
Lines that are not read beyond their end. When all lines that a parser finishes are of this kind, the
result is the same for every content of its buffer: two parsers that agree on the line that has been
begun stay together.
-/

namespace Iomgr

/-- A buffer holds what is read from it. -/
theorem overlay_bytesFrom (mem : Nat → UInt8) (n pos : Nat) :
    overlay mem pos (bytesFrom mem n pos) = mem := by
  induction n generalizing pos with
  | zero => rfl
  | succ n ih => rw [bytesFrom, overlay, Function.update_eq_self, ih]

namespace HTTPParser

variable {T : Type}

/-! ### Two buffers -/

/-- The parser with another content of its buffer. -/
def withBuffer (p : HTTPParser T) (mem : Nat → UInt8) : HTTPParser T := { p with curLine := mem }

/-- The other content has the line that has been begun. -/
def Agrees (p : HTTPParser T) (mem : Nat → UInt8) : Prop :=
  ∀ i < p.curLineLength, mem i = p.curLine i

section

variable {p : HTTPParser T} {mem : Nat → UInt8}

theorem Agrees.store (h : p.Agrees mem) (byte : UInt8) :
    (p.store byte).Agrees (Function.update mem p.curLineLength byte) := by
  intro i hi
  show Function.update mem p.curLineLength byte i = Function.update p.curLine p.curLineLength byte i
  by_cases hlast : i = p.curLineLength
  · rw [hlast, Function.update_self, Function.update_self]
  · have hbound : i < p.curLineLength + 1 := hi
    rw [Function.update_of_ne hlast, Function.update_of_ne hlast]
    exact h i (by omega)

/-- Whether the line is complete is a matter of its last two bytes. -/
theorem Agrees.checkLine (h : p.Agrees mem) :
    (p.withBuffer mem).checkLine = (p.checkLine.1, p.checkLine.2.withBuffer mem) := by
  have hboth : ∀ a b : UInt8,
      (2 ≤ p.curLineLength ∧ mem (p.curLineLength - 2) = a ∧ mem (p.curLineLength - 1) = b) ↔
        (2 ≤ p.curLineLength ∧ p.curLine (p.curLineLength - 2) = a ∧
          p.curLine (p.curLineLength - 1) = b) := by
    intro a b
    refine and_congr_right fun hpos => ?_
    rw [h _ (by omega), h _ (by omega)]
  have hone : (1 ≤ p.curLineLength ∧ mem (p.curLineLength - 1) = LF) ↔
      (1 ≤ p.curLineLength ∧ p.curLine (p.curLineLength - 1) = LF) := by
    refine and_congr_right fun hpos => ?_
    rw [h _ (by omega)]
  simp only [HTTPParser.checkLine, withBuffer, hboth, hone]
  split_ifs <;> rfl

end

variable [HTTPMessage T]

/-! ### Lines that are read within their ends -/

/-- The line in the buffer. -/
def line (p : HTTPParser T) : Bytes := bytesFrom p.curLine p.curLineLength 0

/-- A slice of a line that lies in some storage. -/
def lineSlice (line behind : Bytes) (pos size : Nat) : Slice := ⟨line.drop pos ++ behind, size⟩

/-- The header that a line adds to a message, with something behind the line. -/
def addLine (message : T) (line behind : Bytes) (endLength : Nat) : T :=
  HTTPMessage.addHeader message (lineSlice line behind 0 (lineKey line).length)
    (lineSlice line behind (valueStart line) (line.length - valueStart line - endLength))

/-- The functions that handle the complete line read before its end, and before the end of the
buffer. -/
def ReadsWithin [TracedMessage T] (p : HTTPParser T) : Prop :=
  Reading.ReadsIn p.curLine {i | i < p.curLineLength ∧ i < kMaxHeaderLength} (Traced.finishLine p)

omit [HTTPMessage T] in
theorem bufferSlice_eq_lineSlice {p : HTTPParser T} (hfits : p.curLineLength ≤ kMaxHeaderLength)
    {pos : Nat} (hpos : pos ≤ p.curLineLength) (size : Nat) :
    bufferSlice p.curLine pos size = lineSlice p.line
      (bytesFrom p.curLine (kMaxHeaderLength - p.curLineLength) p.curLineLength) pos size := by
  have hline : p.line.length = p.curLineLength := length_bytesFrom _ _ _
  have hdrop := bytesFrom_line p.curLine p.line (k := pos) (by omega)
  have hmem : overlay p.curLine 0 p.line = p.curLine := overlay_bytesFrom _ _ _
  have hsplit : kMaxHeaderLength - pos =
      (p.curLineLength - pos) + (kMaxHeaderLength - p.curLineLength) := by omega
  have hend : pos + (p.curLineLength - pos) = p.curLineLength := by omega
  rw [hmem, hline] at hdrop
  rw [bufferSlice, lineSlice, hsplit, bytesFrom_append, hdrop, hend]

theorem valueStart_le {line : Bytes} (h : (lineKey line).length ≠ line.length) :
    valueStart line ≤ line.length := by
  have hkey := lineKey_length_le line
  have htake : ((line.drop ((lineKey line).length + 1)).takeWhile isBlank).length ≤
      (line.drop ((lineKey line).length + 1)).length := (List.takeWhile_prefix _).length_le
  rw [List.length_drop] at htake
  unfold valueStart
  omega

/-- `AddHeader` over the line and what lies behind it. -/
theorem addHeader_eq_addLine {p : HTTPParser T} (hpos : 0 < p.curLineLength)
    (hfits : p.curLineLength ≤ kMaxHeaderLength) :
    p.addHeader = if p.line.head?.any isBlank ∨ (lineKey p.line).length = p.line.length then (false, p)
      else (true, { p with
        reqOrRes := addLine p.reqOrRes p.line
          (bytesFrom p.curLine (kMaxHeaderLength - p.curLineLength) p.curLineLength)
          p.curLineEndLength }) := by
  have hmem : p.curLine = overlay p.curLine 0 p.line := (overlay_bytesFrom _ _ _).symm
  have hline : p.line.length = p.curLineLength := length_bytesFrom _ _ _
  have hblank : isBlank (p.curLine 0) = p.line.head?.any isBlank := by
    obtain ⟨n, hn⟩ : ∃ n, p.curLineLength = n + 1 := ⟨p.curLineLength - 1, by omega⟩
    rw [line, hn, bytesFrom]
    rfl
  rw [addHeader_line hmem hline.symm, hblank]
  by_cases hnone : p.line.head?.any isBlank ∨ (lineKey p.line).length = p.line.length
  · rw [if_pos hnone, if_pos hnone]
  · have hvalue := valueStart_le (not_or.mp hnone).2
    rw [if_neg hnone, if_neg hnone, bufferSlice_eq_lineSlice hfits (Nat.zero_le _),
      bufferSlice_eq_lineSlice hfits (by omega)]
    rfl

omit [HTTPMessage T] in
theorem finishWith_withBuffer (p : HTTPParser T) (mem : Nat → UInt8) (result : Bool × T) :
    (p.withBuffer mem).finishWith result =
      ((p.finishWith result).1, (p.finishWith result).2.1,
        (p.finishWith result).2.2.withBuffer mem) := by
  obtain ⟨message, state, length, endLength, curLine⟩ := p
  obtain ⟨_ | _, message'⟩ := result
  · rfl
  · cases state with
    | kParseFirstLine => rfl
    | kParseHeaders =>
        by_cases hblank : length = endLength
        · simp [finishWith, withBuffer, hblank]
        · simp [finishWith, withBuffer, hblank]
    | kParseBody => rfl

/-- A line that is read before its end is finished in the same way with another buffer behind it. -/
theorem ReadsWithin.finishLine [TracedMessage T] {p : HTTPParser T} {mem : Nat → UInt8}
    (h : p.ReadsWithin) (hfits : p.curLineLength ≤ kMaxHeaderLength) (hagrees : p.Agrees mem) :
    (p.withBuffer mem).finishLine =
      (p.finishLine.1, p.finishLine.2.1, p.finishLine.2.2.withBuffer mem) := by
  have hresult : (Traced.finishLine p).eval mem = (Traced.finishLine p).eval p.curLine :=
    Reading.ReadsIn.eval_eq h fun i hi => hagrees i hi.1
  rw [finishLine_eq_finishWith hfits, ← finishWith_withBuffer, ← hresult]
  exact finishLine_eq_finishWith (p := p.withBuffer mem) hfits

/-! ### The lines of a run -/

/-- The parser on which `FinishLine` is called when the byte comes, if it is. -/
def finishing (p : HTTPParser T) (byte : UInt8) : Option (HTTPParser T) :=
  if p.parseState = .kParseBody ∨ kMaxHeaderLength ≤ p.curLineLength then none
  else if (p.store byte).checkLine.1 then some (p.store byte).checkLine.2
  else none

/-- The parsers on which `FinishLine` is called in a run, one after the other. -/
def finishedLines (p : HTTPParser T) : Bytes → List (HTTPParser T)
  | [] => []
  | byte :: bytes =>
      (p.finishing byte).toList ++
        match p.addByte byte with
        | (false, _, _) => []
        | (true, _, q) => q.finishedLines bytes

/-- No line that is finished in the run is read beyond its end. -/
def AllWithin [TracedMessage T] (p : HTTPParser T) (bytes : Bytes) : Prop :=
  ∀ q ∈ p.finishedLines bytes, q.ReadsWithin

omit [HTTPMessage T] in
theorem checkLine_buffer (p : HTTPParser T) :
    p.checkLine.2.curLine = p.curLine ∧ p.checkLine.2.curLineLength = p.curLineLength := by
  unfold checkLine
  dsimp only
  split_ifs <;> exact ⟨rfl, rfl⟩

theorem curLineLength_of_finishLine {p : HTTPParser T} (h : p.finishLine.1 = true) :
    p.finishLine.2.2.curLineLength = 0 := by
  unfold finishLine at h ⊢
  split
  · next hstate =>
      rw [hstate] at h
      dsimp only at h
      split
      · next hline =>
          rw [hline] at h
          cases h
      · rfl
  · next hstate =>
      rw [hstate] at h
      dsimp only at h
      split_ifs with hlength
      · rfl
      · rw [if_neg hlength] at h
        split
        · next hline =>
            rw [hline] at h
            cases h
        · rfl
  · rfl

/-- A byte does the same with another buffer behind the line. -/
theorem addByte_withBuffer [TracedMessage T] {p : HTTPParser T} {mem : Nat → UInt8} (byte : UInt8)
    (hwithin : ∀ q ∈ p.finishing byte, q.ReadsWithin) (h : p.Agrees mem) :
    ∃ mem', (p.withBuffer mem).addByte byte =
        ((p.addByte byte).1, (p.addByte byte).2.1, (p.addByte byte).2.2.withBuffer mem') ∧
      ((p.addByte byte).1 = true → (p.addByte byte).2.2.Agrees mem') := by
  by_cases hbody : p.parseState = .kParseBody
  · have hbody' : (p.withBuffer mem).parseState = .kParseBody := hbody
    rw [addByte_body hbody, addByte_body hbody']
    exact ⟨mem, rfl, fun _ => h⟩
  · have hbody' : (p.withBuffer mem).parseState ≠ .kParseBody := hbody
    rw [addByte_headers hbody, addByte_headers hbody']
    by_cases hfull : kMaxHeaderLength ≤ p.curLineLength
    · have hfull' : kMaxHeaderLength ≤ (p.withBuffer mem).curLineLength := hfull
      rw [if_pos hfull, if_pos hfull']
      exact ⟨mem, rfl, fun _ => h⟩
    · have hfull' : ¬kMaxHeaderLength ≤ (p.withBuffer mem).curLineLength := hfull
      rw [if_neg hfull, if_neg hfull']
      have hstored := h.store byte
      have hcheck := hstored.checkLine
      obtain ⟨hmem, hlength⟩ := (p.store byte).checkLine_buffer
      have hagrees : (p.store byte).checkLine.2.Agrees
          (Function.update mem p.curLineLength byte) := by
        intro i hi
        rw [hmem]
        exact hstored i (hlength ▸ hi)
      refine ⟨Function.update mem p.curLineLength byte, ?_⟩
      have hfinish : (p.withBuffer mem).store byte =
          (p.store byte).withBuffer (Function.update mem p.curLineLength byte) := rfl
      rw [hfinish, finishIfLine, hcheck, finishIfLine]
      cases hline : (p.store byte).checkLine with
      | mk complete q =>
          rw [hline] at hlength hagrees
          cases complete with
          | false => exact ⟨rfl, fun _ => hagrees⟩
          | true =>
              have hmem : q ∈ p.finishing byte := by
                rw [finishing, if_neg (not_or.mpr ⟨hbody, hfull⟩), hline]
                rfl
              have hstart : (p.store byte).curLineLength = p.curLineLength + 1 := rfl
              have hq : q.curLineLength = p.curLineLength + 1 := hlength.trans hstart
              have hsame := (hwithin q hmem).finishLine (by omega) hagrees
              refine ⟨hsame, fun htrue i hi => ?_⟩
              rw [curLineLength_of_finishLine htrue] at hi
              exact absurd hi (Nat.not_lt_zero i)

/-- A run in which no line is read beyond its end is the same with another buffer. -/
theorem parseFrom_withBuffer [TracedMessage T] {p : HTTPParser T} {mem : Nat → UInt8} {bytes : Bytes}
    (hwithin : p.AllWithin bytes) (h : p.Agrees mem) (i start : Nat) :
    ∃ mem', (p.withBuffer mem).parseFrom i bytes start =
      ((p.parseFrom i bytes start).1, (p.parseFrom i bytes start).2.1,
        (p.parseFrom i bytes start).2.2.withBuffer mem') := by
  induction bytes generalizing p mem i start with
  | nil => exact ⟨mem, rfl⟩
  | cons byte bytes ih =>
      obtain ⟨mem', hadd, hagrees⟩ := addByte_withBuffer byte
        (fun q hq => hwithin q (List.mem_append_left _ (Option.mem_toList.mpr hq))) h
      rw [parseFrom, parseFrom, hadd]
      cases hbyte : p.addByte byte with
      | mk verdict result =>
          obtain ⟨found, q⟩ := result
          rw [hbyte] at hagrees
          cases verdict with
          | false => exact ⟨mem', rfl⟩
          | true =>
              have hrest : q.AllWithin bytes := by
                intro q' hq'
                apply hwithin q'
                rw [finishedLines, hbyte]
                exact List.mem_append_right _ hq'
              exact ih hrest (hagrees rfl) (i + 1) _

/-! ### The lines of a run, line by line -/

theorem finishedLines_body {p : HTTPParser T} (h : p.parseState = .kParseBody) (bytes : Bytes) :
    p.finishedLines bytes = [] := by
  induction bytes generalizing p with
  | nil => rfl
  | cons byte bytes ih =>
      have hnext : (p.appendBytes [byte]).parseState = .kParseBody := h
      rw [finishedLines, addByte_body h, finishing, if_pos (Or.inl h)]
      exact ih hnext

/-- A byte that does not complete a line. -/
theorem finishedLines_of_ne {p : HTTPParser T} (h : p.parseState ≠ .kParseBody) {b : UInt8}
    (hb : b ≠ LF) (bytes : Bytes) :
    p.finishedLines (b :: bytes) =
      if kMaxHeaderLength ≤ p.curLineLength then [] else (p.store b).finishedLines bytes := by
  rw [finishedLines, finishing, addByte_headers h]
  by_cases hfull : kMaxHeaderLength ≤ p.curLineLength
  · rw [if_pos (Or.inr hfull), if_pos hfull, if_pos hfull]
    rfl
  · rw [if_neg (not_or.mpr ⟨h, hfull⟩), if_neg hfull, if_neg hfull, finishIfLine_of_ne hb,
      checkLine_of_ne hb]
    rfl

theorem finishedLines_of_notMem {p : HTTPParser T} (h : p.parseState ≠ .kParseBody) {bytes : Bytes}
    (hbytes : LF ∉ bytes) : p.finishedLines bytes = [] := by
  induction bytes generalizing p with
  | nil => rfl
  | cons b bs ih =>
      rw [List.mem_cons, not_or] at hbytes
      rw [finishedLines_of_ne h (Ne.symm hbytes.1)]
      split_ifs
      · rfl
      · exact ih (p := p.store b) h hbytes.2

theorem finishedLines_storeAll {p : HTTPParser T} (h : p.parseState ≠ .kParseBody) {line : Bytes}
    (hline : LF ∉ line) (hfits : p.curLineLength + line.length ≤ kMaxHeaderLength) (bytes : Bytes) :
    p.finishedLines (line ++ bytes) = (p.storeAll line).finishedLines bytes := by
  induction line generalizing p with
  | nil => rfl
  | cons b line ih =>
      rw [List.mem_cons, not_or] at hline
      rw [List.length_cons] at hfits
      have hlength : (p.store b).curLineLength = p.curLineLength + 1 := rfl
      rw [List.cons_append, finishedLines_of_ne h (Ne.symm hline.1), if_neg (by omega)]
      exact ih (p := p.store b) h hline.2 (by omega)

theorem finishedLines_full {p : HTTPParser T} (h : p.parseState ≠ .kParseBody)
    (hfull : kMaxHeaderLength ≤ p.curLineLength) (bytes : Bytes) : p.finishedLines bytes = [] := by
  cases bytes with
  | nil => rfl
  | cons b bytes =>
      rw [finishedLines, finishing, if_pos (Or.inr hfull), addByte_headers h, if_pos hfull]
      rfl

omit [HTTPMessage T] in
theorem storeAll_fields (p : HTTPParser T) (bytes : Bytes) :
    (p.storeAll bytes).parseState = p.parseState ∧
      (p.storeAll bytes).curLineLength = p.curLineLength + bytes.length := by
  rw [storeAll_eq]
  exact ⟨rfl, rfl⟩

/-- A line that is too long is never finished. -/
theorem finishedLines_long {p : HTTPParser T} (h : p.parseState ≠ .kParseBody)
    (hstart : p.curLineLength = 0) {line : Bytes} (hline : LF ∉ line)
    (hlong : kMaxHeaderLength ≤ line.length) (bytes : Bytes) :
    p.finishedLines (line ++ LF :: bytes) = [] := by
  have hlength : (line.take kMaxHeaderLength).length = kMaxHeaderLength :=
    List.length_take_of_le hlong
  obtain ⟨hstate, hstored⟩ := p.storeAll_fields (line.take kMaxHeaderLength)
  rw [← List.take_append_drop kMaxHeaderLength line, List.append_assoc,
    finishedLines_storeAll h (fun hlf => hline (List.mem_of_mem_take hlf)) (by omega)]
  exact finishedLines_full (hstate ▸ h) (by omega) _

/-- A line that fits in the buffer is finished. -/
theorem finishedLines_line {p : HTTPParser T} (h : p.parseState ≠ .kParseBody)
    (hstart : p.curLineLength = 0) {line : Bytes} (hline : LF ∉ line)
    (hfits : line.length < kMaxHeaderLength) (bytes : Bytes) :
    p.finishedLines (line ++ LF :: bytes) = p.lineStored line ::
      match (p.lineStored line).finishLine with
      | (false, _, _) => []
      | (true, _, q) => q.finishedLines bytes := by
  obtain ⟨hstate, hstored⟩ := p.storeAll_fields line
  have hstate' : (p.storeAll line).parseState ≠ .kParseBody := hstate ▸ h
  have hroom : ¬kMaxHeaderLength ≤ (p.storeAll line).curLineLength := by omega
  have hstore : (p.storeAll line).store LF = p.storeAll (line ++ [LF]) := by
    unfold storeAll
    rw [List.foldl_append]
    rfl
  rw [finishedLines_storeAll h hline (by omega), finishedLines, finishing,
    if_neg (not_or.mpr ⟨hstate', hroom⟩), addByte_headers hstate', if_neg hroom, hstore,
    checkLine_line hstart, finishIfLine_line hstart]
  rfl

end HTTPParser

end Iomgr
