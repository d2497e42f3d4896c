import Iomgr.HTTPParserChunks

/-!
The parser over whole lines. Outside the body it collects bytes in the line buffer until an LF ends
the line, and then handles the line as it stands in the buffer. What the buffer held before is still
there behind the line.
-/

namespace Iomgr

/-! ### The buffer -/

/-- The buffer after bytes have been written to it from a position on. -/
def overlay (mem : Nat → UInt8) : Nat → Bytes → Nat → UInt8
  | _, [] => mem
  | pos, b :: bs => overlay (Function.update mem pos b) (pos + 1) bs

theorem overlay_below (mem : Nat → UInt8) (pos : Nat) (bs : Bytes) {i : Nat} (h : i < pos) :
    overlay mem pos bs i = mem i := by
  induction bs generalizing mem pos with
  | nil => rfl
  | cons b bs ih =>
      rw [overlay, ih _ _ (Nat.lt_succ_of_lt h), Function.update_of_ne (Nat.ne_of_lt h)]

theorem overlay_append (mem : Nat → UInt8) (pos : Nat) (as bs : Bytes) :
    overlay mem pos (as ++ bs) = overlay (overlay mem pos as) (pos + as.length) bs := by
  induction as generalizing mem pos with
  | nil => rfl
  | cons a as ih =>
      rw [List.cons_append, overlay, ih, overlay, List.length_cons, Nat.add_right_comm,
        Nat.add_assoc]

/-- The last byte written. -/
theorem overlay_last (mem : Nat → UInt8) (pos : Nat) (bs : Bytes) (b : UInt8) :
    overlay mem pos (bs ++ [b]) (pos + bs.length) = b := by
  rw [overlay_append, overlay, overlay, Function.update_self]

theorem bytesFrom_append (mem : Nat → UInt8) (m n pos : Nat) :
    bytesFrom mem (m + n) pos = bytesFrom mem m pos ++ bytesFrom mem n (pos + m) := by
  induction m generalizing pos with
  | zero => simp [bytesFrom]
  | succ m ih =>
      rw [Nat.add_right_comm, bytesFrom, ih, bytesFrom, List.cons_append, Nat.add_assoc,
        Nat.add_comm 1 m]

@[simp] theorem length_bytesFrom (mem : Nat → UInt8) (n pos : Nat) :
    (bytesFrom mem n pos).length = n := by
  induction n generalizing pos with
  | zero => rfl
  | succ n ih => rw [bytesFrom, List.length_cons, ih]

/-- What was written is what is read. -/
theorem bytesFrom_overlay (mem : Nat → UInt8) (pos : Nat) (bs : Bytes) :
    bytesFrom (overlay mem pos bs) bs.length pos = bs := by
  induction bs generalizing mem pos with
  | nil => rfl
  | cons b bs ih =>
      rw [List.length_cons, bytesFrom, overlay, ih, overlay_below _ _ _ (Nat.lt_succ_self pos),
        Function.update_self]

/-- The rest of a line that stands at the start of the buffer, from a position in it on. -/
theorem bytesFrom_line (mem : Nat → UInt8) (line : Bytes) {k : Nat} (hk : k ≤ line.length) :
    bytesFrom (overlay mem 0 line) (line.length - k) k = line.drop k := by
  have hwhole := bytesFrom_overlay mem 0 line
  have hlength : line.length = k + (line.length - k) := by omega
  rw [hlength, bytesFrom_append, Nat.zero_add] at hwhole
  calc bytesFrom (overlay mem 0 line) (line.length - k) k
      = (bytesFrom (overlay mem 0 line) k 0 ++
          bytesFrom (overlay mem 0 line) (line.length - k) k).drop k := by
        rw [List.drop_left' (length_bytesFrom _ _ _)]
    _ = line.drop k := by rw [hwhole]

theorem scanWhile_eq (p : UInt8 → Bool) (mem : Nat → UInt8) (n cur : Nat) :
    scanWhile p mem n cur = cur + ((bytesFrom mem n cur).takeWhile p).length := by
  induction n generalizing cur with
  | zero => rfl
  | succ n ih =>
      rw [scanWhile, bytesFrom]
      cases hp : p (mem cur) with
      | true =>
          rw [if_pos rfl, ih, List.takeWhile_cons_of_pos hp, List.length_cons]
          omega
      | false => simp [hp]

theorem scanWhile_bounds (p : UInt8 → Bool) (mem : Nat → UInt8) (n cur : Nat) :
    cur ≤ scanWhile p mem n cur ∧ scanWhile p mem n cur ≤ cur + n := by
  have hlength := (List.takeWhile_prefix p (l := bytesFrom mem n cur)).length_le
  rw [length_bytesFrom] at hlength
  rw [scanWhile_eq]
  omega

/-- A scan does not pass a byte that it stops at. -/
theorem scanWhile_le (p : UInt8 → Bool) (mem : Nat → UInt8) (n : Nat) {cur stop : Nat}
    (hcur : cur ≤ stop) (hstop : p (mem stop) = false) : scanWhile p mem n cur ≤ stop := by
  induction n generalizing cur with
  | zero => exact hcur
  | succ n ih =>
      rw [scanWhile]
      split_ifs with hp
      · have hne : cur ≠ stop := by
          rintro rfl
          rw [hstop] at hp
          cases hp
        exact ih (by omega)
      · exact hcur

/-- A scan that ends early has found a byte to stop at. -/
theorem scanWhile_stop {p : UInt8 → Bool} {mem : Nat → UInt8} {n cur : Nat}
    (h : scanWhile p mem n cur ≠ cur + n) : p (mem (scanWhile p mem n cur)) = false := by
  induction n generalizing cur with
  | zero => exact absurd rfl h
  | succ n ih =>
      rw [scanWhile] at h ⊢
      split_ifs at h ⊢ with hp
      · exact ih fun heq => h (by omega)
      · exact Bool.eq_false_iff.mpr hp

/-! ### Lines -/

/-- The lines of a byte string, each with its LF; `cur` is the line that has been begun. Bytes after
the last LF are no line. -/
def linesFrom (cur : Bytes) : Bytes → List Bytes
  | [] => []
  | b :: bs => if b = LF then (cur ++ [b]) :: linesFrom [] bs else linesFrom (cur ++ [b]) bs

theorem linesFrom_line (cur : Bytes) {line : Bytes} (h : LF ∉ line) (rest : Bytes) :
    linesFrom cur (line ++ LF :: rest) = (cur ++ line ++ [LF]) :: linesFrom [] rest := by
  induction line generalizing cur with
  | nil => simp [linesFrom]
  | cons b bs ih =>
      rw [List.mem_cons, not_or] at h
      rw [List.cons_append, linesFrom, if_neg (Ne.symm h.1), ih (cur ++ [b]) h.2]
      simp

/-- A byte string has a first line, or no line at all. -/
theorem line_cases (bs : Bytes) : LF ∉ bs ∨ ∃ line rest, LF ∉ line ∧ bs = line ++ LF :: rest := by
  by_cases h : LF ∈ bs
  · obtain ⟨line, rest, heq, hnot⟩ := List.eq_append_cons_of_mem h
    exact Or.inr ⟨line, rest, hnot, heq⟩
  · exact Or.inl h

namespace HTTPParser

variable {T : Type}

theorem checkLine_of_ne {p : HTTPParser T} {b : UInt8} (hb : b ≠ LF) :
    (p.store b).checkLine = (false, p.store b) := by
  have hlast : (p.store b).curLine ((p.store b).curLineLength - 1) = b := by
    simp [store]
  unfold checkLine
  dsimp only
  rw [hlast]
  split_ifs with h1 h2 h3
  · exact absurd h1.2.2 hb
  · rfl
  · exact absurd h3.2 hb
  · rfl

/-- The parser with a line begun in its buffer. -/
def storeAll (p : HTTPParser T) (bytes : Bytes) : HTTPParser T := bytes.foldl store p

theorem storeAll_eq (p : HTTPParser T) (bytes : Bytes) : p.storeAll bytes =
    { p with
      curLine := overlay p.curLine p.curLineLength bytes
      curLineLength := p.curLineLength + bytes.length } := by
  induction bytes generalizing p with
  | nil => rfl
  | cons b bs ih =>
      calc p.storeAll (b :: bs) = (p.store b).storeAll bs := rfl
        _ = _ := by
            rw [ih]
            simp only [store, overlay, List.length_cons, Nat.add_right_comm, Nat.add_assoc]

/-- A byte LF completes the line: the length of the line end is 1 after a bare LF, and then for
good. -/
theorem checkLine_of_LF {p : HTTPParser T} {n : Nat} (hn : p.curLineLength = n + 1)
    (hlast : p.curLine n = LF) : p.checkLine = (true, { p with
      curLineEndLength := if 1 ≤ n ∧ p.curLine (n - 1) = CR then p.curLineEndLength else 1 }) := by
  obtain ⟨message, state, length, endLength, mem⟩ := p
  subst hn
  have hne : LF ≠ CR := by decide
  have hsub : n + 1 - 2 = n - 1 := rfl
  dsimp only at hlast
  simp only [checkLine, Nat.add_sub_cancel, hsub, hlast, hne, and_true, and_false, if_false,
    Nat.le_add_left, if_true, Nat.reduceLeDiff]
  split_ifs <;> rfl

variable [HTTPMessage T]

theorem addByte_headers {p : HTTPParser T} (h : p.parseState ≠ .kParseBody) (b : UInt8) :
    p.addByte b = if kMaxHeaderLength ≤ p.curLineLength then (false, false, p)
      else (p.store b).finishIfLine := by
  unfold addByte
  split
  · rfl
  · rfl
  · next hbody => exact absurd hbody h

theorem finishIfLine_of_ne {p : HTTPParser T} {b : UInt8} (hb : b ≠ LF) :
    (p.store b).finishIfLine = (true, false, p.store b) := by
  rw [finishIfLine, checkLine_of_ne hb]

/-- What is left of a line leads to the finished line, if the line fits in the buffer. -/
theorem parseFrom_line {p : HTTPParser T} (h : p.parseState ≠ .kParseBody) {line : Bytes}
    (hline : LF ∉ line) (rest : Bytes) (i start : Nat) :
    p.parseFrom i (line ++ LF :: rest) start =
      if p.curLineLength + line.length < kMaxHeaderLength then
        match (p.storeAll (line ++ [LF])).finishIfLine with
        | (false, _, q) => (false, start, q)
        | (true, found, q) => q.parseFrom (i + line.length + 1) rest
            (if found then i + line.length + 1 else start)
      else (false, start, p.storeAll (line.take (kMaxHeaderLength - p.curLineLength))) := by
  induction line generalizing p i with
  | nil =>
      rw [List.nil_append, parseFrom, addByte_headers h, List.length_nil]
      by_cases hfull : kMaxHeaderLength ≤ p.curLineLength
      · have hlong : ¬p.curLineLength + 0 < kMaxHeaderLength := Nat.not_lt.mpr hfull
        rw [if_pos hfull, if_neg hlong, List.take_nil]
        rfl
      · have hshort : p.curLineLength + 0 < kMaxHeaderLength := Nat.not_le.mp hfull
        rw [if_neg hfull, if_pos hshort]
        rfl
  | cons b bs ih =>
      rw [List.mem_cons, not_or] at hline
      rw [List.cons_append, parseFrom, addByte_headers h, finishIfLine_of_ne (Ne.symm hline.1)]
      by_cases hfull : kMaxHeaderLength ≤ p.curLineLength
      · have hlong : ¬p.curLineLength + (b :: bs).length < kMaxHeaderLength := by
          rw [List.length_cons]
          omega
        rw [if_pos hfull, if_neg hlong, Nat.sub_eq_zero_of_le hfull]
        rfl
      · have hlength : (p.store b).curLineLength + bs.length =
            p.curLineLength + (b :: bs).length := by
          simp only [store, List.length_cons]
          omega
        have hindex : i + 1 + bs.length + 1 = i + (b :: bs).length + 1 := by
          rw [List.length_cons]
          omega
        have hleft : kMaxHeaderLength - p.curLineLength =
            kMaxHeaderLength - (p.store b).curLineLength + 1 := by
          simp only [store]
          omega
        rw [if_neg hfull, hleft, List.take_succ_cons]
        dsimp only
        rw [if_neg Bool.false_ne_true, ih (p := p.store b) h hline.2, hlength, hindex]
        rfl

/-- The parser with a complete line in its buffer; the length of the line end is 1 after a bare LF,
and then for good. -/
def lineStored (p : HTTPParser T) (line : Bytes) : HTTPParser T :=
  { p with
    curLine := overlay p.curLine 0 (line ++ [LF])
    curLineLength := line.length + 1
    curLineEndLength := if line.getLast? = some CR then p.curLineEndLength else 1 }

omit [HTTPMessage T] in
theorem checkLine_line {p : HTTPParser T} (hstart : p.curLineLength = 0) (line : Bytes) :
    (p.storeAll (line ++ [LF])).checkLine = (true, p.lineStored line) := by
  have hstored : p.storeAll (line ++ [LF]) = { p with
      curLine := overlay p.curLine 0 (line ++ [LF])
      curLineLength := line.length + 1 } := by
    rw [storeAll_eq, hstart, List.length_append, List.length_singleton, Nat.zero_add]
  have hlast := overlay_last p.curLine 0 line LF
  rw [Nat.zero_add] at hlast
  have hcr : (1 ≤ line.length ∧ overlay p.curLine 0 (line ++ [LF]) (line.length - 1) = CR) ↔
      line.getLast? = some CR := by
    rcases List.eq_nil_or_concat' line with rfl | ⟨init, c, rfl⟩
    · simp
    · have hc : overlay p.curLine 0 (init ++ [c] ++ [LF]) init.length = c := by
        have hlast' := overlay_last p.curLine 0 init c
        rw [Nat.zero_add] at hlast'
        rw [overlay_append, overlay, overlay, Function.update_of_ne (by simp), hlast']
      rw [List.getLast?_concat, List.length_append, List.length_singleton, Nat.add_sub_cancel, hc,
        Option.some_inj]
      exact and_iff_right (Nat.le_add_left 1 _)
  rw [hstored, checkLine_of_LF rfl hlast]
  simp only [hcr]
  rfl

theorem finishIfLine_line {p : HTTPParser T} (hstart : p.curLineLength = 0) (line : Bytes) :
    (p.storeAll (line ++ [LF])).finishIfLine = (p.lineStored line).finishLine := by
  rw [finishIfLine, checkLine_line hstart]

/-! ### A header line -/

/-- The bytes of a line before its colon. -/
def lineKey (line : Bytes) : Bytes := line.takeWhile (· != byteOf ':')

/-- Where the value of a header line starts: behind the colon and the blanks after it. -/
def valueStart (line : Bytes) : Nat :=
  (lineKey line).length + 1 +
    ((line.drop ((lineKey line).length + 1)).takeWhile isBlank).length

theorem lineKey_length_le (line : Bytes) : (lineKey line).length ≤ line.length :=
  (List.takeWhile_prefix _).length_le

/-- `AddHeader` on a line in the buffer: no leading blank, and a colon. -/
theorem addHeader_line {p : HTTPParser T} {mem : Nat → UInt8} {line : Bytes}
    (hmem : p.curLine = overlay mem 0 line) (hlength : p.curLineLength = line.length) :
    p.addHeader = if isBlank (p.curLine 0) ∨ (lineKey line).length = line.length then (false, p)
      else (true, { p with
        reqOrRes := HTTPMessage.addHeader p.reqOrRes
          (bufferSlice p.curLine 0 (lineKey line).length)
          (bufferSlice p.curLine (valueStart line)
            (line.length - valueStart line - p.curLineEndLength)) }) := by
  have hkey : scanWhile (· != byteOf ':') p.curLine p.curLineLength 0 = (lineKey line).length := by
    rw [scanWhile_eq, hmem, hlength, bytesFrom_overlay, Nat.zero_add]
    rfl
  unfold addHeader
  dsimp only
  rw [hkey, hlength]
  by_cases hblank : isBlank (p.curLine 0) = true
  · rw [if_pos hblank, if_pos (Or.inl hblank)]
  · rw [if_neg hblank]
    by_cases hcolon : (lineKey line).length = line.length
    · rw [if_pos hcolon, if_pos (Or.inr hcolon)]
    · have hle := lineKey_length_le line
      have hvalue : scanWhile isBlank p.curLine (line.length - ((lineKey line).length + 1))
          ((lineKey line).length + 1) = valueStart line := by
        rw [scanWhile_eq, hmem, bytesFrom_line mem line (by omega)]
        rfl
      rw [if_neg hcolon, hvalue, if_neg (not_or.mpr ⟨hblank, hcolon⟩)]

/-- The key of a header line, as the slice holds it. -/
theorem toBytes_bufferSlice_key {mem : Nat → UInt8} {line : Bytes}
    (hlength : line.length ≤ kMaxHeaderLength) :
    (bufferSlice (overlay mem 0 line) 0 (lineKey line).length).toBytes = lineKey line := by
  have hsplit : kMaxHeaderLength - 0 = line.length + (kMaxHeaderLength - line.length) := by omega
  rw [Slice.toBytes, bufferSlice, hsplit, bytesFrom_append, bytesFrom_overlay,
    List.take_append_of_le_length (lineKey_length_le line)]
  exact (List.prefix_iff_eq_take.mp (List.takeWhile_prefix _)).symm

end HTTPParser

end Iomgr
