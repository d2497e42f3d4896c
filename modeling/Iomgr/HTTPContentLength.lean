import Iomgr.HTTPParserLines

/-!
The length that a request announces, read off its lines. A header counts when its key starts with
`content-length`; its number is what `atoi` makes of the buffer from the value on, which for a blank
value is what earlier lines have left there. The first number that is not -1 is kept.
-/

namespace Iomgr

namespace HTTPParser

def isBlankLine (line : Bytes) : Bool := line = [LF] ∨ line = [CR, LF]

/-- The number `atoi` reads from the value of a header line in the buffer, as a `size_t`. -/
def lengthReading (mem : Nat → UInt8) (line : Bytes) : Nat :=
  sizeOfInt (atoi (bytesFrom mem (kMaxHeaderLength - valueStart line) (valueStart line)))

/-- The numbers of the header lines whose key starts with `content-length`, with the buffer as it is
before the first line. -/
def lengthReadings (mem : Nat → UInt8) : List Bytes → List Nat
  | [] => []
  | line :: lines =>
      let mem := overlay mem 0 line
      if kContentLength <+: lineKey line then lengthReading mem line :: lengthReadings mem lines
      else lengthReadings mem lines

/-- The length that a message announces: the first reading that is not -1. -/
def announcedLength (mem : Nat → UInt8) (msg : Bytes) : Option Nat :=
  match linesFrom [] msg with
  | [] => none
  | first :: lines =>
      (lengthReadings (overlay mem 0 first) (lines.takeWhile (!isBlankLine ·))).find? (· != kUnset)

/-- Readings are taken until one of them is kept. -/
def keep (contentLength : Nat) (readings : List Nat) : Nat :=
  readings.foldl (fun c reading => if c = kUnset then reading else c) contentLength

theorem keep_of_ne {c : Nat} (h : c ≠ kUnset) (readings : List Nat) : keep c readings = c := by
  induction readings with
  | nil => rfl
  | cons x xs ih =>
      rw [keep, List.foldl_cons, if_neg h]
      exact ih

theorem keep_unset (readings : List Nat) :
    keep kUnset readings = (readings.find? (· != kUnset)).getD kUnset := by
  induction readings with
  | nil => rfl
  | cons x xs ih =>
      rw [keep, List.foldl_cons, if_pos rfl, ← keep]
      by_cases hx : x = kUnset
      · rw [hx, ih, List.find?_cons_of_neg (by simp)]
      · rw [keep_of_ne hx, List.find?_cons_of_pos (by simpa using hx)]
        rfl

theorem lineKey_length_of_isBlankLine {line : Bytes} (h : isBlankLine line = true) :
    (lineKey line).length = line.length := by
  rcases of_decide_eq_true h with rfl | rfl
  · decide
  · decide

/-- A line that is as long as its line end is blank. -/
theorem isBlankLine_of_length {endLength : Nat} (hend : endLength = 1 ∨ endLength = 2) {line : Bytes}
    (h : line.length + 1 = if line.getLast? = some CR then endLength else 1) :
    isBlankLine (line ++ [LF]) = true := by
  split_ifs at h with hcr
  · obtain ⟨init, rfl⟩ := List.getLast?_eq_some_iff.mp hcr
    have hinit : init = [] := by
      rw [List.length_append, List.length_singleton] at h
      apply List.length_eq_zero_iff.mp
      omega
    subst hinit
    decide
  · have hline : line = [] := List.length_eq_zero_iff.mp (Nat.succ.inj h)
    subst hline
    decide

/-- A header line in the buffer sets the content length when it is the first to announce one. -/
theorem contentLength_addHeader {r : HTTPRequest} {mem : Nat → UInt8} {line : Bytes}
    (hlength : line.length ≤ kMaxHeaderLength) (size : Nat) :
    (r.addHeader (bufferSlice (overlay mem 0 line) 0 (lineKey line).length)
      (bufferSlice (overlay mem 0 line) (valueStart line) size)).contentLength =
      if r.contentLength = kUnset ∧ kContentLength <+: lineKey line then
        lengthReading (overlay mem 0 line) line
      else r.contentLength := by
  show HTTPRequest.announced _ _ _ = _
  unfold HTTPRequest.announced
  rw [toBytes_bufferSlice_key hlength]
  simp only [matchLength_eq_length_iff]
  rfl

/-- A line of the headers, accepted: it is blank and ends them, or it is a header. -/
theorem finishLine_headers {p q : HTTPParser HTTPRequest} (hstate : p.parseState = .kParseHeaders)
    (hend : p.curLineEndLength = 1 ∨ p.curLineEndLength = 2) {line : Bytes}
    (hlength : line.length < kMaxHeaderLength) {found : Bool}
    (hfinish : (p.lineStored line).finishLine = (true, found, q)) :
    (isBlankLine (line ++ [LF]) = true ∧ q.parseState = .kParseBody ∧
      q.reqOrRes.contentLength = p.reqOrRes.contentLength) ∨
    (isBlankLine (line ++ [LF]) = false ∧ q.parseState = .kParseHeaders ∧ q.curLineLength = 0 ∧
      (q.curLineEndLength = 1 ∨ q.curLineEndLength = 2) ∧
      q.curLine = overlay p.curLine 0 (line ++ [LF]) ∧
      q.reqOrRes.contentLength =
        if p.reqOrRes.contentLength = kUnset ∧ kContentLength <+: lineKey (line ++ [LF]) then
          lengthReading (overlay p.curLine 0 (line ++ [LF])) (line ++ [LF])
        else p.reqOrRes.contentLength) := by
  have hfull : (line ++ [LF]).length = line.length + 1 := by simp
  have hadd := addHeader_line (p := p.lineStored line) rfl hfull.symm
  have hendLength : (p.lineStored line).curLineEndLength = 1 ∨
      (p.lineStored line).curLineEndLength = 2 := by
    rw [lineStored]
    dsimp only
    split_ifs
    · exact hend
    · exact Or.inl rfl
  unfold finishLine at hfinish
  split at hfinish
  · next hfirst => exact absurd (hstate.symm.trans hfirst) nofun
  · split_ifs at hfinish with hblank
    · cases hfinish
      exact Or.inl ⟨isBlankLine_of_length hend hblank, rfl, rfl⟩
    · rw [hadd] at hfinish
      split_ifs at hfinish with hnone
      · cases hfinish
      · cases hfinish
        rw [not_or] at hnone
        refine Or.inr ⟨?_, hstate, rfl, hendLength, rfl, ?_⟩
        · rw [Bool.eq_false_iff]
          exact fun hb => hnone.2 (lineKey_length_of_isBlankLine hb)
        · exact contentLength_addHeader (by omega) _
  · next hbody => exact absurd (hstate.symm.trans hbody) nofun

/-- The parser is still outside the body when there is no line left. -/
theorem parseFrom_of_notMem {p q : HTTPParser HTTPRequest} (h : p.parseState ≠ .kParseBody)
    {bytes : Bytes} (hbytes : LF ∉ bytes) {i start s : Nat}
    (hparse : p.parseFrom i bytes start = (true, s, q)) : q.parseState ≠ .kParseBody := by
  induction bytes generalizing p i with
  | nil =>
      cases hparse
      exact h
  | cons b bs ih =>
      rw [List.mem_cons, not_or] at hbytes
      rw [parseFrom, addByte_headers h, finishIfLine_of_ne (Ne.symm hbytes.1)] at hparse
      split_ifs at hparse
      · cases hparse
      · exact ih (p := p.store b) h hbytes.2 hparse

/-- The first line of an accepted string that reaches the body. -/
theorem parseFrom_firstLine {p q : HTTPParser HTTPRequest} (h : p.parseState ≠ .kParseBody)
    (hstart : p.curLineLength = 0) {bytes : Bytes} {i start s : Nat}
    (hparse : p.parseFrom i bytes start = (true, s, q)) (hall : q.parseState = .kParseBody) :
    ∃ line rest found q' i' start', bytes = line ++ LF :: rest ∧ LF ∉ line ∧
      line.length < kMaxHeaderLength ∧ (p.lineStored line).finishLine = (true, found, q') ∧
      q'.parseFrom i' rest start' = (true, s, q) := by
  rcases line_cases bytes with hnone | ⟨line, rest, hline, rfl⟩
  · exact absurd hall (parseFrom_of_notMem h hnone hparse)
  · rw [parseFrom_line h hline, hstart, Nat.zero_add, finishIfLine_line hstart] at hparse
    split_ifs at hparse with hlength
    · split at hparse
      · cases hparse
      · next found q' hfinish =>
          exact ⟨line, rest, found, q', _, _, rfl, hline, hlength, hfinish, hparse⟩
    · cases hparse

/-- The content length at the end of the headers, from any line of them on. -/
theorem contentLength_headers {p q : HTTPParser HTTPRequest} (hstate : p.parseState = .kParseHeaders)
    (hstart : p.curLineLength = 0) (hend : p.curLineEndLength = 1 ∨ p.curLineEndLength = 2)
    {bytes : Bytes} {i start s : Nat} (hparse : p.parseFrom i bytes start = (true, s, q))
    (hall : q.parseState = .kParseBody) :
    q.reqOrRes.contentLength = keep p.reqOrRes.contentLength
      (lengthReadings p.curLine ((linesFrom [] bytes).takeWhile (!isBlankLine ·))) := by
  induction hn : bytes.length using Nat.strongRecOn generalizing p bytes i start with
  | _ n ih =>
      obtain ⟨line, rest, found, q', i', start', rfl, hline, hlength, hfinish, hrest⟩ :=
        parseFrom_firstLine (by rw [hstate]; nofun) hstart hparse hall
      rw [linesFrom_line [] hline, List.nil_append]
      rcases finishLine_headers hstate hend hlength hfinish with
        ⟨hblank, hbody, hkept⟩ | ⟨hheader, hstate', hstart', hend', hmem, hset⟩
      · rw [List.takeWhile_cons_of_neg (by simp [hblank])]
        rw [parseFrom_body hbody] at hrest
        cases hrest
        rw [contentLength_appendBytes, hkept]
        rfl
      · have hshorter : rest.length < n := by
          rw [← hn, List.length_append, List.length_cons]
          omega
        rw [List.takeWhile_cons_of_pos (by simp [hheader]),
          ih rest.length hshorter hstate' hstart' hend' hrest rfl, hset, hmem, lengthReadings]
        by_cases hkey : kContentLength <+: lineKey (line ++ [LF])
        · rw [if_pos hkey, keep, keep, List.foldl_cons]
          simp only [hkey, and_true]
        · rw [if_neg hkey, if_neg (fun h => hkey h.2)]

theorem handleFirstLine_lineStored {p q : HTTPParser HTTPRequest}
    (hstate : p.parseState = .kParseFirstLine) (hend : p.curLineEndLength = 2) {line : Bytes}
    {found : Bool} (hfinish : (p.lineStored line).finishLine = (true, found, q)) :
    q.parseState = .kParseHeaders ∧ q.curLineLength = 0 ∧
      (q.curLineEndLength = 1 ∨ q.curLineEndLength = 2) ∧
      q.curLine = overlay p.curLine 0 (line ++ [LF]) ∧
      q.reqOrRes.contentLength = p.reqOrRes.contentLength := by
  have hframe := (p.reqOrRes.handleFirstLine_frame (p.lineStored line).curLine
    (p.lineStored line).curLineLength).2.2
  unfold finishLine at hfinish
  split at hfinish
  · split at hfinish
    · cases hfinish
    · next message hfirst =>
        cases hfinish
        refine ⟨rfl, rfl, ?_, rfl, ?_⟩
        · rw [lineStored]
          dsimp only
          split_ifs
          · exact Or.inr hend
          · exact Or.inl rfl
        · rw [show p.reqOrRes.handleFirstLine _ _ = (true, message) from hfirst] at hframe
          exact hframe
  · next hheaders => exact absurd (hstate.symm.trans hheaders) nofun
  · next hbody => exact absurd (hstate.symm.trans hbody) nofun

/-- The content length of an accepted request is the length that its lines announce. -/
theorem contentLength_parse {mem : Nat → UInt8} {msg : Bytes} {s : Nat}
    {q : HTTPParser HTTPRequest} (hparse : (new HTTPRequest.new mem).parse msg = (true, s, q))
    (hall : q.parseState = .kParseBody) :
    q.reqOrRes.contentLength = (announcedLength mem msg).getD kUnset := by
  obtain ⟨line, rest, found, q', i', start', rfl, hline, _, hfinish, hrest⟩ :=
    parseFrom_firstLine (p := new HTTPRequest.new mem) (fun h => by cases h) rfl hparse hall
  obtain ⟨hstate, hstart, hend, hmem, hset⟩ := handleFirstLine_lineStored rfl rfl hfinish
  rw [contentLength_headers hstate hstart hend hrest hall, hset, hmem, announcedLength,
    linesFrom_line [] hline]
  exact keep_unset _

/-- The parser has the length of the message exactly when the message announces it. -/
theorem announcedLength_eq_some_iff {mem : Nat → UInt8} {msg : Bytes} {s : Nat}
    {q : HTTPParser HTTPRequest} (hparse : (new HTTPRequest.new mem).parse msg = (true, s, q))
    (hall : q.parseState = .kParseBody) (n : Nat) :
    announcedLength mem msg = some n ↔
      q.reqOrRes.contentLength = n ∧ q.reqOrRes.contentLength ≠ kUnset := by
  have hset : ∀ x, announcedLength mem msg = some x → x ≠ kUnset := by
    intro x hx
    unfold announcedLength at hx
    split at hx
    · cases hx
    · have hne := List.find?_some hx
      simpa using hne
  rw [contentLength_parse hparse hall]
  cases hlength : announcedLength mem msg with
  | none => simp
  | some x => simp [hset x hlength]

/-! ### A plain announcement -/

/-- The line fits in the buffer and is `content-length`, a colon and blanks, decimal digits that
denote the number, and the line end. -/
def AnnouncesLine (n : Nat) (line : Bytes) : Prop :=
  line.length ≤ kMaxHeaderLength ∧ lineKey line = kContentLength ∧
    ∃ digits lineEnd, line.drop (valueStart line) = digits ++ lineEnd ∧ digits ≠ [] ∧
      (∀ b ∈ digits, isDigit b = true) ∧ digitsValue digits = n ∧
      (lineEnd = [LF] ∨ lineEnd = [CR, LF])

/-- Only one header line has a key that starts with `content-length`, and that line announces the
number. -/
def AnnouncesOnce (n : Nat) (msg : Bytes) : Prop :=
  ∃ line, (((linesFrom [] msg).drop 1).takeWhile (!isBlankLine ·)).filter
    (fun line => decide (kContentLength <+: lineKey line)) = [line] ∧ AnnouncesLine n line

theorem not_isSpace_of_isDigit {b : UInt8} (h : isDigit b = true) : isSpace b = false := by
  simp only [isDigit, Bool.and_eq_true, decide_eq_true_eq, UInt8.le_iff_toNat_le] at h
  simp only [isSpace, SP, Bool.or_eq_false_iff, beq_eq_false_iff_ne, Bool.and_eq_false_iff,
    decide_eq_false_iff_not, UInt8.le_iff_toNat_le, ne_eq, ← UInt8.toNat_inj]
  simp only [UInt8.reduceToNat] at h ⊢
  omega

/-- `strtol` of digits that something else follows. -/
theorem strtol_digits {digits : Bytes} (hne : digits ≠ []) (hdigits : ∀ b ∈ digits, isDigit b = true)
    {b : UInt8} (hb : isDigit b = false) (rest : Bytes) :
    strtol (digits ++ b :: rest) = min (digitsValue digits : Int) (2 ^ 63 - 1) := by
  obtain ⟨d, ds, rfl⟩ := List.exists_cons_of_ne_nil hne
  have hd : isDigit d = true := hdigits d List.mem_cons_self
  have hminus : d ≠ byteOf '-' := by
    rintro rfl
    exact absurd hd (by decide)
  have hplus : d ≠ byteOf '+' := by
    rintro rfl
    exact absurd hd (by decide)
  have htake : (d :: ds ++ b :: rest).takeWhile isDigit = d :: ds := by
    rw [List.takeWhile_append_of_pos hdigits, List.takeWhile_cons_of_neg (by simp [hb]),
      List.append_nil]
  unfold strtol
  rw [List.cons_append, List.dropWhile_cons_of_neg (by simp [not_isSpace_of_isDigit hd])]
  rw [List.cons_append] at htake
  simp only [List.head?_cons, Option.some_inj, hminus, hplus, or_self, if_false, htake]

theorem lengthReading_of_announcesLine {n : Nat} {line : Bytes} (h : AnnouncesLine n line)
    (mem : Nat → UInt8) : lengthReading (overlay mem 0 line) line =
      sizeOfInt ((min (n : Int) (2 ^ 63 - 1)).bmod (2 ^ 32)) := by
  obtain ⟨hlength, _, digits, lineEnd, hdrop, hne, hdigits, rfl, hend⟩ := h
  have hstart : valueStart line ≤ line.length := by
    by_contra hlong
    rw [List.drop_eq_nil_of_le (by omega)] at hdrop
    exact hne (List.append_eq_nil_iff.mp hdrop.symm).1
  have hsplit : kMaxHeaderLength - valueStart line =
      (line.length - valueStart line) + (kMaxHeaderLength - line.length) := by omega
  obtain ⟨b, rest, hb, hrest⟩ : ∃ b rest, isDigit b = false ∧ lineEnd = b :: rest := by
    rcases hend with rfl | rfl
    · exact ⟨LF, [], by decide, rfl⟩
    · exact ⟨CR, [LF], by decide, rfl⟩
  rw [lengthReading, hsplit, bytesFrom_append, bytesFrom_line mem line hstart, hdrop, hrest, atoi,
    List.append_assoc, List.cons_append, strtol_digits hne hdigits hb]

/-- The number is read as it stands exactly below `2 ^ 31`. -/
theorem reading_eq_iff (n : Nat) :
    (sizeOfInt ((min (n : Int) (2 ^ 63 - 1)).bmod (2 ^ 32)) = n ∧
      sizeOfInt ((min (n : Int) (2 ^ 63 - 1)).bmod (2 ^ 32)) ≠ kUnset) ↔ n < 2 ^ 31 := by
  constructor
  · rintro ⟨hn, hset⟩
    by_contra hlarge
    rcases Nat.lt_or_ge n (2 ^ 63) with hlong | hlong
    · rw [Int.min_eq_left (by omega)] at hn
      have hlow := Int.le_bmod (x := (n : Int)) (m := 2 ^ 32) (by decide)
      have hhigh := Int.bmod_lt (x := (n : Int)) (m := 2 ^ 32) (by decide)
      unfold sizeOfInt at hn
      omega
    · apply hset
      rw [Int.min_eq_right (by omega)]
      decide
  · intro hsmall
    have hread : sizeOfInt ((min (n : Int) (2 ^ 63 - 1)).bmod (2 ^ 32)) = n := by
      rw [Int.min_eq_left (by omega), Int.bmod_eq_of_le (by omega) (by omega), sizeOfInt]
      omega
    rw [hread]
    exact ⟨rfl, by rw [kUnset]; omega⟩

theorem lengthReadings_of_filter_nil {lines : List Bytes}
    (h : lines.filter (fun line => decide (kContentLength <+: lineKey line)) = [])
    (mem : Nat → UInt8) : lengthReadings mem lines = [] := by
  induction lines generalizing mem with
  | nil => rfl
  | cons l ls ih =>
      rw [List.filter_eq_nil_iff] at h ih
      have hl : ¬kContentLength <+: lineKey l := by
        simpa using h l List.mem_cons_self
      rw [lengthReadings, if_neg hl]
      exact ih (fun a ha => h a (List.mem_cons_of_mem l ha)) _

/-- With only one header line that counts, that line decides. -/
theorem lengthReadings_of_filter {line : Bytes} {lines : List Bytes}
    (h : lines.filter (fun line => decide (kContentLength <+: lineKey line)) = [line])
    (mem : Nat → UInt8) :
    ∃ mem', lengthReadings mem lines = [lengthReading (overlay mem' 0 line) line] := by
  induction lines generalizing mem with
  | nil => cases h
  | cons l ls ih =>
      rw [lengthReadings]
      by_cases hl : kContentLength <+: lineKey l
      · rw [List.filter_cons, if_pos (decide_eq_true hl)] at h
        obtain ⟨rfl, hnil⟩ := List.cons.inj h
        rw [if_pos hl, lengthReadings_of_filter_nil hnil]
        exact ⟨mem, rfl⟩
      · rw [List.filter_cons, if_neg (by simpa using hl)] at h
        rw [if_neg hl]
        exact ih h _

/-- A message with one plain announcement announces the number exactly below `2 ^ 31`. -/
theorem announcedLength_iff_of_once {n : Nat} {msg : Bytes} (h : AnnouncesOnce n msg)
    (mem : Nat → UInt8) : announcedLength mem msg = some n ↔ n < 2 ^ 31 := by
  obtain ⟨line, hfilter, hline⟩ := h
  unfold announcedLength
  cases hlines : linesFrom [] msg with
  | nil =>
      rw [hlines] at hfilter
      cases hfilter
  | cons first lines =>
      rw [hlines, List.drop_one, List.tail_cons] at hfilter
      obtain ⟨mem', hreadings⟩ := lengthReadings_of_filter hfilter (overlay mem 0 first)
      have hreading := lengthReading_of_announcesLine hline mem'
      rw [← reading_eq_iff, ← hreading]
      dsimp only
      rw [hreadings]
      by_cases hset : lengthReading (overlay mem' 0 line) line = kUnset
      · simp [hset]
      · simp [hset]

end HTTPParser

end Iomgr
