import Iomgr.HTTPLineLocal
import Iomgr.HTTPReadBounds

/-!
Messages that are read off their own bytes. A parser reads behind a line in two places: behind a first
line with fewer than three bytes left where the version is read, and behind a header line that
announces the content length with a value of white space, for the number. In a message without these
lines no line is read beyond its end, and it is read in the same way whatever the line buffer held.
-/

namespace Iomgr

/-! ### Numbers with something behind -/

theorem takeWhile_append_of_mem {p : UInt8 → Bool} {v : Bytes} (h : ∃ b ∈ v, p b = false)
    (behind : Bytes) : (v ++ behind).takeWhile p = v.takeWhile p := by
  rw [List.takeWhile_append, if_neg]
  intro hlength
  obtain ⟨b, hb, hp⟩ := h
  have hall := List.takeWhile_eq_self_iff.mp ((List.takeWhile_prefix p).eq_of_length hlength)
  exact absurd (hall b hb) (by simp [hp])

theorem dropWhile_append_of_mem {p : UInt8 → Bool} {v : Bytes} (h : ∃ b ∈ v, p b = false)
    (behind : Bytes) : (v ++ behind).dropWhile p = v.dropWhile p ++ behind := by
  rw [List.dropWhile_append, if_neg]
  intro hempty
  obtain ⟨b, hb, hp⟩ := h
  have hall := List.dropWhile_eq_nil_iff.mp (List.isEmpty_iff.mp hempty)
  exact absurd (hall b hb) (by simp [hp])

/-- `strtol` of a line that is not all white space does not read behind the LF. -/
theorem strtol_append {v : Bytes} (h : ∃ b ∈ v, isSpace b = false) (hend : v.getLast? = some LF)
    (behind : Bytes) : strtol (v ++ behind) = strtol v := by
  have hne : v.dropWhile isSpace ≠ [] := by
    intro hnil
    obtain ⟨b, hb, hspace⟩ := h
    exact absurd (List.dropWhile_eq_nil_iff.mp hnil b hb) (by simp [hspace])
  obtain ⟨x, u, hxu⟩ := List.exists_cons_of_ne_nil hne
  have hx : isSpace x = false := by
    have hhead := List.head?_dropWhile_not isSpace v
    rw [hxu] at hhead
    simpa using hhead
  have hlast : LF ∈ u := by
    rw [← List.takeWhile_append_dropWhile (p := isSpace) (l := v), hxu,
      List.getLast?_append_of_ne_nil _ (List.cons_ne_nil x u)] at hend
    rcases List.mem_cons.mp (List.mem_of_getLast? hend) with rfl | hmem
    · exact absurd hx (by decide)
    · exact hmem
  have hdigits : (u ++ behind).takeWhile isDigit = u.takeWhile isDigit :=
    takeWhile_append_of_mem ⟨LF, hlast, by decide⟩ behind
  unfold strtol
  rw [dropWhile_append_of_mem h, hxu]
  simp only [List.cons_append, List.head?_cons, List.drop_succ_cons, List.drop_zero,
    List.takeWhile_cons, hdigits, apply_ite (List.takeWhile isDigit)]

namespace HTTPParser

/-! ### Header lines -/

/-- The number in the value of the header line. -/
def lengthIn (line : Bytes) : Nat := sizeOfInt (atoi (line.drop (valueStart line)))

theorem toBytes_lineSlice {line : Bytes} {pos size : Nat} (h : pos + size ≤ line.length)
    (behind : Bytes) : (lineSlice line behind pos size).toBytes = (line.drop pos).take size := by
  have hsize : size ≤ (line.drop pos).length := by
    rw [List.length_drop]
    omega
  rw [Slice.toBytes, lineSlice, List.take_append_of_le_length hsize]

theorem toBytes_lineSlice_key (line behind : Bytes) :
    (lineSlice line behind 0 (lineKey line).length).toBytes = lineKey line := by
  have hle := lineKey_length_le line
  rw [toBytes_lineSlice (by omega), List.drop_zero]
  exact (List.prefix_iff_eq_take.mp (List.takeWhile_prefix _)).symm

/-- A header line in a request: only the number can come from behind the line. -/
theorem addLine_request (r : HTTPRequest) {line : Bytes}
    (hcolon : (lineKey line).length ≠ line.length) (behind : Bytes) (endLength : Nat) :
    addLine r line behind endLength = { r with
      contentLength :=
        if r.contentLength = kUnset ∧ kContentLength <+: lineKey line then
          sizeOfInt (atoi (line.drop (valueStart line) ++ behind))
        else r.contentLength
      headers := r.headers ++ [⟨lineKey line,
        (line.drop (valueStart line)).take (line.length - valueStart line - endLength)⟩] } := by
  have hvalue := valueStart_le hcolon
  show HTTPRequest.addHeader r _ _ = _
  rw [HTTPRequest.addHeader, HTTPRequest.announced, toBytes_lineSlice_key,
    toBytes_lineSlice (by omega)]
  simp only [matchLength_eq_length_iff]
  rfl

theorem addLine_response (r : HTTPResponse) {line : Bytes}
    (hcolon : (lineKey line).length ≠ line.length) (behind : Bytes) (endLength : Nat) :
    addLine r line behind endLength = { r with
      headers := r.headers ++ [⟨lineKey line,
        (line.drop (valueStart line)).take (line.length - valueStart line - endLength)⟩] } := by
  have hvalue := valueStart_le hcolon
  show HTTPResponse.addHeader r _ _ = _
  rw [HTTPResponse.addHeader, toBytes_lineSlice_key, toBytes_lineSlice (by omega)]

/-- The number of a value with a byte that is not white space is its own. -/
theorem lengthIn_eq {line : Bytes} (h : HasNumber line) (hend : line.getLast? = some LF)
    (behind : Bytes) :
    sizeOfInt (atoi (line.drop (valueStart line) ++ behind)) = lengthIn line := by
  have hlast : (line.drop (valueStart line)).getLast? = some LF := by
    obtain ⟨b, hb, _⟩ := h
    have hshort : ¬line.length ≤ valueStart line := by
      intro hle
      rw [List.drop_eq_nil_of_le hle] at hb
      cases hb
    rw [List.getLast?_drop, if_neg hshort, hend]
  rw [lengthIn, atoi, atoi, strtol_append h hlast]

/-- A header line of a request is added in the same way whatever lies behind it, unless it announces
the length first and has a value of white space. -/
theorem addLine_request_eq (r : HTTPRequest) {line : Bytes}
    (hcolon : (lineKey line).length ≠ line.length) (hend : line.getLast? = some LF)
    (hnumber : r.contentLength = kUnset ∧ kContentLength <+: lineKey line → HasNumber line)
    (behind : Bytes) (endLength : Nat) :
    addLine r line behind endLength = addLine r line [] endLength := by
  rw [addLine_request r hcolon, addLine_request r hcolon]
  by_cases hcounts : r.contentLength = kUnset ∧ kContentLength <+: lineKey line
  · rw [if_pos hcounts, if_pos hcounts, lengthIn_eq (hnumber hcounts) hend,
      lengthIn_eq (hnumber hcounts) hend]
  · rw [if_neg hcounts, if_neg hcounts]

/-- A message whose lines are read within their ends under conditions on the lines alone: on what is
left of the text of a first line where the version is read, and on each header line. -/
class StandsAlone (T : Type) {First : outParam Type} [HTTPMessage T] [HTTPFields T First]
    [ScannedFirstLine T First] extends TracedMessage T where
  beforeVersion : Bytes → Option Bytes
  HeaderStandsAlone : T → Bytes → Prop
  readsIn_handleFirstLine : ∀ (message : T) {mem : Nat → UInt8} {endPos : Nat} {text : Bytes}
    {ending : LineEnd}, Remaining mem endPos 0 (text ++ ending.bytes) →
    (Reading.ReadsIn mem (Set.Iio endPos) (handleFirstLine message endPos) ↔
      ∀ left, beforeVersion text = some left → 3 ≤ left.length + ending.bytes.length)
  readsIn_addHeader : ∀ (message : T) {mem : Nat → UInt8} {line : Bytes},
    Remaining mem line.length 0 line → line.length ≤ kMaxHeaderLength →
    valueStart line < line.length → mem (line.length - 1) = LF → ∀ endLength : Nat,
    (Reading.ReadsIn mem (Set.Iio line.length)
        (addHeader message (Traced.keySpan line) (Traced.valueSpan line endLength)) ↔
      HeaderStandsAlone message line)
  addLine_eq : ∀ (message : T) {line : Bytes}, (lineKey line).length ≠ line.length →
    line.getLast? = some LF → HeaderStandsAlone message line → ∀ (behind : Bytes) (endLength : Nat),
    addLine message line behind endLength = addLine message line [] endLength
  beforeVersion_of_cut : ∀ {text : Bytes}, ScannedFirstLine.Cut T text →
    ∃ major, beforeVersion text = some [major]

instance : StandsAlone HTTPRequest where
  beforeVersion := HTTPRequest.beforeVersion
  HeaderStandsAlone r line :=
    r.contentLength = kUnset ∧ kContentLength <+: lineKey line → HasNumber line
  readsIn_handleFirstLine r _ _ _ _ := Traced.readsIn_handleRequestLine r
  readsIn_addHeader r _ _ := Traced.readsIn_addRequestHeader r
  addLine_eq r _ := addLine_request_eq r
  beforeVersion_of_cut := by
    rintro text ⟨method, m, uri, w, hm, huri, rfl, major, hspells, -⟩
    exact ⟨major, HTTPRequest.beforeVersion_eq_some_iff.mpr
      ⟨method, m, uri, w, hm, huri, rfl, hspells⟩⟩

instance : StandsAlone HTTPResponse where
  beforeVersion := expectProtocol
  HeaderStandsAlone _ _ := True
  readsIn_handleFirstLine r _ _ _ _ := Traced.readsIn_handleStatusLine r
  readsIn_addHeader r _ _ _ _ hvalue _ endLength :=
    iff_true_intro (Traced.readsIn_addResponseHeader r hvalue endLength)
  addLine_eq r line hcolon _ _ behind endLength := by
    rw [addLine_response r hcolon, addLine_response r hcolon]
  beforeVersion_of_cut := by
    rintro text ⟨major, hspells, -⟩
    exact ⟨major, foldlM_expect_eq_some_iff.mpr hspells⟩

/-! ### The header lines of a message -/

/-- The end of a line that is complete. -/
def endOf (line : Bytes) : LineEnd := if line.dropLast.getLast? = some CR then .crlf else .lf

/-- The text of a line that is complete. -/
def textOf (line : Bytes) : Bytes := line.take (line.length - (endOf line).bytes.length)

theorem textOf_append_endOf (text : Bytes) :
    textOf (text ++ [LF]) ++ (endOf (text ++ [LF])).bytes = text ++ [LF] := by
  rcases List.eq_nil_or_concat' text with rfl | ⟨init, c, rfl⟩
  · rfl
  · by_cases hc : c = CR
    · subst hc
      have hend : endOf (init ++ [CR] ++ [LF]) = .crlf := by
        rw [endOf, List.dropLast_concat, List.getLast?_concat, if_pos rfl]
      have htext : textOf (init ++ [CR] ++ [LF]) = init := by
        rw [textOf, hend, List.append_assoc, List.length_append]
        simp [LineEnd.bytes]
      rw [htext, hend, List.append_assoc]
      rfl
    · have hend : endOf (init ++ [c] ++ [LF]) = .lf := by
        rw [endOf, List.dropLast_concat, List.getLast?_concat, if_neg (by simpa using hc)]
      have htext : textOf (init ++ [c] ++ [LF]) = init ++ [c] := by
        rw [textOf, hend, List.length_append]
        exact List.take_left' rfl
      rw [htext, hend]
      rfl

/-- A line that the parser takes for a header. -/
def isHeaderLine (line : Bytes) : Bool :=
  decide (line.length ≤ kMaxHeaderLength) && !line.head?.any isBlank && decide (byteOf ':' ∈ line)

/-- Each line that announces the length, as long as none is announced, has a number of its own. -/
def LengthsStandAlone : Nat → List Bytes → Prop
  | _, [] => True
  | contentLength, line :: lines =>
      if contentLength = kUnset ∧ kContentLength <+: lineKey line then
        HasNumber line ∧ LengthsStandAlone (lengthIn line) lines
      else LengthsStandAlone contentLength lines

theorem lineKey_length_eq_iff {line : Bytes} :
    (lineKey line).length = line.length ↔ byteOf ':' ∉ line := by
  constructor
  · intro hlength hmem
    have hself := (List.takeWhile_prefix (· != byteOf ':')).eq_of_length hlength
    have hall := List.takeWhile_eq_self_iff.mp hself
    exact absurd (hall _ hmem) (by simp)
  · intro hmem
    rw [lineKey_of_notMem hmem]

theorem linesFrom_of_notMem (cur : Bytes) {bytes : Bytes} (h : LF ∉ bytes) :
    linesFrom cur bytes = [] := by
  induction bytes generalizing cur with
  | nil => rfl
  | cons b bytes ih =>
      rw [List.mem_cons, not_or] at h
      rw [linesFrom, if_neg (Ne.symm h.1), ih _ h.2]

theorem isHeaderLine_iff {line : Bytes} : isHeaderLine line = true ↔
    line.length ≤ kMaxHeaderLength ∧ line.head?.any isBlank = false ∧ byteOf ':' ∈ line := by
  simp only [isHeaderLine, Bool.and_eq_true, decide_eq_true_eq, Bool.not_eq_true', and_assoc]

theorem lineKey_ne_of_isHeaderLine {line : Bytes} (h : isHeaderLine line = true) :
    (lineKey line).length ≠ line.length := by
  rw [Ne, lineKey_length_eq_iff, not_not]
  exact (isHeaderLine_iff.mp h).2.2

section

variable {T : Type}

theorem curLineLength_lineStored (p : HTTPParser T) (text : Bytes) :
    (p.lineStored text).curLineLength = (text ++ [LF]).length := by
  rw [List.length_append, List.length_singleton]
  rfl

theorem line_lineStored (p : HTTPParser T) (text : Bytes) :
    (p.lineStored text).line = text ++ [LF] := by
  rw [line, curLineLength_lineStored]
  exact bytesFrom_overlay _ _ _

theorem remaining_lineStored (p : HTTPParser T) (text : Bytes) :
    Remaining (p.lineStored text).curLine (text ++ [LF]).length 0 (text ++ [LF]) :=
  Remaining.whole p.curLine (text ++ [LF])

theorem remaining_textOf (p : HTTPParser T) (text : Bytes) :
    Remaining (p.lineStored text).curLine (text ++ [LF]).length 0
      (textOf (text ++ [LF]) ++ (endOf (text ++ [LF])).bytes) := by
  rw [textOf_append_endOf]
  exact p.remaining_lineStored text

theorem last_lineStored (p : HTTPParser T) (text : Bytes) :
    (p.lineStored text).curLine ((text ++ [LF]).length - 1) = LF := by
  have hlast := overlay_last p.curLine 0 text LF
  rw [Nat.zero_add] at hlast
  rw [List.length_append, List.length_singleton, Nat.add_sub_cancel]
  exact hlast

theorem first_lineStored (p : HTTPParser T) (text : Bytes) :
    isBlank ((p.lineStored text).curLine 0) = (text ++ [LF]).head?.any isBlank := by
  have hline := p.remaining_lineStored text
  cases hbytes : text ++ [LF] with
  | nil => exact absurd hbytes (by simp)
  | cons b rest =>
      rw [hbytes] at hline
      rw [hline.head]
      rfl

theorem curLineEndLength_lineStored (p : HTTPParser T) (text : Bytes) :
    (p.lineStored text).curLineEndLength =
      if endOf (text ++ [LF]) = .crlf then p.curLineEndLength else 1 := by
  rw [endOf, List.dropLast_concat, lineStored]
  by_cases hcr : text.getLast? = some CR
  · simp [hcr]
  · simp [hcr]

/-- A line as long as its end has no colon. -/
theorem lineStored_ne_of_colon {p : HTTPParser T}
    (hend : p.curLineEndLength = 1 ∨ p.curLineEndLength = 2) {text : Bytes}
    (hcolon : byteOf ':' ∈ text ++ [LF]) :
    (p.lineStored text).curLineLength ≠ (p.lineStored text).curLineEndLength := by
  intro heq
  have hempty := lineKey_length_of_isBlankLine (isBlankLine_of_length hend heq)
  exact lineKey_length_eq_iff.mp hempty hcolon

variable [HTTPMessage T]

/-- A line that is no header ends the headers, or ends the parse. -/
theorem finishedLines_no_header {p : HTTPParser T} (hstate : p.parseState = .kParseHeaders)
    {text : Bytes} (hfits : text.length < kMaxHeaderLength)
    (h : isHeaderLine (text ++ [LF]) = false) (bytes : Bytes) :
    (match (p.lineStored text).finishLine with
    | (false, _, _) => []
    | (true, _, q) => q.finishedLines bytes) = [] := by
  have hstored : (p.lineStored text).parseState = .kParseHeaders := hstate
  have hlength : (p.lineStored text).curLineLength = text.length + 1 := rfl
  have hadd := addHeader_eq_addLine (p := p.lineStored text) (by omega) (by omega)
  rw [line_lineStored, if_pos] at hadd
  · rw [finishLine, hstored]
    dsimp only
    split_ifs
    · exact finishedLines_body rfl _
    · rw [hadd]
  · have hle : (text ++ [LF]).length ≤ kMaxHeaderLength := by
      rw [List.length_append, List.length_singleton]
      omega
    rw [lineKey_length_eq_iff]
    by_contra hnot
    rw [not_or, not_not, Bool.not_eq_true] at hnot
    rw [isHeaderLine_iff.mpr ⟨hle, hnot⟩] at h
    cases h

/-- A line that is a header is added, and leads to the next line. -/
theorem finishLine_header {p : HTTPParser T} (hstate : p.parseState = .kParseHeaders)
    (hend : p.curLineEndLength = 1 ∨ p.curLineEndLength = 2) {text : Bytes}
    (h : isHeaderLine (text ++ [LF]) = true) :
    ∃ behind q, (p.lineStored text).finishLine = (true, false, q) ∧
      q.parseState = .kParseHeaders ∧ q.curLineLength = 0 ∧
      (q.curLineEndLength = 1 ∨ q.curLineEndLength = 2) ∧
      q.curLineEndLength = (if endOf (text ++ [LF]) = .crlf then p.curLineEndLength else 1) ∧
      q.reqOrRes = addLine p.reqOrRes (text ++ [LF]) behind
        (if endOf (text ++ [LF]) = .crlf then p.curLineEndLength else 1) := by
  rw [← curLineEndLength_lineStored]
  have hstored : (p.lineStored text).parseState = .kParseHeaders := hstate
  have hlength := p.curLineLength_lineStored text
  obtain ⟨hfits, hblank, hcolon⟩ := isHeaderLine_iff.mp h
  have hne := lineStored_ne_of_colon hend hcolon
  have hpos : 0 < (text ++ [LF]).length := by simp
  have hadd := addHeader_eq_addLine (p := p.lineStored text) (by omega) (by omega)
  rw [line_lineStored, if_neg] at hadd
  · refine ⟨bytesFrom (p.lineStored text).curLine
        (kMaxHeaderLength - (p.lineStored text).curLineLength) (p.lineStored text).curLineLength,
      { (p.lineStored text).addHeader.2 with curLineLength := 0 }, ?_, ?_, rfl, ?_, ?_, ?_⟩
    · rw [finishLine, hstored]
      dsimp only
      rw [if_neg hne, hadd]
    · rw [hadd]
      exact hstored
    · rw [hadd]
      show (p.lineStored text).curLineEndLength = 1 ∨ (p.lineStored text).curLineEndLength = 2
      rw [lineStored]
      dsimp only
      split_ifs
      · exact hend
      · exact Or.inl rfl
    · rw [hadd]
    · rw [hadd]
      rfl
  · rw [lineKey_length_eq_iff, hblank]
    simp [hcolon]

/-- The run over a line, and over what follows it. -/
theorem allWithin_line_iff [TracedMessage T] {p : HTTPParser T} (h : p.parseState ≠ .kParseBody)
    (hstart : p.curLineLength = 0) {text : Bytes} (htext : LF ∉ text)
    (hfits : text.length < kMaxHeaderLength) (bytes : Bytes) :
    p.AllWithin (text ++ LF :: bytes) ↔ (p.lineStored text).ReadsWithin ∧
      ∀ q ∈ (match (p.lineStored text).finishLine with
        | (false, _, _) => []
        | (true, _, q) => q.finishedLines bytes), q.ReadsWithin := by
  rw [AllWithin, finishedLines_line h hstart htext hfits]
  exact List.forall_mem_cons

theorem readsWithin_iff [TracedMessage T] {p : HTTPParser T}
    (hfits : p.curLineLength ≤ kMaxHeaderLength) : p.ReadsWithin ↔
      Reading.ReadsIn p.curLine (Set.Iio p.curLineLength) (Traced.finishLine p) := by
  have hset : {i | i < p.curLineLength ∧ i < kMaxHeaderLength} = Set.Iio p.curLineLength := by
    ext i
    exact and_iff_left_of_imp fun hi => Nat.lt_of_lt_of_le hi hfits
  rw [ReadsWithin, hset]

end

section

variable {T First : Type} [HTTPMessage T] [HTTPFields T First] [ScannedFirstLine T First]
  [StandsAlone T]

/-- A line of the headers is read within its end exactly when it is no header or stands alone. -/
theorem readsWithin_headers_iff {p : HTTPParser T} (hstate : p.parseState = .kParseHeaders)
    (hend : p.curLineEndLength = 1 ∨ p.curLineEndLength = 2) {text : Bytes}
    (hfits : text.length < kMaxHeaderLength) : (p.lineStored text).ReadsWithin ↔
      (isHeaderLine (text ++ [LF]) = true →
        StandsAlone.HeaderStandsAlone p.reqOrRes (text ++ [LF])) := by
  have hstored : (p.lineStored text).parseState = .kParseHeaders := hstate
  have hlength := p.curLineLength_lineStored text
  have hle : (text ++ [LF]).length ≤ kMaxHeaderLength := by
    rw [List.length_append, List.length_singleton]
    omega
  have hline := p.remaining_lineStored text
  have hlast := p.last_lineStored text
  rw [readsWithin_iff (hlength ▸ hle), Traced.finishLine, hstored]
  dsimp only
  by_cases hblank : (p.lineStored text).curLineLength = (p.lineStored text).curLineEndLength
  · rw [if_pos hblank]
    refine iff_of_true (Reading.readsIn_pure _) fun hheader => ?_
    exact absurd hblank (lineStored_ne_of_colon hend (isHeaderLine_iff.mp hheader).2.2)
  · rw [if_neg hblank, hlength, Traced.readsIn_addHeader _ hline (by simp), first_lineStored]
    have hcolon : (lineKey (text ++ [LF])).length < (text ++ [LF]).length ↔
        byteOf ':' ∈ text ++ [LF] := by
      rw [← not_iff_comm.mpr lineKey_length_eq_iff.symm]
      have hkey := lineKey_length_le (text ++ [LF])
      omega
    rw [hcolon, isHeaderLine_iff, and_iff_right hle, and_imp]
    refine imp_congr_right fun _ => imp_congr_right fun hmem => ?_
    exact StandsAlone.readsIn_addHeader p.reqOrRes hline hle
      (Traced.valueStart_lt hline hlast (hcolon.mpr hmem)) hlast _

/-- Each header line stands alone. -/
def HeadersStandAlone (message : T) (endLength : Nat) : List Bytes → Prop
  | [] => True
  | line :: lines =>
      let endLength := if endOf line = .crlf then endLength else 1
      StandsAlone.HeaderStandsAlone message line ∧
      HeadersStandAlone (addLine message line [] endLength) endLength lines

/-- The run over the header lines, line by line. -/
theorem allWithin_headers_iff {p : HTTPParser T} (hstate : p.parseState = .kParseHeaders)
    (hstart : p.curLineLength = 0) (hend : p.curLineEndLength = 1 ∨ p.curLineEndLength = 2)
    (bytes : Bytes) : p.AllWithin bytes ↔ HeadersStandAlone p.reqOrRes p.curLineEndLength
      ((linesFrom [] bytes).takeWhile isHeaderLine) := by
  induction hn : bytes.length using Nat.strongRecOn generalizing p bytes with
  | _ n ih =>
      have hbody : p.parseState ≠ .kParseBody := by
        rw [hstate]
        exact ParseState.noConfusion
      rcases line_cases bytes with hnone | ⟨text, rest, htext, rfl⟩
      · rw [AllWithin, finishedLines_of_notMem hbody hnone, linesFrom_of_notMem [] hnone]
        exact iff_of_true nofun trivial
      · rw [linesFrom_line [] htext, List.nil_append]
        by_cases hfits : text.length < kMaxHeaderLength
        · rw [allWithin_line_iff hbody hstart htext hfits, readsWithin_headers_iff hstate hend hfits]
          cases hheader : isHeaderLine (text ++ [LF]) with
          | false =>
              rw [finishedLines_no_header hstate hfits hheader rest,
                List.takeWhile_cons_of_neg (by simp [hheader])]
              exact iff_of_true ⟨nofun, nofun⟩ trivial
          | true =>
              obtain ⟨behind, q, hfinish, hstate', hstart', hend', hendLength, hmessage⟩ :=
                finishLine_header hstate hend hheader
              have hshorter : rest.length < n := by
                rw [← hn, List.length_append, List.length_cons]
                omega
              have hrest := ih rest.length hshorter hstate' hstart' hend' rest rfl
              rw [imp_iff_right rfl, hfinish, List.takeWhile_cons_of_pos hheader, HeadersStandAlone]
              dsimp only
              rw [← AllWithin, hrest, hmessage, hendLength]
              refine and_congr_right fun halone => ?_
              rw [StandsAlone.addLine_eq p.reqOrRes (lineKey_ne_of_isHeaderLine hheader)
                List.getLast?_concat halone]
        · have hlong : isHeaderLine (text ++ [LF]) = false := by
            have hnot : ¬(text ++ [LF]).length ≤ kMaxHeaderLength := by
              rw [List.length_append, List.length_singleton]
              omega
            rw [isHeaderLine, decide_eq_false hnot]
            rfl
          rw [AllWithin, finishedLines_long hbody hstart htext (by omega),
            List.takeWhile_cons_of_neg (by simp [hlong])]
          exact iff_of_true nofun trivial

end

/-- The header lines of a request stand alone exactly when the lengths do. -/
theorem headersStandAlone_request_iff (r : HTTPRequest) (endLength : Nat) {lines : List Bytes}
    (hlines : ∀ line ∈ lines, isHeaderLine line = true) :
    HeadersStandAlone r endLength lines ↔ LengthsStandAlone r.contentLength lines := by
  induction lines generalizing r endLength with
  | nil => exact Iff.rfl
  | cons line lines ih =>
      have hcolon := lineKey_ne_of_isHeaderLine (hlines line List.mem_cons_self)
      have hrest : ∀ line ∈ lines, isHeaderLine line = true :=
        fun line hline => hlines line (List.mem_cons_of_mem _ hline)
      have halone : StandsAlone.HeaderStandsAlone r line ↔
          (r.contentLength = kUnset ∧ kContentLength <+: lineKey line → HasNumber line) := Iff.rfl
      rw [HeadersStandAlone, LengthsStandAlone, halone, ih _ _ hrest, addLine_request r hcolon]
      by_cases hcounts : r.contentLength = kUnset ∧ kContentLength <+: lineKey line
      · rw [if_pos hcounts, if_pos hcounts, List.append_nil, ← lengthIn]
        exact and_congr_left fun _ => ⟨fun h => h hcounts, fun h _ => h⟩
      · rw [if_neg hcounts, if_neg hcounts]
        exact and_iff_right fun h => absurd h hcounts

/-- The header lines of a response always do. -/
theorem headersStandAlone_response (r : HTTPResponse) (endLength : Nat) (lines : List Bytes) :
    HeadersStandAlone r endLength lines := by
  induction lines generalizing r endLength with
  | nil => trivial
  | cons line lines ih => exact ⟨trivial, ih _ _⟩

/-! ### The first line -/

section

variable {T First : Type} [HTTPMessage T] [HTTPFields T First] [ScannedFirstLine T First]
  [StandsAlone T]

variable (T) in
/-- Where the version is read in the first line, three bytes of the line are left, its end
included. -/
def VersionInside (line : Bytes) : Prop :=
  ∀ left, StandsAlone.beforeVersion T (textOf line) = some left →
    3 ≤ left.length + (endOf line).bytes.length

theorem not_cut_of_versionInside {line : Bytes} (h : VersionInside T line) (hend : endOf line = .lf) :
    ¬ScannedFirstLine.Cut T (textOf line) := by
  intro hcut
  obtain ⟨major, hmajor⟩ := StandsAlone.beforeVersion_of_cut hcut
  have hlength := h [major] hmajor
  rw [hend, List.length_singleton] at hlength
  exact absurd hlength (by decide)

/-- A first line that fits in the buffer is read within its end exactly when its version is. -/
theorem readsWithin_first_iff (mem : Nat → UInt8) {text : Bytes}
    (hfits : text.length < kMaxHeaderLength) :
    ((new (ScannedFirstLine.fresh : T) mem).lineStored text).ReadsWithin ↔
      VersionInside T (text ++ [LF]) := by
  have hlength := (new (ScannedFirstLine.fresh : T) mem).curLineLength_lineStored text
  have hle : (text ++ [LF]).length ≤ kMaxHeaderLength := by
    rw [List.length_append, List.length_singleton]
    omega
  have hstate : ((new (ScannedFirstLine.fresh : T) mem).lineStored text).parseState =
      .kParseFirstLine := rfl
  rw [readsWithin_iff (hlength ▸ hle), Traced.finishLine, hstate, hlength]
  exact StandsAlone.readsIn_handleFirstLine _ (remaining_textOf (new _ mem) text)

/-- What is read of a first line within its end is a matter of its text. -/
theorem handleFirstLine_versionInside (mem : Nat → UInt8) {text : Bytes}
    (h : VersionInside T (text ++ [LF])) :
    HTTPMessage.handleFirstLine (ScannedFirstLine.fresh : T)
        ((new (ScannedFirstLine.fresh : T) mem).lineStored text).curLine
        ((new (ScannedFirstLine.fresh : T) mem).lineStored text).curLineLength =
      ScannedFirstLine.readFirstLine ScannedFirstLine.fresh [] (textOf (text ++ [LF])) := by
  rw [curLineLength_lineStored,
    ScannedFirstLine.handleFirstLine_eq _ (remaining_textOf (new _ mem) text)]
  exact ScannedFirstLine.read_behindEnd (not_cut_of_versionInside h) _ _ _

/-! ### The message -/

variable (T) in
/-- What a fresh parser makes of the message is the same for every content of its line buffer, and no
line that it finishes is read beyond its end, nor beyond the end of the buffer. -/
def BufferIndependent (msg : Bytes) : Prop :=
  (∀ mem mem', ((new (ScannedFirstLine.fresh : T) mem).parse msg).1 =
      ((new (ScannedFirstLine.fresh : T) mem').parse msg).1 ∧
    ((new (ScannedFirstLine.fresh : T) mem).parse msg).2.2.reqOrRes =
      ((new (ScannedFirstLine.fresh : T) mem').parse msg).2.2.reqOrRes) ∧
  ∀ mem, (new (ScannedFirstLine.fresh : T) mem).AllWithin msg

/-- A parser that reads no line beyond its end makes the same of a message as any other. -/
theorem bufferIndependent_iff {msg : Bytes} : BufferIndependent T msg ↔
    ∀ mem, (new (ScannedFirstLine.fresh : T) mem).AllWithin msg := by
  refine ⟨And.right, fun hwithin => ⟨fun mem mem' => ?_, hwithin⟩⟩
  have hagrees : (new (ScannedFirstLine.fresh : T) mem).Agrees mem' :=
    fun i hi => absurd hi (Nat.not_lt_zero i)
  obtain ⟨mem'', hparse⟩ := parseFrom_withBuffer (hwithin mem) hagrees 0 0
  have hparse' : (new (ScannedFirstLine.fresh : T) mem').parse msg = _ := hparse
  rw [hparse']
  exact ⟨rfl, rfl⟩

/-- The version of a first line that fits in the buffer is read within it, and where the first line is
taken the rest holds of the other lines. -/
def FirstLineStandsAlone (T : Type) {First : Type} [HTTPMessage T] [HTTPFields T First]
    [ScannedFirstLine T First] [StandsAlone T] (msg : Bytes) (others : List Bytes → Prop) : Prop :=
  match linesFrom [] msg with
  | [] => True
  | line :: lines =>
      line.length ≤ kMaxHeaderLength →
        VersionInside T line ∧ (ScannedFirstLine.Takes T (textOf line) → others lines)

/-- The lines of a run are read within their ends when the first line is, and the header lines
are. -/
theorem allWithin_iff (others : List Bytes → Prop)
    (hothers : ∀ (mem : Nat → UInt8) (n endLength : Nat) (lines : List Bytes),
      HeadersStandAlone (HTTPMessage.handleFirstLine (ScannedFirstLine.fresh : T) mem n).2 endLength
        (lines.takeWhile isHeaderLine) ↔ others lines) (mem : Nat → UInt8) (msg : Bytes) :
    (new (ScannedFirstLine.fresh : T) mem).AllWithin msg ↔ FirstLineStandsAlone T msg others := by
  have hbody : (new (ScannedFirstLine.fresh : T) mem).parseState ≠ .kParseBody :=
    ParseState.noConfusion
  rcases line_cases msg with hnone | ⟨text, rest, htext, rfl⟩
  · rw [AllWithin, finishedLines_of_notMem hbody hnone, FirstLineStandsAlone,
      linesFrom_of_notMem [] hnone]
    exact iff_of_true nofun trivial
  · rw [FirstLineStandsAlone, linesFrom_line [] htext, List.nil_append]
    dsimp only
    have hlength : (text ++ [LF]).length = text.length + 1 := by simp
    by_cases hfits : text.length < kMaxHeaderLength
    · have hle : (text ++ [LF]).length ≤ kMaxHeaderLength := by omega
      rw [allWithin_line_iff hbody rfl htext hfits, readsWithin_first_iff mem hfits,
        imp_iff_right hle]
      refine and_congr_right fun hinside => ?_
      have hhandle := handleFirstLine_versionInside mem hinside
      have htakes := ScannedFirstLine.takes_iff (ScannedFirstLine.fresh : T) (textOf (text ++ [LF]))
      cases hread : ScannedFirstLine.readFirstLine (ScannedFirstLine.fresh : T) []
          (textOf (text ++ [LF])) with
      | mk verdict message =>
          rw [hread] at htakes
          cases verdict with
          | false =>
              rw [finishLine_of_first_false rfl (hhandle.trans hread)]
              exact iff_of_true nofun fun h => absurd (htakes.mpr h) Bool.false_ne_true
          | true =>
              rw [finishLine_of_first_true rfl (hhandle.trans hread), imp_iff_right (htakes.mp rfl)]
              dsimp only
              have hrest := hothers ((new (ScannedFirstLine.fresh : T) mem).lineStored text).curLine
                ((new (ScannedFirstLine.fresh : T) mem).lineStored text).curLineLength
                ((new (ScannedFirstLine.fresh : T) mem).lineStored text).curLineEndLength
                (linesFrom [] rest)
              rw [hhandle.trans hread] at hrest
              rw [← AllWithin, allWithin_headers_iff rfl rfl]
              · exact hrest
              · show (if text.getLast? = some CR then 2 else 1) = 1 ∨
                  (if text.getLast? = some CR then 2 else 1) = 2
                split_ifs
                · exact Or.inr rfl
                · exact Or.inl rfl
    · have hlong : ¬(text ++ [LF]).length ≤ kMaxHeaderLength := by omega
      rw [AllWithin, finishedLines_long hbody rfl htext (by omega)]
      exact iff_of_true nofun fun h => absurd h hlong

end

/-- A message is read off its own bytes, and no line of it beyond its end, exactly when its first line
stands alone and, in a request, the header lines that announce a length do. -/
theorem buffer_independent_iff (msg : Bytes) :
    (BufferIndependent HTTPRequest msg ↔ FirstLineStandsAlone HTTPRequest msg fun lines =>
      LengthsStandAlone kUnset (lines.takeWhile isHeaderLine)) ∧
    (BufferIndependent HTTPResponse msg ↔
      FirstLineStandsAlone HTTPResponse msg fun _ => True) := by
  constructor
  · have hwithin := allWithin_iff (T := HTTPRequest)
      (fun lines => LengthsStandAlone kUnset (lines.takeWhile isHeaderLine))
      (fun mem n endLength lines => by
        have hunset := (HTTPRequest.new.handleFirstLine_frame mem n).2.2
        rw [headersStandAlone_request_iff _ _ fun line hline => List.mem_takeWhile_imp hline]
        show LengthsStandAlone (HTTPRequest.new.handleFirstLine mem n).2.contentLength _ ↔ _
        rw [hunset]
        rfl)
    rw [bufferIndependent_iff]
    exact ⟨fun h => (hwithin (fun _ => 0) msg).mp (h _), fun h mem => (hwithin mem msg).mpr h⟩
  · have hwithin := allWithin_iff (T := HTTPResponse) (fun _ => True)
      (fun mem n endLength lines => iff_true_intro (headersStandAlone_response _ endLength _))
    rw [bufferIndependent_iff]
    exact ⟨fun h => (hwithin (fun _ => 0) msg).mp (h _), fun h mem => (hwithin mem msg).mpr h⟩

/-- The request `GET / HTTP/1` with a bare LF is taken with one content of the buffer, and rejected
with another. -/
theorem buffer_dependent_cut_line :
    ((new HTTPRequest.new fun _ => byteOf '1').parse (bytesOf "GET / HTTP/1\n".toList)).1 = true ∧
      ((new HTTPRequest.new fun _ => 0).parse (bytesOf "GET / HTTP/1\n".toList)).1 = false ∧
      ¬BufferIndependent HTTPRequest (bytesOf "GET / HTTP/1\n".toList) := by
  have hleft : ((new HTTPRequest.new fun _ => byteOf '1').parse
      (bytesOf "GET / HTTP/1\n".toList)).1 = true := by decide
  have hright : ((new HTTPRequest.new fun _ => 0).parse
      (bytesOf "GET / HTTP/1\n".toList)).1 = false := by decide
  refine ⟨hleft, hright, fun h => ?_⟩
  have hsame := (h.1 (fun _ => byteOf '1') fun _ => 0).1
  exact absurd (hleft.symm.trans (hsame.trans hright)) (Bool.false_ne_true ∘ Eq.symm)

/-- The request line `GET / HTTP/` with CRLF is 13 bytes long, and its version is read up to the byte
behind it. -/
example : 13 ∈ (Traced.finishLine ((new HTTPRequest.new fun _ => 0).lineStored
    (bytesOf "GET / HTTP/\r".toList))).reads
      ((new HTTPRequest.new fun _ => 0).lineStored (bytesOf "GET / HTTP/\r".toList)).curLine := by
  decide

end HTTPParser

end Iomgr
