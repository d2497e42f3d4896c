import Iomgr.HTTPFirstLine

/-!
Lines with their ends in the parser, for requests and responses alike. A header line is a key, a
colon, blanks and a value; the value ends where the line end starts, and the parser measures a line
end by the length it remembers: after a bare LF it takes the CR of a CRLF for a byte of the value, and
does not know an empty line that ends in CRLF.
-/

namespace Iomgr

/-- What a message keeps of its lines, and which operation sets what. -/
class HTTPFields (T : Type) [HTTPMessage T] (First : outParam Type) extends LawfulHTTPMessage T where
  first : T → First
  headers : T → List HTTPHeader
  first_addHeader : ∀ (m : T) (key value : Slice),
    first (HTTPMessage.addHeader m key value) = first m
  first_appendBody : ∀ (m : T) (b : UInt8), first (HTTPMessage.appendBody m b) = first m
  headers_handleFirstLine : ∀ (m : T) (mem : Nat → UInt8) (n : Nat),
    headers (HTTPMessage.handleFirstLine m mem n).2 = headers m
  headers_addHeader : ∀ (m : T) (key value : Slice),
    headers (HTTPMessage.addHeader m key value) = headers m ++ [⟨key.toBytes, value.toBytes⟩]
  headers_appendBody : ∀ (m : T) (b : UInt8), headers (HTTPMessage.appendBody m b) = headers m

instance : HTTPFields HTTPRequest (HTTPMethod × Bytes × HTTPVersion) where
  first r := (r.method, r.uri, r.version)
  headers := HTTPRequest.headers
  first_addHeader _ _ _ := rfl
  first_appendBody _ _ := rfl
  headers_handleFirstLine r mem n := (r.handleFirstLine_frame mem n).2.1
  headers_addHeader _ _ _ := rfl
  headers_appendBody _ _ := rfl

instance : HTTPFields HTTPResponse (HTTPStatusCode × HTTPVersion) where
  first r := (r.statusCode, r.version)
  headers := HTTPResponse.headers
  first_addHeader _ _ _ := rfl
  first_appendBody _ _ := rfl
  headers_handleFirstLine r mem n := (r.handleFirstLine_frame mem n).2
  headers_addHeader _ _ _ := rfl
  headers_appendBody _ _ := rfl

namespace HTTPParser

variable {T : Type}

/-- The text does not spill into the line end. -/
def WholeText (text : Bytes) (ending : LineEnd) : Prop :=
  LF ∉ text ∧ (ending = .lf → text.getLast? ≠ some CR)

/-- The parser with a complete line in its buffer. -/
def withLine (p : HTTPParser T) (text : Bytes) (ending : LineEnd) : HTTPParser T :=
  { p with
    curLine := overlay p.curLine 0 (text ++ ending.bytes)
    curLineLength := (text ++ ending.bytes).length
    curLineEndLength := if ending = .crlf then p.curLineEndLength else 1 }

theorem lineStored_eq_withLine (p : HTTPParser T) {text : Bytes} {ending : LineEnd}
    (h : WholeText text ending) : ∃ line, LF ∉ line ∧ text ++ ending.bytes = line ++ [LF] ∧
      p.lineStored line = p.withLine text ending := by
  cases ending with
  | crlf =>
      refine ⟨text ++ [CR], ?_, by simp [LineEnd.bytes], ?_⟩
      · rw [List.mem_append, not_or]
        exact ⟨h.1, by decide⟩
      · unfold lineStored withLine
        simp [LineEnd.bytes]
  | lf =>
      refine ⟨text, h.1, rfl, ?_⟩
      unfold lineStored withLine
      simp [LineEnd.bytes, h.2 rfl]

variable [HTTPMessage T]

/-- A line with its end leads to the finished line, if it fits in the buffer. -/
theorem parseFrom_withLine {p : HTTPParser T} (h : p.parseState ≠ .kParseBody)
    (hstart : p.curLineLength = 0) {text : Bytes} {ending : LineEnd} (htext : WholeText text ending)
    (hfits : (text ++ ending.bytes).length ≤ kMaxHeaderLength) (rest : Bytes) (i start : Nat) :
    p.parseFrom i (text ++ ending.bytes ++ rest) start =
      match (p.withLine text ending).finishLine with
      | (false, _, q) => (false, start, q)
      | (true, found, q) => q.parseFrom (i + (text ++ ending.bytes).length) rest
          (if found then i + (text ++ ending.bytes).length else start) := by
  obtain ⟨line, hline, heq, hstored⟩ := p.lineStored_eq_withLine htext
  have hlength : (text ++ ending.bytes).length = line.length + 1 := by
    rw [heq, List.length_append, List.length_singleton]
  have hshort : p.curLineLength + line.length < kMaxHeaderLength := by omega
  have hbytes : text ++ ending.bytes ++ rest = line ++ LF :: rest := by
    rw [heq, List.append_assoc, List.singleton_append]
  rw [hbytes, parseFrom_line h hline, if_pos hshort, finishIfLine_line hstart, hstored, hlength]
  rfl

/-- A first line that is taken. -/
theorem finishLine_of_first_true {p : HTTPParser T} (hstate : p.parseState = .kParseFirstLine)
    {message : T}
    (h : HTTPMessage.handleFirstLine p.reqOrRes p.curLine p.curLineLength = (true, message)) :
    p.finishLine = (true, false, { p with
      reqOrRes := message
      parseState := .kParseHeaders
      curLineLength := 0 }) := by
  rw [finishLine, hstate]
  dsimp only
  rw [h]

/-- A first line that is rejected. -/
theorem finishLine_of_first_false {p : HTTPParser T} (hstate : p.parseState = .kParseFirstLine)
    {message : T}
    (h : HTTPMessage.handleFirstLine p.reqOrRes p.curLine p.curLineLength = (false, message)) :
    p.finishLine = (false, false, { p with reqOrRes := message }) := by
  rw [finishLine, hstate]
  dsimp only
  rw [h]

/-! ### A header line -/

/-- The header in the text of a line: no leading blank, a key, a colon, blanks and a value. -/
def headerOf (text : Bytes) : Option HTTPHeader :=
  if text.head?.any isBlank then none
  else if byteOf ':' ∈ text then
    some ⟨lineKey text, (text.drop ((lineKey text).length + 1)).dropWhile isBlank⟩
  else none

theorem lineKey_of_notMem {line : Bytes} (h : byteOf ':' ∉ line) : lineKey line = line := by
  rw [lineKey, List.takeWhile_eq_self_iff]
  intro b hb
  exact bne_iff_ne.mpr (fun heq => h (heq ▸ hb))

theorem lineKey_append {key : Bytes} (h : byteOf ':' ∉ key) (rest : Bytes) :
    lineKey (key ++ byteOf ':' :: rest) = key := by
  rw [lineKey, List.takeWhile_append_of_pos, List.takeWhile_cons_of_neg (by simp), List.append_nil]
  intro b hb
  exact bne_iff_ne.mpr (fun heq => h (heq ▸ hb))

theorem headerOf_colon {key rest : Bytes} (hkey : byteOf ':' ∉ key)
    (hblank : (key ++ byteOf ':' :: rest).head?.any isBlank = false) :
    headerOf (key ++ byteOf ':' :: rest) = some ⟨key, rest.dropWhile isBlank⟩ := by
  have hmem : byteOf ':' ∈ key ++ byteOf ':' :: rest := by simp
  have hdrop : (key ++ byteOf ':' :: rest).drop (key.length + 1) = rest := by simp
  rw [headerOf, hblank, if_neg Bool.false_ne_true, if_pos hmem, lineKey_append hkey, hdrop]

/-- The two forms of a text: it is no header, or a key and the rest behind the colon. -/
theorem headerOf_cases (text : Bytes) :
    (headerOf text = none ∧ (text.head?.any isBlank = true ∨ byteOf ':' ∉ text)) ∨
    ∃ key rest, text = key ++ byteOf ':' :: rest ∧ byteOf ':' ∉ key ∧
      text.head?.any isBlank = false ∧ headerOf text = some ⟨key, rest.dropWhile isBlank⟩ := by
  cases hblank : text.head?.any isBlank with
  | true => exact Or.inl ⟨if_pos hblank, Or.inl rfl⟩
  | false =>
      by_cases hcolon : byteOf ':' ∈ text
      · obtain ⟨key, rest, rfl, hkey⟩ := List.eq_append_cons_of_mem hcolon
        exact Or.inr ⟨key, rest, rfl, hkey, hblank.symm ▸ rfl, headerOf_colon hkey hblank⟩
      · refine Or.inl ⟨?_, Or.inr hcolon⟩
        rw [headerOf, hblank, if_neg Bool.false_ne_true, if_neg hcolon]

theorem colon_notMem_lineEnd (ending : LineEnd) : byteOf ':' ∉ ending.bytes := by
  intro h
  rcases LineEnd.mem_bytes h with hcr | hlf
  · exact absurd hcr (by decide)
  · exact absurd hlf (by decide)

omit [HTTPMessage T] in
theorem isBlank_curLine_withLine (p : HTTPParser T) (text : Bytes) (ending : LineEnd) :
    isBlank ((p.withLine text ending).curLine 0) = text.head?.any isBlank := by
  have hhead : ∀ b rest, text ++ ending.bytes = b :: rest →
      overlay p.curLine 0 (text ++ ending.bytes) 0 = b := by
    intro b rest hline
    have hwhole := Remaining.whole p.curLine (text ++ ending.bytes)
    nth_rewrite 3 [hline] at hwhole
    exact hwhole.head
  show isBlank (overlay p.curLine 0 (text ++ ending.bytes) 0) = _
  cases text with
  | nil =>
      cases ending with
      | crlf =>
          rw [hhead CR [LF] rfl]
          decide
      | lf =>
          rw [hhead LF [] rfl]
          decide
  | cons b text =>
      rw [hhead b (text ++ ending.bytes) rfl]
      rfl

/-- A text that is no header is rejected. -/
theorem addHeader_withLine_of_none (p : HTTPParser T) {text : Bytes} (ending : LineEnd)
    (h : headerOf text = none) :
    (p.withLine text ending).addHeader = (false, p.withLine text ending) := by
  rw [addHeader_line (p := p.withLine text ending) rfl rfl, isBlank_curLine_withLine]
  apply if_pos
  rcases headerOf_cases text with ⟨_, hblank | hcolon⟩ | ⟨key, rest, _, _, _, hsome⟩
  · exact Or.inl hblank
  · refine Or.inr (congrArg List.length (lineKey_of_notMem ?_))
    rw [List.mem_append, not_or]
    exact ⟨hcolon, colon_notMem_lineEnd ending⟩
  · rw [h] at hsome
    cases hsome

/-- The bytes that a slice of the line holds. -/
theorem toBytes_bufferSlice_line (mem : Nat → UInt8) {line : Bytes} {pos size : Nat}
    (hlength : line.length ≤ kMaxHeaderLength) (hsize : pos + size ≤ line.length) :
    (bufferSlice (overlay mem 0 line) pos size).toBytes = (line.drop pos).take size := by
  have hsplit : kMaxHeaderLength - pos =
      (line.length - pos) + (kMaxHeaderLength - line.length) := by omega
  have hshort : size ≤ (line.drop pos).length := by
    rw [List.length_drop]
    omega
  rw [Slice.toBytes, bufferSlice, hsplit, bytesFrom_append, bytesFrom_line mem line (by omega),
    List.take_append_of_le_length hshort]

/-- What a value gets from its line end: the CR, when the parser takes the line end for an LF. -/
def spill (p : HTTPParser T) (ending : LineEnd) : Bytes :=
  if ending = .crlf ∧ p.curLineEndLength = 1 then [CR] else []

theorem takeWhile_isBlank_line (rest : Bytes) (ending : LineEnd) :
    (rest ++ ending.bytes).takeWhile isBlank = rest.takeWhile isBlank := by
  induction rest with
  | nil =>
      cases ending with
      | crlf => rfl
      | lf => rfl
  | cons b rest ih =>
      cases hb : isBlank b with
      | true => simp [hb, ih]
      | false => simp [hb]

/-- The value of a header line: what follows the blanks behind the colon, without the end of the line
as the parser measures it. -/
theorem drop_valueStart {key : Bytes} (hkey : byteOf ':' ∉ key) (rest : Bytes) (ending : LineEnd) :
    (key ++ byteOf ':' :: rest ++ ending.bytes).drop
        (valueStart (key ++ byteOf ':' :: rest ++ ending.bytes)) =
      rest.dropWhile isBlank ++ ending.bytes := by
  have hdrop : ∀ left : Bytes, (key ++ byteOf ':' :: left).drop (key.length + 1) = left := by simp
  have hsplit : rest ++ ending.bytes =
      rest.takeWhile isBlank ++ (rest.dropWhile isBlank ++ ending.bytes) := by
    rw [← List.append_assoc, List.takeWhile_append_dropWhile]
  rw [List.append_assoc, List.cons_append, valueStart, lineKey_append hkey, ← List.drop_drop, hdrop,
    takeWhile_isBlank_line, hsplit, List.drop_left]

/-- A header line is added with its key and its value. -/
theorem addHeader_withLine (p : HTTPParser T) {text : Bytes} {ending : LineEnd} {header : HTTPHeader}
    (hend : p.curLineEndLength = 1 ∨ p.curLineEndLength = 2)
    (hfits : (text ++ ending.bytes).length ≤ kMaxHeaderLength) (h : headerOf text = some header) :
    ∃ key value, (p.withLine text ending).addHeader = (true, { p.withLine text ending with
        reqOrRes := HTTPMessage.addHeader p.reqOrRes key value }) ∧
      key.toBytes = header.key ∧ value.toBytes = header.value ++ p.spill ending := by
  rcases headerOf_cases text with ⟨hnone, _⟩ | ⟨key, rest, rfl, hkey, hblank, hsome⟩
  · rw [h] at hnone
    cases hnone
  · rw [h] at hsome
    cases hsome
    have hnot : ¬(isBlank ((p.withLine (key ++ byteOf ':' :: rest) ending).curLine 0) = true ∨
        (lineKey (key ++ byteOf ':' :: rest ++ ending.bytes)).length =
          (key ++ byteOf ':' :: rest ++ ending.bytes).length) := by
      rw [isBlank_curLine_withLine, hblank, List.append_assoc, List.cons_append, lineKey_append hkey]
      simp
    rw [addHeader_line (p := p.withLine _ ending) rfl rfl, if_neg hnot]
    refine ⟨_, _, rfl, ?_, ?_⟩
    · show (bufferSlice (overlay _ 0 _) 0 _).toBytes = _
      rw [toBytes_bufferSlice_key hfits, List.append_assoc, List.cons_append, lineKey_append hkey]
    · have hdrop := drop_valueStart hkey rest ending
      show (bufferSlice (overlay _ 0 _) _ (_ - if ending = .crlf then _ else 1)).toBytes = _
      generalize key ++ byteOf ':' :: rest ++ ending.bytes = line at hfits hdrop ⊢
      have hlength := congrArg List.length hdrop
      rw [List.length_drop, List.length_append] at hlength
      have hpos : 1 ≤ ending.bytes.length := List.length_pos_of_ne_nil ending.bytes_ne_nil
      rw [toBytes_bufferSlice_line _ hfits (by omega), hdrop, hlength]
      cases ending with
      | crlf =>
          rcases hend with hone | htwo
          · simp [spill, hone, LineEnd.bytes, List.take_append, List.take_of_length_le]
          · simp [spill, htwo, LineEnd.bytes]
      | lf => simp [spill, LineEnd.bytes]

/-! ### A line of the headers, finished -/

/-- The parser takes the end of the line for what it is. -/
def Measures (p : HTTPParser T) (ending : LineEnd) : Prop :=
  ending = .crlf → p.curLineEndLength = 2

/-- An empty line ends the headers, where its end is measured right. -/
theorem finishLine_empty {p : HTTPParser T} (hstate : p.parseState = .kParseHeaders)
    {ending : LineEnd} (h : p.Measures ending) :
    (p.withLine [] ending).finishLine = (true, true, { p.withLine [] ending with
      parseState := .kParseBody
      curLineLength := 0 }) := by
  have hlength : (p.withLine [] ending).curLineLength = (p.withLine [] ending).curLineEndLength := by
    cases ending with
    | crlf => exact (h rfl).symm
    | lf => rfl
  have hheaders : (p.withLine [] ending).parseState = .kParseHeaders := hstate
  rw [finishLine, hheaders]
  exact if_pos hlength

omit [HTTPMessage T] in
/-- Outside that case the length of the line is not that of its end. -/
theorem curLineLength_ne {p : HTTPParser T} (hend : p.curLineEndLength = 1 ∨ p.curLineEndLength = 2)
    {text : Bytes} {ending : LineEnd} (h : text ≠ [] ∨ ¬p.Measures ending) :
    (p.withLine text ending).curLineLength ≠ (p.withLine text ending).curLineEndLength := by
  have hlength : (p.withLine text ending).curLineLength = text.length + ending.bytes.length :=
    List.length_append
  rw [hlength]
  cases ending with
  | lf =>
      have hmeasures : p.Measures .lf := nofun
      have hpos := List.length_pos_of_ne_nil (h.resolve_right (fun hnot => hnot hmeasures))
      show text.length + 1 ≠ 1
      omega
  | crlf =>
      show text.length + 2 ≠ p.curLineEndLength
      rcases hend with hone | htwo
      · omega
      · have hmeasures : p.Measures .crlf := fun _ => htwo
        have hpos := List.length_pos_of_ne_nil (h.resolve_right (fun hnot => hnot hmeasures))
        omega

theorem finishLine_of_addHeader {p : HTTPParser T} (hstate : p.parseState = .kParseHeaders)
    (hend : p.curLineEndLength = 1 ∨ p.curLineEndLength = 2) {text : Bytes} {ending : LineEnd}
    (h : text ≠ [] ∨ ¬p.Measures ending) :
    (p.withLine text ending).finishLine =
      match (p.withLine text ending).addHeader with
      | (false, q) => (false, false, q)
      | (true, q) => (true, false, { q with curLineLength := 0 }) := by
  have hheaders : (p.withLine text ending).parseState = .kParseHeaders := hstate
  rw [finishLine, hheaders]
  dsimp only
  rewrite [if_neg (curLineLength_ne hend h)]
  rfl

/-- A line that is no header and does not end the headers. -/
theorem finishLine_of_none {p : HTTPParser T} (hstate : p.parseState = .kParseHeaders)
    (hend : p.curLineEndLength = 1 ∨ p.curLineEndLength = 2) {text : Bytes} {ending : LineEnd}
    (h : text ≠ [] ∨ ¬p.Measures ending) (hnone : headerOf text = none) :
    (p.withLine text ending).finishLine = (false, false, p.withLine text ending) := by
  rw [finishLine_of_addHeader hstate hend h, addHeader_withLine_of_none p ending hnone]

/-- A header line. -/
theorem finishLine_of_header {p : HTTPParser T} (hstate : p.parseState = .kParseHeaders)
    (hend : p.curLineEndLength = 1 ∨ p.curLineEndLength = 2) {text : Bytes} {ending : LineEnd}
    {header : HTTPHeader} (hfits : (text ++ ending.bytes).length ≤ kMaxHeaderLength)
    (h : headerOf text = some header) :
    ∃ key value, (p.withLine text ending).finishLine = (true, false, { p.withLine text ending with
        reqOrRes := HTTPMessage.addHeader p.reqOrRes key value
        curLineLength := 0 }) ∧
      key.toBytes = header.key ∧ value.toBytes = header.value ++ p.spill ending := by
  have hne : text ≠ [] := by
    rintro rfl
    cases h
  obtain ⟨key, value, hadd, hkey, hvalue⟩ := p.addHeader_withLine hend hfits h
  refine ⟨key, value, ?_, hkey, hvalue⟩
  rw [finishLine_of_addHeader hstate hend (Or.inl hne), hadd]

/-! ### The body -/

variable {First : Type} [HTTPFields T First]

def first (p : HTTPParser T) : First := HTTPFields.first p.reqOrRes

def headers (p : HTTPParser T) : List HTTPHeader := HTTPFields.headers p.reqOrRes

theorem first_appendBytes (p : HTTPParser T) (bytes : Bytes) :
    (p.appendBytes bytes).first = p.first := by
  induction bytes generalizing p with
  | nil => rfl
  | cons byte bytes ih => exact (ih (p.appendBytes [byte])).trans (HTTPFields.first_appendBody _ _)

theorem headers_appendBytes (p : HTTPParser T) (bytes : Bytes) :
    (p.appendBytes bytes).headers = p.headers := by
  induction bytes generalizing p with
  | nil => rfl
  | cons byte bytes ih => exact (ih (p.appendBytes [byte])).trans (HTTPFields.headers_appendBody _ _)

/-! ### The parser at the start of a header line -/

/-- The parser at the start of a header line, with the length of a line end that it remembers. -/
structure AtHeader (p : HTTPParser T) (endLength : Nat) : Prop where
  state : p.parseState = .kParseHeaders
  length : p.curLineLength = 0
  endLength_eq : p.curLineEndLength = endLength
  valid : endLength = 1 ∨ endLength = 2

namespace AtHeader

variable {p : HTTPParser T} {n : Nat} {text : Bytes} {ending : LineEnd}

omit [HTTPMessage T] in
theorem ne_body (hp : p.AtHeader n) : p.parseState ≠ .kParseBody := by
  rw [hp.state]
  exact ParseState.noConfusion

omit [HTTPMessage T] in
theorem endLength_cases (hp : p.AtHeader n) : p.curLineEndLength = 1 ∨ p.curLineEndLength = 2 := by
  rw [hp.endLength_eq]
  exact hp.valid

/-- A header line leads to the next line with the header added. -/
theorem parseFrom_header (hp : p.AtHeader n) (htext : WholeText text ending)
    (hfits : (text ++ ending.bytes).length ≤ kMaxHeaderLength) {header : HTTPHeader}
    (hheader : headerOf text = some header) (rest : Bytes) (i start : Nat) :
    ∃ (q : HTTPParser T) (j : Nat), p.parseFrom i (text ++ ending.bytes ++ rest) start =
        q.parseFrom j rest start ∧ q.AtHeader (if ending = .crlf then n else 1) ∧
      q.first = p.first ∧
      q.headers = p.headers ++ [⟨header.key, header.value ++ p.spill ending⟩] ∧
      q.body = p.body := by
  obtain ⟨key, value, hfinish, hkey, hvalue⟩ :=
    finishLine_of_header hp.state hp.endLength_cases hfits hheader
  have hparse := parseFrom_withLine hp.ne_body hp.length htext hfits rest i start
  rw [hfinish] at hparse
  refine ⟨_, _, hparse, ⟨hp.state, rfl, ?_, ?_⟩, HTTPFields.first_addHeader _ _ _, ?_,
    LawfulHTTPMessage.body_addHeader _ _ _⟩
  · show (if ending = .crlf then p.curLineEndLength else 1) = _
    rw [hp.endLength_eq]
  · split_ifs
    · exact hp.valid
    · exact Or.inl rfl
  · calc HTTPFields.headers (HTTPMessage.addHeader p.reqOrRes key value)
        = p.headers ++ [⟨key.toBytes, value.toBytes⟩] := HTTPFields.headers_addHeader _ _ _
      _ = p.headers ++ [⟨header.key, header.value ++ p.spill ending⟩] := by rw [hkey, hvalue]

/-- An empty line whose end is measured right leads to the body. -/
theorem parseFrom_empty (hp : p.AtHeader n) (h : p.Measures ending) (body : Bytes)
    (i start : Nat) :
    ∃ (q : HTTPParser T) (s : Nat), p.parseFrom i (ending.bytes ++ body) start = (true, s, q) ∧
      q.recievedAllHeaders = true ∧ q.first = p.first ∧ q.headers = p.headers ∧
      q.body = p.body ++ body := by
  have hwhole : WholeText [] ending := ⟨List.not_mem_nil, fun _ => nofun⟩
  have hfits : ([] ++ ending.bytes).length ≤ kMaxHeaderLength := by
    cases ending with
    | crlf => decide
    | lf => decide
  have hparse := parseFrom_withLine hp.ne_body hp.length hwhole hfits body i start
  rw [finishLine_empty hp.state h] at hparse
  dsimp only at hparse
  generalize hq : ({ p.withLine [] ending with
      parseState := .kParseBody
      curLineLength := 0 } : HTTPParser T) = q at hparse
  have hstate : q.parseState = .kParseBody := by rw [← hq]
  rw [parseFrom_body hstate] at hparse
  refine ⟨q.appendBytes body, _, hparse, decide_eq_true hstate, ?_, ?_, ?_⟩
  · rw [first_appendBytes, ← hq]
    rfl
  · rw [headers_appendBytes, ← hq]
    rfl
  · rw [body_appendBytes, ← hq]
    rfl

/-- A line that is no header and does not end the headers is rejected. -/
theorem parseFrom_none (hp : p.AtHeader n) (htext : WholeText text ending)
    (hfits : (text ++ ending.bytes).length ≤ kMaxHeaderLength)
    (h : text ≠ [] ∨ ¬p.Measures ending) (hnone : headerOf text = none) (rest : Bytes)
    (i start : Nat) :
    ∃ q : HTTPParser T, p.parseFrom i (text ++ ending.bytes ++ rest) start = (false, start, q) ∧
      q.first = p.first ∧ q.headers = p.headers ∧ q.body = p.body := by
  have hparse := parseFrom_withLine hp.ne_body hp.length htext hfits rest i start
  rw [finishLine_of_none hp.state hp.endLength_cases h hnone] at hparse
  exact ⟨_, hparse, rfl, rfl, rfl⟩

end AtHeader

end HTTPParser

end Iomgr
