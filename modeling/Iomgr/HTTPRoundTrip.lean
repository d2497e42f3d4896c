import Iomgr.HTTPHeaderLine
import Iomgr.HTTPFirstLineGrammar

/-!
The text of a message, read back by the parser. The parser sees CRLF at every line, so that it always
measures the line ends right, and every header comes back as it was written.
-/

namespace Iomgr

/-- A header that can be told from the rest of its line. -/
structure HTTPHeader.Writable (h : HTTPHeader) : Prop where
  key_colon : byteOf ':' ∉ h.key
  key_line : LF ∉ h.key
  key_blank : h.key.head?.any HTTPParser.isBlank = false
  value_line : LF ∉ h.value
  value_blank : h.value.head?.any HTTPParser.isBlank = false

theorem HTTPHeader.Writable.line {h : HTTPHeader} (hwritable : h.Writable) : LF ∉ h.text := by
  unfold HTTPHeader.text
  rw [List.mem_append, List.mem_append, not_or, not_or]
  exact ⟨⟨hwritable.key_line, by decide⟩, hwritable.value_line⟩

theorem dropWhile_isBlank_of_head {value : Bytes}
    (h : value.head?.any HTTPParser.isBlank = false) :
    value.dropWhile HTTPParser.isBlank = value := by
  cases value with
  | nil => rfl
  | cons b value => exact List.dropWhile_cons_of_neg (by simpa using h)

/-- A header is read from its text. -/
theorem HTTPHeader.Writable.headerOf {h : HTTPHeader} (hwritable : h.Writable) :
    HTTPParser.headerOf h.text = some h := by
  have htext : h.text = h.key ++ byteOf ':' :: (SP :: h.value) := by
    rw [HTTPHeader.text, List.append_assoc]
    rfl
  have hblank : (h.key ++ byteOf ':' :: (SP :: h.value)).head?.any HTTPParser.isBlank = false := by
    have hkey := hwritable.key_blank
    cases hk : h.key with
    | nil => rfl
    | cons b key =>
        rw [hk] at hkey
        exact hkey
  have hvalue : (SP :: h.value).dropWhile HTTPParser.isBlank = h.value := by
    rw [List.dropWhile_cons_of_pos (by decide), dropWhile_isBlank_of_head hwritable.value_blank]
  rw [htext, HTTPParser.headerOf_colon hwritable.key_colon hblank, hvalue]

namespace HTTPParser

variable {T First : Type} [HTTPMessage T] [HTTPFields T First]

/-- Headers that are written are added one after the other. -/
theorem parseFrom_headerLines {p : HTTPParser T} (hp : p.AtHeader 2) {hs : List HTTPHeader}
    (hhs : ∀ h ∈ hs, h.Writable) (hfits : ∀ h ∈ hs, (h.text ++ kCRLF).length ≤ kMaxHeaderLength)
    (rest : Bytes) (i start : Nat) :
    ∃ (q : HTTPParser T) (j : Nat),
      p.parseFrom i (hs.flatMap (fun h => h.text ++ kCRLF) ++ rest) start =
        q.parseFrom j rest start ∧
      q.AtHeader 2 ∧ q.first = p.first ∧ q.headers = p.headers ++ hs ∧ q.body = p.body := by
  induction hs generalizing p i with
  | nil => exact ⟨p, i, rfl, hp, rfl, (List.append_nil _).symm, rfl⟩
  | cons h hs ih =>
      have hh := hhs h List.mem_cons_self
      have hwhole : WholeText h.text .crlf := ⟨hh.line, nofun⟩
      obtain ⟨q, j, hparse, hq, hfirst, hheaders, hbody⟩ :=
        hp.parseFrom_header hwhole (hfits h List.mem_cons_self)
          hh.headerOf (hs.flatMap (fun h => h.text ++ kCRLF) ++ rest) i start
      obtain ⟨q', j', hparse', hq', hfirst', hheaders', hbody'⟩ := ih hq
        (fun h hh => hhs h (List.mem_cons_of_mem _ hh))
        (fun h hh => hfits h (List.mem_cons_of_mem _ hh)) j
      have hspill : p.spill .crlf = [] :=
        if_neg (fun h => absurd (hp.endLength_eq.symm.trans h.2) (by decide))
      refine ⟨q', j', ?_, hq', hfirst'.trans hfirst, ?_, hbody'.trans hbody⟩
      · rw [List.flatMap_cons, List.append_assoc]
        exact hparse.trans hparse'
      · rw [hheaders', hheaders, hspill, List.append_nil, List.append_assoc,
          List.singleton_append]

/-- A first line that is taken, headers that are written, the empty line and the body. -/
theorem parse_message (message : T) (mem : Nat → UInt8) {line : Bytes} (hline : LF ∉ line)
    (hlength : (line ++ kCRLF).length ≤ kMaxHeaderLength) {message' : T}
    (hfirst : HTTPMessage.handleFirstLine message (overlay mem 0 (line ++ kCRLF))
      (line ++ kCRLF).length = (true, message')) {hs : List HTTPHeader}
    (hhs : ∀ h ∈ hs, h.Writable) (hfits : ∀ h ∈ hs, (h.text ++ kCRLF).length ≤ kMaxHeaderLength)
    (body : Bytes) :
    ∃ (s : Nat) (q : HTTPParser T), (new message mem).parse (line ++ kCRLF ++
        hs.flatMap (fun h => h.text ++ kCRLF) ++ kCRLF ++ body) = (true, s, q) ∧
      q.recievedAllHeaders = true ∧ q.first = HTTPFields.first message' ∧
      q.headers = HTTPFields.headers message ++ hs ∧
      q.body = LawfulHTTPMessage.body message ++ body := by
  have hheaders := HTTPFields.headers_handleFirstLine message (overlay mem 0 (line ++ kCRLF))
    (line ++ kCRLF).length
  have hbody := LawfulHTTPMessage.body_handleFirstLine message (overlay mem 0 (line ++ kCRLF))
    (line ++ kCRLF).length
  rw [hfirst] at hheaders hbody
  have hfinish : ((new message mem).withLine line .crlf).finishLine =
      (true, false, { (new message mem).withLine line .crlf with
        reqOrRes := message'
        parseState := .kParseHeaders
        curLineLength := 0 }) := finishLine_of_first_true rfl hfirst
  generalize hp : ({ (new message mem).withLine line .crlf with
      reqOrRes := message'
      parseState := .kParseHeaders
      curLineLength := 0 } : HTTPParser T) = p at hfinish
  have hheader : p.AtHeader 2 := by
    rw [← hp]
    exact ⟨rfl, rfl, rfl, Or.inr rfl⟩
  obtain ⟨q, j, hlines, hq, hfirst', hheaders', hbody'⟩ := parseFrom_headerLines hheader hhs hfits
    (kCRLF ++ body) (0 + (line ++ kCRLF).length) 0
  have hmeasures : q.Measures .crlf := fun _ => hq.endLength_eq
  obtain ⟨q', s, hempty, hall, hfirst'', hheaders'', hbody''⟩ := hq.parseFrom_empty hmeasures body j 0
  refine ⟨s, q', ?_, hall, ?_, ?_, ?_⟩
  · have hfresh : (new message mem).parseState ≠ .kParseBody := ParseState.noConfusion
    have hwhole : WholeText line .crlf := ⟨hline, nofun⟩
    have hparse := parseFrom_withLine hfresh rfl hwhole hlength
      (hs.flatMap (fun h => h.text ++ kCRLF) ++ (kCRLF ++ body)) 0 0
    rw [hfinish] at hparse
    rw [parse, List.append_assoc, List.append_assoc]
    exact hparse.trans (hlines.trans hempty)
  · rw [hfirst'', hfirst', ← hp]
    rfl
  · rw [hheaders'', hheaders', ← hp, ← hheaders]
    rfl
  · rw [hbody'', hbody', ← hp, ← hbody]
    rfl

end HTTPParser

/-! ### Requests -/

theorem isDigit_of_mem_decimal {n : Nat} {b : UInt8} (h : b ∈ decimal n) : isDigit b = true := by
  unfold decimal bytesOf at h
  obtain ⟨c, hc, rfl⟩ := List.mem_map.mp h
  have hdigit := Nat.isDigit_of_mem_toDigits (by decide) (by decide) hc
  simp only [Char.isDigit, Bool.and_eq_true, decide_eq_true_eq, UInt32.le_iff_toNat_le] at hdigit
  simp only [isDigit, byteOf, Bool.and_eq_true, decide_eq_true_eq, UInt8.le_iff_toNat_le,
    UInt8.toNat_ofNat']
  simp only [UInt8.reduceToNat]
  have hval : c.toNat = c.val.toNat := rfl
  have hzero : '0'.val.toNat = 48 := rfl
  have hnine : '9'.val.toNat = 57 := rfl
  omega

theorem head_isBlank_of_isDigit {ds : Bytes} (h : ∀ b ∈ ds, isDigit b = true) :
    ds.head?.any HTTPParser.isBlank = false := by
  cases ds with
  | nil => rfl
  | cons b ds =>
      have hb := h b List.mem_cons_self
      rw [List.head?_cons, Option.any_some, Bool.eq_false_iff]
      intro hblank
      rcases Bool.or_eq_true_iff.mp hblank with hspace | htab
      · rw [beq_iff_eq.mp hspace] at hb
        exact absurd hb (by decide)
      · rw [beq_iff_eq.mp htab] at hb
        exact absurd hb (by decide)

/-- The header that `ToString` adds can be told from the rest of its line. -/
theorem HTTPRequest.generatedHeaders_writable (r : HTTPRequest) {h : HTTPHeader}
    (hh : h ∈ r.generatedHeaders) : h.Writable := by
  unfold HTTPRequest.generatedHeaders at hh
  split_ifs at hh
  · have heq := List.mem_singleton.mp hh
    subst heq
    have hdigit : ∀ b ∈ decimal r.body.length, isDigit b = true := fun b => isDigit_of_mem_decimal
    have hcolon : byteOf ':' ∉ kContentLength := by decide
    have hkey : LF ∉ kContentLength := by decide
    have hvalue : LF ∉ decimal r.body.length := fun hlf => absurd (hdigit LF hlf) (by decide)
    exact ⟨hcolon, hkey, rfl, hvalue, head_isBlank_of_isDigit hdigit⟩
  · cases hh

/-- A request whose lines can be read back. -/
structure HTTPRequest.Writable (r : HTTPRequest) : Prop where
  method : r.method ≠ .kUnknow
  version : r.version ≠ .kUnknow
  uri_space : SP ∉ r.uri
  uri_line : LF ∉ r.uri
  headers : ∀ h ∈ r.headers, h.Writable
  firstLine_fits : ∀ line ∈ r.firstLine, (line ++ kCRLF).length ≤ kMaxHeaderLength
  headers_fit : ∀ h ∈ r.headers ++ r.generatedHeaders,
    (h.text ++ kCRLF).length ≤ kMaxHeaderLength

theorem LF_notMem_methodName {method : HTTPMethod} {name : Bytes}
    (h : methodName method = some name) : LF ∉ name := by
  cases method with
  | kUnknow => cases h
  | kGet =>
      cases h
      decide
  | kPost =>
      cases h
      decide
  | kPut =>
      cases h
      decide
  | kDelete =>
      cases h
      decide

theorem LF_notMem_versionName {version : HTTPVersion} {name : Bytes}
    (h : versionName version = some name) : LF ∉ name := by
  cases version with
  | kUnknow => cases h
  | kHTTP10 =>
      cases h
      decide
  | kHTTP11 =>
      cases h
      decide
  | kHTTP20 =>
      cases h
      decide

theorem methodName_of_ne {method : HTTPMethod} (h : method ≠ .kUnknow) :
    ∃ name, methodName method = some name := by
  cases method with
  | kUnknow => exact absurd rfl h
  | kGet => exact ⟨_, rfl⟩
  | kPost => exact ⟨_, rfl⟩
  | kPut => exact ⟨_, rfl⟩
  | kDelete => exact ⟨_, rfl⟩

theorem versionName_of_ne {version : HTTPVersion} (h : version ≠ .kUnknow) :
    ∃ name, versionName version = some name := by
  cases version with
  | kUnknow => exact absurd rfl h
  | kHTTP10 => exact ⟨_, rfl⟩
  | kHTTP11 => exact ⟨_, rfl⟩
  | kHTTP20 => exact ⟨_, rfl⟩

/-- The text of a request is read back as the request: the same first line, headers and body, with
the generated header at the end. -/
theorem request_round_trip (r : HTTPRequest) (mem : Nat → UInt8) (h : r.Writable) :
    ∃ text s q, r.toString = some text ∧
      (HTTPParser.new HTTPRequest.new mem).parse text = (true, s, q) ∧
      q.recievedAllHeaders = true ∧ q.reqOrRes.method = r.method ∧ q.reqOrRes.uri = r.uri ∧
      q.reqOrRes.version = r.version ∧ q.reqOrRes.headers = r.headers ++ r.generatedHeaders ∧
      q.reqOrRes.body = r.body := by
  obtain ⟨m, hm⟩ := methodName_of_ne h.method
  obtain ⟨v, hv⟩ := versionName_of_ne h.version
  have hfirst : r.firstLine = some (m ++ SP :: (r.uri ++ SP :: v)) := by
    rw [HTTPRequest.firstLine, hm, hv]
    simp
  generalize hline : m ++ SP :: (r.uri ++ SP :: v) = line at hfirst
  have hdenotes : DenotesRequest line r.method r.uri r.version :=
    ⟨m, v, hm, hv, h.uri_space, hline.symm⟩
  have hnotMem : LF ∉ line := by
    rw [← hline]
    simp [LF_notMem_methodName hm, LF_notMem_versionName hv, h.uri_line]
    decide
  have hhandle : HTTPRequest.new.handleFirstLine (overlay mem 0 (line ++ kCRLF))
      (line ++ kCRLF).length = (true, { HTTPRequest.new with
        method := r.method
        uri := r.uri
        version := r.version }) := by
    have hwhole : Remaining (overlay mem 0 (line ++ kCRLF)) (line ++ kCRLF).length 0
        (line ++ LineEnd.crlf.bytes) := Remaining.whole mem (line ++ kCRLF)
    rw [HTTPRequest.new.handleFirstLine_eq hwhole,
      HTTPRequest.readFirstLine_of_denotes _ hdenotes]
  have hwritable : ∀ x ∈ r.headers ++ r.generatedHeaders, x.Writable := by
    intro x hx
    rcases List.mem_append.mp hx with hx | hx
    · exact h.headers x hx
    · exact r.generatedHeaders_writable hx
  obtain ⟨s, q, hparse, hall, hfirst', hheaders, hbody⟩ := HTTPParser.parse_message HTTPRequest.new mem
    hnotMem (h.firstLine_fits line hfirst) hhandle hwritable h.headers_fit r.body
  obtain ⟨hmethod, huri, hversion⟩ : _ ∧ _ ∧ _ := by
    have h1 := Prod.mk.inj hfirst'
    exact ⟨h1.1, Prod.mk.inj h1.2⟩
  refine ⟨_, s, q, ?_, hparse, hall, hmethod, huri, hversion, hheaders, hbody⟩
  rw [HTTPRequest.toString, hfirst]
  rfl

/-- A header with an empty key, a value that ends in CR, and a body that looks like a header. -/
theorem request_round_trip_post :
    ∃ text s q, (⟨.kPost, bytesOf ['/'], .kHTTP11, [⟨[], bytesOf ['a', '\r']⟩], kUnset,
        bytesOf ['k', ':', '\r', '\n']⟩ : HTTPRequest).toString = some text ∧
      (HTTPParser.new HTTPRequest.new fun _ => 0).parse text = (true, s, q) ∧
      q.recievedAllHeaders = true ∧ q.reqOrRes.method = .kPost ∧
      q.reqOrRes.uri = bytesOf ['/'] ∧ q.reqOrRes.version = .kHTTP11 ∧
      q.reqOrRes.headers = [⟨[], bytesOf ['a', '\r']⟩, ⟨kContentLength, bytesOf ['4']⟩] ∧
      q.reqOrRes.body = bytesOf ['k', ':', '\r', '\n'] := by
  have hwritable : HTTPHeader.Writable ⟨[], bytesOf ['a', '\r']⟩ :=
    ⟨by decide, by decide, by decide, by decide, by decide⟩
  exact request_round_trip ⟨.kPost, bytesOf ['/'], .kHTTP11, [⟨[], bytesOf ['a', '\r']⟩], kUnset,
    bytesOf ['k', ':', '\r', '\n']⟩ (fun _ => 0)
    { method := by decide
      version := by decide
      uri_space := by decide
      uri_line := by decide
      headers := fun h hh => List.mem_singleton.mp hh ▸ hwritable
      firstLine_fits := by decide
      headers_fit := by decide }

/-! ### Responses -/

/-- A response whose lines can be read back. -/
structure HTTPResponse.Writable (r : HTTPResponse) : Prop where
  status : r.statusCode ∈ HTTPStatusCode.enumerators
  version : r.version ≠ .kUnknow
  headers : ∀ h ∈ r.headers, h.Writable
  firstLine_fits : ∀ line ∈ r.firstLine, (line ++ kCRLF).length ≤ kMaxHeaderLength
  headers_fit : ∀ h ∈ r.headers, (h.text ++ kCRLF).length ≤ kMaxHeaderLength

/-- The text of the response is defined, and read back as the response. -/
def HTTPResponse.RoundTrips (r : HTTPResponse) (mem : Nat → UInt8) : Prop :=
  ∃ text s q, r.toString = some text ∧
    (HTTPParser.new HTTPResponse.new mem).parse text = (true, s, q) ∧
    q.recievedAllHeaders = true ∧ q.reqOrRes = r

/-- The text of the status code is its number, a space and a reason, on one line. -/
def statusReadsBack (status : HTTPStatusCode) : Bool :=
  match statusCodeWithDesc status with
  | some (d1 :: d2 :: d3 :: b :: reason) =>
      isStatus d1 d2 d3 && statusOf d1 d2 d3 = status && b = SP && reason.all (· != LF)
  | _ => false

/-- The table and the enumeration agree, but for `kUseProxy`. -/
theorem statusReadsBack_iff : ∀ status ∈ HTTPStatusCode.enumerators,
    statusReadsBack status = true ↔ status ≠ .kUseProxy := by
  decide +kernel

theorem statusCodeWithDesc_spec {status : HTTPStatusCode} (h : statusReadsBack status = true) :
    ∃ d1 d2 d3 reason, statusCodeWithDesc status = some (d1 :: d2 :: d3 :: SP :: reason) ∧
      isStatus d1 d2 d3 = true ∧ statusOf d1 d2 d3 = status ∧ LF ∉ reason := by
  unfold statusReadsBack at h
  split at h
  · next d1 d2 d3 b reason hdesc =>
      simp only [Bool.and_eq_true, decide_eq_true_eq, List.all_eq_true, bne_iff_ne] at h
      obtain ⟨⟨⟨hdigits, hstatus⟩, rfl⟩, hline⟩ := h
      exact ⟨d1, d2, d3, reason, hdesc, hdigits, hstatus, fun hlf => hline LF hlf rfl⟩
  · cases h

theorem LF_notMem_of_isStatus {d1 d2 d3 : UInt8} (h : isStatus d1 d2 d3 = true) :
    LF ∉ [d1, d2, d3] := by
  intro hlf
  simp only [List.mem_cons, List.not_mem_nil, or_false] at hlf
  rcases hlf with rfl | rfl | rfl
  · cases h
  · simp [isStatus, show isDigit LF = false by decide] at h
  · simp [isStatus, show isDigit LF = false by decide] at h

theorem HTTPResponse.roundTrips_of_readsBack {r : HTTPResponse} (h : r.Writable)
    (hstatus : statusReadsBack r.statusCode = true) (mem : Nat → UInt8) : r.RoundTrips mem := by
  obtain ⟨v, hv⟩ := versionName_of_ne h.version
  obtain ⟨d1, d2, d3, reason, hdesc, hdigits, hcode, hreason⟩ := statusCodeWithDesc_spec hstatus
  have hfirst : r.firstLine = some (v ++ SP :: d1 :: d2 :: d3 :: SP :: reason) := by
    rw [HTTPResponse.firstLine, hv, hdesc]
    simp
  generalize hline : v ++ SP :: d1 :: d2 :: d3 :: SP :: reason = line at hfirst
  have hdenotes : DenotesResponse line r.version r.statusCode :=
    ⟨v, d1, d2, d3, reason, hv, hdigits, hcode.symm, hline.symm⟩
  have hnotMem : LF ∉ line := by
    have hspace : LF ≠ SP := by decide
    have hnumber := LF_notMem_of_isStatus hdigits
    simp only [List.mem_cons, List.not_mem_nil, or_false, not_or] at hnumber
    rw [← hline]
    simp [LF_notMem_versionName hv, hspace, hreason, hnumber]
  have hhandle : HTTPResponse.new.handleFirstLine (overlay mem 0 (line ++ kCRLF))
      (line ++ kCRLF).length = (true, { HTTPResponse.new with
        version := r.version
        statusCode := r.statusCode }) := by
    have hwhole : Remaining (overlay mem 0 (line ++ kCRLF)) (line ++ kCRLF).length 0
        (line ++ LineEnd.crlf.bytes) := Remaining.whole mem (line ++ kCRLF)
    rw [HTTPResponse.new.handleFirstLine_eq hwhole,
      HTTPResponse.readFirstLine_of_denotes _ hdenotes]
  obtain ⟨s, q, hparse, hall, hfirst', hheaders, hbody⟩ :=
    HTTPParser.parse_message HTTPResponse.new mem hnotMem (h.firstLine_fits line hfirst) hhandle
      h.headers h.headers_fit r.body
  refine ⟨_, s, q, ?_, hparse, hall, ?_⟩
  · rw [HTTPResponse.toString, hfirst]
    rfl
  · obtain ⟨hcode', hversion'⟩ := Prod.mk.inj hfirst'
    exact HTTPResponse.ext hcode' hversion' hheaders hbody

/-- The text of a response is defined and read back as the response exactly when the status code is
not `kUseProxy`, which is missing in the table. -/
theorem response_round_trip_iff (r : HTTPResponse) (mem : Nat → UInt8) (h : r.Writable) :
    r.RoundTrips mem ↔ r.statusCode ≠ .kUseProxy := by
  constructor
  · rintro ⟨text, _, _, htext, _⟩ hproxy
    rw [HTTPResponse.toString, HTTPResponse.firstLine, hproxy,
      show statusCodeWithDesc .kUseProxy = none by decide] at htext
    cases hv : versionName r.version with
    | none =>
        rw [hv] at htext
        cases htext
    | some v =>
        rw [hv] at htext
        cases htext
  · intro hproxy
    exact HTTPResponse.roundTrips_of_readsBack h
      ((statusReadsBack_iff r.statusCode h.status).mpr hproxy) mem

/-- A response that is not found. -/
theorem response_round_trip_not_found :
    HTTPResponse.RoundTrips ⟨.kNotFound, .kHTTP10, [⟨bytesOf ['k'], []⟩], [LF]⟩ fun _ => 0 := by
  have hwritable : HTTPHeader.Writable ⟨bytesOf ['k'], []⟩ :=
    ⟨by decide, by decide, by decide, by decide, by decide⟩
  have hresponse : HTTPResponse.Writable ⟨.kNotFound, .kHTTP10, [⟨bytesOf ['k'], []⟩], [LF]⟩ :=
    { status := by decide
      version := by decide
      headers := fun h hh => List.mem_singleton.mp hh ▸ hwritable
      firstLine_fits := by decide
      headers_fit := by decide }
  exact (response_round_trip_iff _ (fun _ => 0) hresponse).mpr (by decide)

/-- A response that tells the client to use a proxy has no text. -/
theorem response_use_proxy_undefined :
    HTTPResponse.Writable ⟨.kUseProxy, .kHTTP11, [], []⟩ ∧
      ¬HTTPResponse.RoundTrips ⟨.kUseProxy, .kHTTP11, [], []⟩ fun _ => 0 := by
  refine ⟨⟨by decide, by decide, nofun, by decide, nofun⟩, ?_⟩
  rintro ⟨text, _, _, htext, _⟩
  have hnone : HTTPResponse.toString ⟨.kUseProxy, .kHTTP11, [], []⟩ = none := by decide
  rw [hnone] at htext
  cases htext

end Iomgr
