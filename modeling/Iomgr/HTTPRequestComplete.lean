import Iomgr.HTTPExchange
import Iomgr.HTTPRoundTrip

/-!
A request that a client writes announces the length of its body once, in a header of its own or in the
one that `ToString` adds, and the server's parser reads the length back. So the exchange of such a
request ends as its two sides expect.
-/

namespace Iomgr

open HTTPParser

/-! ### The length of the body -/

theorem toNat_byteOf_of_isDigit {c : Char} (h : c.isDigit = true) : (byteOf c).toNat = c.toNat := by
  have hbounds := Char.isDigit_iff_toNat.mp h
  have hnine : '9'.toNat = 57 := rfl
  rw [byteOf, UInt8.toNat_ofNat']
  omega

theorem digitsValue_decimal (n : Nat) : digitsValue (decimal n) = n := by
  have hfold : ∀ (cs : List Char) (init : Nat), (∀ c ∈ cs, c.isDigit = true) →
      (bytesOf cs).foldl (fun n d => n * 10 + (d.toNat - 48)) init = Nat.ofDigitChars 10 cs init := by
    intro cs
    induction cs with
    | nil =>
        intro init _
        simp [bytesOf]
    | cons c cs ih =>
        intro init h
        rw [List.forall_mem_cons] at h
        rw [bytesOf, List.map_cons, List.foldl_cons, toNat_byteOf_of_isDigit h.1,
          Nat.ofDigitChars_cons, Nat.mul_comm init 10]
        exact ih _ h.2
  calc digitsValue (decimal n) = Nat.ofDigitChars 10 (Nat.toDigits 10 n) 0 :=
        hfold _ 0 fun c hc => Nat.isDigit_of_mem_toDigits (by decide) (by decide) hc
    _ = n := Nat.ofDigitChars_ten_toDigits

/-- The lines of a message: the first one, the headers, and an empty line. -/
theorem linesFrom_message {first : Bytes} (hfirst : LF ∉ first) {hs : List HTTPHeader}
    (hhs : ∀ h ∈ hs, h.Writable) (body : Bytes) :
    linesFrom [] (first ++ kCRLF ++ hs.flatMap (fun h => h.text ++ kCRLF) ++ kCRLF ++ body) =
      (first ++ kCRLF) :: (hs.map (fun h => h.text ++ kCRLF) ++ kCRLF :: linesFrom [] body) := by
  have hline : ∀ {line : Bytes} (rest : Bytes), LF ∉ line →
      linesFrom [] (line ++ kCRLF ++ rest) = (line ++ kCRLF) :: linesFrom [] rest := by
    intro line rest hnot
    have hcr : LF ∉ line ++ [CR] := by simpa [hnot] using (by decide : LF ≠ CR)
    have hlines := linesFrom_line [] hcr rest
    simpa [kCRLF] using hlines
  have hheaders : linesFrom [] (hs.flatMap (fun h => h.text ++ kCRLF) ++ (kCRLF ++ body)) =
      hs.map (fun h => h.text ++ kCRLF) ++ kCRLF :: linesFrom [] body := by
    induction hs with
    | nil => exact @hline [] body (by simp)
    | cons h hs ih =>
        rw [List.forall_mem_cons] at hhs
        rw [List.flatMap_cons, List.append_assoc, hline _ hhs.1.line, ih hhs.2]
        rfl
  rw [List.append_assoc, List.append_assoc, hline _ hfirst, hheaders]

theorem lineKey_header {h : HTTPHeader} (hh : h.Writable) : lineKey (h.text ++ kCRLF) = h.key := by
  have htext : h.text ++ kCRLF = h.key ++ byteOf ':' :: (SP :: h.value ++ kCRLF) := by
    rw [HTTPHeader.text, List.append_assoc, List.append_assoc]
    rfl
  rw [htext, lineKey_append hh.key_colon]

theorem isBlankLine_header {h : HTTPHeader} (hh : h.Writable) :
    isBlankLine (h.text ++ kCRLF) = false := by
  rw [Bool.eq_false_iff]
  intro hblank
  have hkey := lineKey_header hh
  have hlength := lineKey_length_of_isBlankLine hblank
  rw [hkey, HTTPHeader.text] at hlength
  simp only [List.length_append] at hlength
  have hcolon : (bytesOf [':', ' ']).length = 2 := rfl
  omega

/-- The headers announce the length of the body, once. -/
def HTTPRequest.AnnouncesBody (r : HTTPRequest) : Prop :=
  (r.headers ++ r.generatedHeaders).filter (fun h => decide (kContentLength <+: h.key)) =
    [⟨kContentLength, decimal r.body.length⟩]

theorem announcesLine_header {n : Nat}
    (hfits : ((⟨kContentLength, decimal n⟩ : HTTPHeader).text ++ kCRLF).length ≤ kMaxHeaderLength) :
    AnnouncesLine n ((⟨kContentLength, decimal n⟩ : HTTPHeader).text ++ kCRLF) := by
  have hcolon : byteOf ':' ∉ kContentLength := by decide
  have htext : (⟨kContentLength, decimal n⟩ : HTTPHeader).text ++ kCRLF =
      kContentLength ++ byteOf ':' :: (SP :: decimal n) ++ LineEnd.crlf.bytes := by
    rw [HTTPHeader.text, List.append_assoc]
    rfl
  have hdigits : ∀ b ∈ decimal n, isDigit b = true := fun b => isDigit_of_mem_decimal
  have hvalue : (SP :: decimal n).dropWhile isBlank = decimal n := by
    rw [List.dropWhile_cons_of_pos (by decide),
      dropWhile_isBlank_of_head (head_isBlank_of_isDigit hdigits)]
  refine ⟨hfits, ?_, decimal n, [CR, LF], ?_, ?_, hdigits, digitsValue_decimal n, .inr rfl⟩
  · rw [htext, List.append_assoc, List.cons_append, lineKey_append hcolon]
  · rw [htext, drop_valueStart hcolon, hvalue]
    rfl
  · rw [decimal, bytesOf, ne_eq, List.map_eq_nil_iff]
    exact Nat.toDigits_ne_nil

/-- The text of the request announces the length of the body once, on a line of its own. -/
theorem announcesOnce_message {first : Bytes} (hfirst : LF ∉ first) {hs : List HTTPHeader}
    (hhs : ∀ h ∈ hs, h.Writable) {n : Nat}
    (hfilter : hs.filter (fun h => decide (kContentLength <+: h.key)) =
      [⟨kContentLength, decimal n⟩])
    (hfits : ∀ h ∈ hs, (h.text ++ kCRLF).length ≤ kMaxHeaderLength) (body : Bytes) :
    AnnouncesOnce n (first ++ kCRLF ++ hs.flatMap (fun h => h.text ++ kCRLF) ++ kCRLF ++ body) := by
  have hmem : (⟨kContentLength, decimal n⟩ : HTTPHeader) ∈ hs := by
    have hin : (⟨kContentLength, decimal n⟩ : HTTPHeader) ∈
        hs.filter (fun h => decide (kContentLength <+: h.key)) := hfilter ▸ List.mem_singleton.mpr rfl
    exact (List.mem_filter.mp hin).1
  refine ⟨_, ?_, announcesLine_header (hfits _ hmem)⟩
  have hnotBlank : ∀ line ∈ hs.map (fun h => h.text ++ kCRLF), (!isBlankLine line) = true := by
    intro line hline
    obtain ⟨h, hh, rfl⟩ := List.mem_map.mp hline
    rw [isBlankLine_header (hhs h hh)]
    rfl
  rw [linesFrom_message hfirst hhs, List.drop_one, List.tail_cons,
    List.takeWhile_append_of_pos hnotBlank, List.takeWhile_cons_of_neg (by decide), List.append_nil,
    List.filter_map]
  have hsame : hs.filter ((fun line => decide (kContentLength <+: lineKey line)) ∘
      fun h => h.text ++ kCRLF) = hs.filter (fun h => decide (kContentLength <+: h.key)) := by
    apply List.filter_congr
    intro h hh
    rw [Function.comp_apply, lineKey_header (hhs h hh)]
  rw [hsame, hfilter]
  rfl

/-! ### Requests that are sent -/

/-- The request as the server's parser fills it. -/
def HTTPRequest.received (r : HTTPRequest) : HTTPRequest :=
  { r with headers := r.headers ++ r.generatedHeaders, contentLength := r.body.length }

/-- The server's parser takes the text of the request whole, and has the request with the length of its
body. -/
theorem HTTPRequest.Writable.complete {r : HTTPRequest} (h : r.Writable) (hannounces : r.AnnouncesBody)
    (hbody : r.body.length < 2 ^ 31) (serverLine : Nat → UInt8) :
    ∃ text q, r.toString = some text ∧ HTTPExchange.Complete serverLine text q ∧
      q.reqOrRes = r.received := by
  obtain ⟨m, hm⟩ := methodName_of_ne h.method
  obtain ⟨v, hv⟩ := versionName_of_ne h.version
  obtain ⟨line, hline, hfirst⟩ : ∃ line, m ++ SP :: (r.uri ++ SP :: v) = line ∧
      r.firstLine = some line := by
    refine ⟨_, rfl, ?_⟩
    rw [HTTPRequest.firstLine, hm, hv]
    simp
  have hnotMem : LF ∉ line := by
    have hspace : LF ≠ SP := by decide
    rw [← hline]
    simp [LF_notMem_methodName hm, LF_notMem_versionName hv, h.uri_line, hspace]
  have hhandle : HTTPRequest.new.handleFirstLine (overlay serverLine 0 (line ++ kCRLF))
      (line ++ kCRLF).length = (true, { HTTPRequest.new with
        method := r.method
        uri := r.uri
        version := r.version }) := by
    have hwhole : Remaining (overlay serverLine 0 (line ++ kCRLF)) (line ++ kCRLF).length 0
        (line ++ LineEnd.crlf.bytes) := Remaining.whole serverLine (line ++ kCRLF)
    rw [HTTPRequest.new.handleFirstLine_eq hwhole,
      HTTPRequest.readFirstLine_of_denotes _ ⟨m, v, hm, hv, h.uri_space, hline.symm⟩]
  have hwritable : ∀ x ∈ r.headers ++ r.generatedHeaders, x.Writable := fun x hx =>
    (List.mem_append.mp hx).elim (h.headers x) r.generatedHeaders_writable
  obtain ⟨s, q, hparse, hall, hfirst', hheaders, hbody'⟩ := parse_message HTTPRequest.new serverLine
    hnotMem (h.firstLine_fits line hfirst) hhandle hwritable h.headers_fit r.body
  have hstate : q.parseState = .kParseBody := InternalResponse.recievedAllHeaders_iff.mp hall
  have hannounced := (announcedLength_iff_of_once
    (announcesOnce_message hnotMem hwritable hannounces h.headers_fit r.body) serverLine).mpr hbody
  obtain ⟨hlength, hset⟩ := (announcedLength_eq_some_iff hparse hstate r.body.length).mp hannounced
  have hsame : q.body = r.body := hbody'
  refine ⟨_, q, ?_, ⟨⟨s, hparse⟩, hstate, ?_, hset⟩, ?_⟩
  · rw [HTTPRequest.toString, hfirst]
    rfl
  · rw [hlength, hsame]
  · obtain ⟨hmethod, hrest⟩ := Prod.mk.inj hfirst'
    obtain ⟨huri, hversion⟩ := Prod.mk.inj hrest
    calc q.reqOrRes
        = ⟨q.reqOrRes.method, q.reqOrRes.uri, q.reqOrRes.version, q.reqOrRes.headers,
            q.reqOrRes.contentLength, q.reqOrRes.body⟩ := rfl
      _ = ⟨r.method, r.uri, r.version, r.headers ++ r.generatedHeaders, r.body.length, r.body⟩ := by
          congr 1
      _ = r.received := rfl

namespace HTTPExchange

/-- A request that is written and announces its body, over two streams that are cut anywhere and with
the steps of both sides in any order: the delegate is called once at most, with the request; a client
that is told ok has in its response what the delegate answered to the request. -/
theorem request_answered {r : HTTPRequest} (hr : r.Writable) (hannounces : r.AnnouncesBody)
    (hlength : (r.toString.getD []).length < 2 ^ 31) {delegate : HTTPRequest → HTTPResponse}
    (hwritable : (delegate r.received).Writable)
    (hstatus : (delegate r.received).statusCode ≠ .kUseProxy)
    (hmsg : (responseText delegate r.received).length < 2 ^ 32) {clientLine serverLine : Nat → UInt8}
    {actions : List Action} {s : Exchange}
    (hundisturbed : Transition.Meets (step delegate) Undisturbed
      (start (r.toString.getD []) clientLine serverLine) actions)
    (hrun : Transition.run (step delegate) (start (r.toString.getD []) clientLine serverLine) actions =
      some s) :
    (s.handled = [] ∨ s.handled = [r.received]) ∧
      (.ok ∈ s.client.finished →
        s.handled = [r.received] ∧ s.client.parser.reqOrRes = delegate r.received) := by
  have hbody : r.body.length < 2 ^ 31 := by
    refine Nat.lt_of_le_of_lt ?_ hlength
    cases hfirst : r.firstLine with
    | none =>
        obtain ⟨m, hm⟩ := methodName_of_ne hr.method
        obtain ⟨v, hv⟩ := versionName_of_ne hr.version
        rw [HTTPRequest.firstLine, hm, hv] at hfirst
        cases hfirst
    | some line =>
        have htext : r.toString = some (line ++ kCRLF ++
            (r.headers ++ r.generatedHeaders).flatMap (fun h => h.text ++ kCRLF) ++ kCRLF ++ r.body) := by
          rw [HTTPRequest.toString, hfirst]
          rfl
        rw [htext, Option.getD_some, List.length_append]
        exact Nat.le_add_left _ _
  obtain ⟨text, q, htext, hcomplete, hq⟩ := hr.complete hannounces hbody serverLine
  rw [htext, Option.getD_some] at hlength hundisturbed hrun
  rw [← hq] at hmsg
  obtain ⟨hcalls, hok⟩ := (answered_of_run hlength hcomplete hmsg hundisturbed hrun).answered
  rw [hq] at hcalls hok
  refine ⟨hcalls, fun hdone => ?_⟩
  obtain ⟨hhandled, hreceived, sparse, haccepted⟩ := hok hdone
  obtain ⟨text', s', q', htext', hparse, -, hresponse⟩ := HTTPResponse.roundTrips_of_readsBack hwritable
    ((statusReadsBack_iff _ hwritable.status).mpr hstatus) clientLine
  rw [hreceived, responseText, htext', Option.getD_some, hparse] at haccepted
  refine ⟨hhandled, ?_⟩
  rw [← hresponse]
  exact congrArg (fun result => result.2.2.reqOrRes) haccepted.symm

/-- `GET /` without a header, and a delegate that says `hi`. -/
def hello : HTTPRequest := ⟨.kGet, bytesOf ['/'], .kHTTP11, [], kUnset, []⟩

def sayHi (_ : HTTPRequest) : HTTPResponse := ⟨.kOk, .kHTTP11, [], bytesOf ['h', 'i']⟩

def helloText : Bytes := hello.toString.getD []

def hiText : Bytes := responseText sayHi hello.received

/-- The request in two reads of the server, the response in two of the client. -/
def helloSteps : List Action :=
  [.client (.connectReturns .ok), .client (.write (.write (.value 20))),
    .server (.readReturns (.value (helloText.take 10))), .client (.write (.write (.value 17))),
    .server (.readReturns (.value (helloText.drop 10))), .server (.writeReturns (.value 21)),
    .client (.readReturns (.value (hiText.take 5))), .client (.readReturns (.value (hiText.drop 5))),
    .client (.readReturns (.value []))]

theorem request_answered_hello :
    ∃ s, Transition.run (step sayHi) (start helloText (fun _ => 0) fun _ => 0) helloSteps = some s ∧
      s.handled = [hello.received] ∧ s.client.parser.reqOrRes = sayHi hello.received := by
  obtain ⟨s, hrun, hok⟩ : ∃ s,
      Transition.run (step sayHi) (start helloText (fun _ => 0) fun _ => 0) helloSteps = some s ∧
      .ok ∈ s.client.finished := ⟨_, rfl, by decide +kernel⟩
  have hwritable : hello.Writable :=
    { method := by decide
      version := by decide
      uri_space := by decide
      uri_line := by decide
      headers := fun h hh => by cases hh
      firstLine_fits := by decide
      headers_fit := by decide }
  have hresponse : (sayHi hello.received).Writable :=
    { status := by decide
      version := by decide
      headers := fun h hh => by cases hh
      firstLine_fits := by decide
      headers_fit := fun h hh => by cases hh }
  have hannounces : hello.AnnouncesBody := by
    unfold HTTPRequest.AnnouncesBody
    decide
  exact ⟨s, hrun, (request_answered hwritable hannounces (by decide) hresponse (by decide) (by decide)
    (Transition.meets_of_check (by decide +kernel)) hrun).2 hok⟩

end HTTPExchange

end Iomgr
