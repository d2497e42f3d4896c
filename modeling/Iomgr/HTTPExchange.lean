import Iomgr.HTTPClientRequest
import Iomgr.HTTPServerConnection
import Iomgr.HTTPServerReads

/-!
A client's request and the server connection that answers it. What either of them has put on the wire
reaches the other in order, in reads that are cut anywhere, at any time later; a read is empty when the
other side is closed and nothing is left to read. The two sides take their steps in any order.
-/

namespace Iomgr

namespace HTTPExchange

open HTTPServerConnection (Connection)

/-- Both sides, how many bytes of the client's the server has read and how many of the server's the
client has, and the requests the delegate was called with. -/
structure Exchange where
  client : HTTPClientRequest.Request
  server : Connection
  delivered : Nat
  returned : Nat
  handled : List HTTPRequest

inductive Action
  | client (a : HTTPClientRequest.Action)
  | server (a : HTTPServerConnection.Action)
  deriving DecidableEq, Repr

/-- The result of a read that a step of the client uses. -/
def clientRead : HTTPClientRequest.Action → Option (StatusOr Bytes)
  | .readReturns read | .readCompletes read => some read
  | _ => none

def serverRead : HTTPServerConnection.Action → Option (StatusOr Bytes)
  | .readReturns read | .readCompletes read => some read
  | _ => none

/-- What a read can return of a stream of which `taken` bytes have been read: the next bytes, none when
the other side is closed and has sent no more, or an error. -/
def Delivers (stream : Bytes) (closed : Bool) (taken : Nat) : Option (StatusOr Bytes) → Prop
  | some (.value bytes) =>
      bytes <+: stream.drop taken ∧ (bytes = [] → closed = true ∧ stream.length ≤ taken)
  | _ => True

instance (stream : Bytes) (closed : Bool) (taken : Nat) (read : Option (StatusOr Bytes)) :
    Decidable (Delivers stream closed taken read) :=
  match read with
  | some (.value _) => inferInstanceAs (Decidable (_ ∧ _))
  | some (.failed _) => isTrue trivial
  | none => isTrue trivial

def readBytes : Option (StatusOr Bytes) → Bytes
  | some (.value bytes) => bytes
  | _ => []

/-- The calls of the delegate that a read result leads to. -/
def calls (server : Connection) : Option (StatusOr Bytes) → List HTTPRequest
  | some (.value bytes) =>
      (server.internal.handleReadResult (.value bytes)).2.1.filterMap Output.request?
  | _ => []

def start (requestText : Bytes) (clientLine serverLine : Nat → UInt8) : Exchange where
  client := HTTPClientRequest.start requestText clientLine
  server := HTTPServerConnection.start serverLine
  delivered := 0
  returned := 0
  handled := []

/-- The text of the response that the delegate fills for the request. -/
def responseText (delegate : HTTPRequest → HTTPResponse) (request : HTTPRequest) : Bytes :=
  (delegate request).toString.getD []

def step (delegate : HTTPRequest → HTTPResponse) (s : Exchange) : Action → Option Exchange
  | .client a =>
      if Delivers s.server.wire (!s.server.finished.isEmpty) s.returned (clientRead a) then
        (HTTPClientRequest.step s.client a).map fun client =>
          { s with client := client, returned := s.returned + (readBytes (clientRead a)).length }
      else none
  | .server a =>
      if Delivers s.client.writes.wire (!s.client.finished.isEmpty) s.delivered (serverRead a) then
        (HTTPServerConnection.step (responseText delegate) s.server a).map fun server =>
          { s with
            server := server
            delivered := s.delivered + (readBytes (serverRead a)).length
            handled := s.handled ++ calls s.server (serverRead a) }
      else none

/-- The client's writes are never blocked; on the server no read and no write fails, and no write is
deferred. -/
def Undisturbed (s : Exchange) : Action → Prop
  | .client a => HTTPClientRequest.NeverBlocked s.client a
  | .server (.readReturns read) => read.isTryAgain = true ∨ read.status.isOk = true
  | .server (.readCompletes read) => read.isTryAgain = true ∨ read.status.isOk = true
  | .server (.writeReturns write) => write.status.isOk = true
  | .server (.writeCompletes _) => False

instance (s : Exchange) (a : Action) : Decidable (Undisturbed s a) :=
  match a with
  | .client a => inferInstanceAs (Decidable (HTTPClientRequest.NeverBlocked s.client a))
  | .server (.readReturns _) => inferInstanceAs (Decidable (_ ∨ _))
  | .server (.readCompletes _) => inferInstanceAs (Decidable (_ ∨ _))
  | .server (.writeReturns _) => inferInstanceAs (Decidable (_ = _))
  | .server (.writeCompletes _) => isFalse id

/-! ### The server's parser on the beginning of a request -/

/-- The parser takes the whole text, and the request announces the length of its body. -/
structure Complete (serverLine : Nat → UInt8) (text : Bytes) (q : HTTPParser HTTPRequest) : Prop where
  parsed : ∃ s, (HTTPParser.new HTTPRequest.new serverLine).parse text = (true, s, q)
  headers : q.parseState = .kParseBody
  length : q.reqOrRes.contentLength = q.body.length
  set : q.reqOrRes.contentLength ≠ kUnset

/-- The server has read the beginning of the text and waits for more: the headers are not complete, or
were complete in an earlier read whose body bytes were too few. -/
structure Waiting (serverLine : Nat → UInt8) (text : Bytes) (k : Nat) (r : InternalResponse) :
    Prop where
  parsed : ∃ s, (HTTPParser.new HTTPRequest.new serverLine).parse (text.take k) = (true, s, r.parser)
  count : r.parser.parseState = .kParseBody →
    r.request.contentLength ≠ kUnset ∧ r.receivedBodyBytes < r.request.contentLength

section Server

variable {serverLine : Nat → UInt8} {text bytes : Bytes} {k s : Nat} {r : InternalResponse}
  {q p : HTTPParser HTTPRequest}

/-- A read of the next bytes is accepted. -/
theorem Waiting.parse (h : Waiting serverLine text k r) (hq : Complete serverLine text q)
    (hbytes : bytes <+: text.drop k) :
    ∃ s p, r.parser.parse bytes = (true, s, p) ∧
      (∃ s', (HTTPParser.new HTTPRequest.new serverLine).parse (text.take (k + bytes.length)) =
        (true, s', p)) ∧
      (p.parse (text.drop (k + bytes.length))).1 = true ∧
      (p.parse (text.drop (k + bytes.length))).2.2 = q := by
  obtain ⟨s0, h0⟩ := h.parsed
  obtain ⟨s1, h1⟩ := hq.parsed
  obtain ⟨rest, hrest⟩ := hbytes
  have htake : text.take (k + bytes.length) = text.take k ++ bytes := by
    rw [List.take_add, ← hrest, List.take_left]
  have hdrop : text.drop (k + bytes.length) = rest := by
    rw [← List.drop_drop, ← hrest, List.drop_left]
  have htext : text.take k ++ (bytes ++ rest) = text := by
    rw [hrest, List.take_append_drop]
  rw [htake, hdrop]
  have hwhole : (r.parser.parse (bytes ++ rest)).1 = true ∧
      (r.parser.parse (bytes ++ rest)).2.2 = q := by
    obtain ⟨hverdict, hparser⟩ := HTTPParser.parse_append h0 (bytes ++ rest)
    rw [htext, h1] at hverdict hparser
    exact ⟨hverdict.symm, hparser.symm⟩
  have haccepted : (r.parser.parse bytes).1 = true := HTTPParser.parse_append_eq_true hwhole.1
  have hread : r.parser.parse bytes =
      (true, (r.parser.parse bytes).2.1, (r.parser.parse bytes).2.2) := Prod.ext haccepted rfl
  obtain ⟨hverdict, hparser⟩ := HTTPParser.parse_append hread rest
  exact ⟨_, _, hread, HTTPParser.parse_append_of_true h0 hread, hverdict ▸ hwhole.1,
    hparser ▸ hwhole.2⟩

theorem new_not_body : (HTTPParser.new HTTPRequest.new serverLine).parseState ≠ .kParseBody :=
  ParseState.noConfusion

/-- No byte of the body is there before the headers are complete. -/
theorem Waiting.body_eq_nil (h : Waiting serverLine text k r)
    (hstate : r.parser.parseState ≠ .kParseBody) : r.parser.body = [] := by
  obtain ⟨s, hs⟩ := h.parsed
  rcases HTTPParser.parseFrom_headers new_not_body hs with ⟨-, -, hbody⟩ | ⟨hbody, -⟩
  · exact hbody
  · exact absurd hbody hstate

/-- What is left of the text belongs to the body, once the headers are complete. -/
theorem body_rest {p q : HTTPParser HTTPRequest} (hstate : p.parseState = .kParseBody) {rest : Bytes}
    (hrest : (p.parse rest).2.2 = q) :
    q.reqOrRes.contentLength = p.reqOrRes.contentLength ∧ q.body = p.body ++ rest ∧
      (rest = [] → q = p) := by
  have hparse : p.parse rest = (true, 0, p.appendBytes rest) := HTTPParser.parseFrom_body hstate 0 rest 0
  rw [hparse] at hrest
  subst hrest
  refine ⟨HTTPParser.contentLength_appendBytes p rest, HTTPParser.body_appendBytes p rest, ?_⟩
  rintro rfl
  rfl

/-- With the next bytes the server reads on, or hands the whole request to the delegate. -/
theorem Waiting.handleReadResult (h : Waiting serverLine text k r) (hq : Complete serverLine text q)
    (hne : bytes ≠ []) (hbytes : bytes <+: text.drop k) :
    (∃ r', r.handleReadResult (.value bytes) = (true, [], r') ∧
      Waiting serverLine text (k + bytes.length) r') ∨
    ∃ r', r.handleReadResult (.value bytes) =
        (false, [.onHTTPRequest q.reqOrRes, .sendResponse .ofDelegate], r') ∧
      r'.request = q.reqOrRes := by
  obtain ⟨s, p, hread, hparsed, -, hend⟩ := h.parse hq hbytes
  rw [InternalResponse.handleReadResult_accepted hne hread]
  by_cases hp : p.parseState = .kParseBody
  · obtain ⟨hlength, hbody, hlast⟩ := body_rest hp hend
    have hset : p.reqOrRes.contentLength ≠ kUnset := hlength ▸ hq.set
    have htotal : p.reqOrRes.contentLength =
        p.body.length + (text.drop (k + bytes.length)).length := by
      rw [← hlength, hq.length, hbody, List.length_append]
    by_cases hr : r.parser.parseState = .kParseBody
    · -- the count stays as it was
      have hbodyread : r.parser.parse bytes = (true, 0, r.parser.appendBytes bytes) :=
        HTTPParser.parseFrom_body hr 0 bytes 0
      rw [hread] at hbodyread
      cases hbodyread
      have hkept := HTTPParser.contentLength_appendBytes r.parser bytes
      obtain ⟨-, hshort⟩ := h.count hr
      have hshort' : r.receivedBodyBytes < (r.parser.appendBytes bytes).reqOrRes.contentLength :=
        hkept ▸ hshort
      rw [if_neg (by simp)]
      rcases InternalResponse.respond_body (r := ⟨r.parser.appendBytes bytes, r.receivedBodyBytes⟩) hp
        with ⟨hunset | hmore, -⟩ | ⟨-, hall, -⟩ | ⟨-, -, heq⟩
      · exact absurd hunset hset
      · exact absurd hmore (Nat.lt_asymm hshort')
      · exact absurd hall (Nat.ne_of_lt hshort')
      · exact .inl ⟨_, heq, hparsed, fun _ => ⟨hset, hshort'⟩⟩
    · -- the headers end in this read, and the count is what the body has of it
      rcases HTTPParser.parseFrom_headers hr hread with ⟨hnot, -⟩ | ⟨-, n, hpos, hn, rfl, hpbody⟩
      · exact absurd hp hnot
      · have hcount : bytes.length - (0 + n) = p.body.length := by
          rw [hpbody, h.body_eq_nil hr, List.nil_append, List.length_drop, Nat.zero_add]
        rw [if_pos (by omega), hcount]
        rcases InternalResponse.respond_body (r := ⟨p, p.body.length⟩) hp with
          ⟨hunset | hmore, -⟩ | ⟨-, hall, heq⟩ | ⟨-, hshort, heq⟩
        · exact absurd hunset hset
        · change p.reqOrRes.contentLength < p.body.length at hmore
          omega
        · change p.body.length = p.reqOrRes.contentLength at hall
          have hnil : text.drop (k + bytes.length) = [] := List.length_eq_zero_iff.mp (by omega)
          rw [hlast hnil]
          exact .inr ⟨_, heq, rfl⟩
        · exact .inl ⟨_, heq, hparsed, fun _ => ⟨hset, hshort⟩⟩
  · rw [InternalResponse.respond_headers hp]
    exact .inl ⟨_, rfl, hparsed, fun hbody => absurd hbody hp⟩

end Server

/-! ### What a step of one side does -/

section Client

variable {r r' : HTTPClientRequest.Request} {a : HTTPClientRequest.Action}

theorem doWriteLoop_wire (w : HTTPClientWrites.InternalRequest) : w.doWriteLoop.wire = w.wire := by
  unfold HTTPClientWrites.InternalRequest.doWriteLoop
  split_ifs <;> rfl

/-- The write side only adds to the wire. -/
theorem writes_wire {w w' : HTTPClientWrites.InternalRequest} {a : HTTPClientWrites.Action}
    (h : HTTPClientWrites.step w a = some w') : w.wire <+: w'.wire := by
  obtain ⟨loops, ret, rfl, -, -, rfl⟩ | ⟨requested, ret, rfl, -, -, -, rfl⟩ :=
    HTTPClientWrites.step_cases h
  · cases ret with
    | value n =>
        rw [HTTPClientWrites.InternalRequest.writeReturns, doWriteLoop_wire]
        exact List.prefix_append _ _
    | failed failure =>
        rw [HTTPClientWrites.InternalRequest.writeReturns]
        split_ifs
        · rw [doWriteLoop_wire]
        · exact List.prefix_rfl
  · cases ret with
    | value n =>
        rw [HTTPClientWrites.InternalRequest.onWriteCompleted, doWriteLoop_wire]
        exact List.prefix_append _ _
    | failed failure => exact List.prefix_rfl

/-- What a step of the client leaves of the streams. -/
structure ClientStep (r r' : HTTPClientRequest.Request) (read : Option (StatusOr Bytes)) : Prop where
  wire : r.writes.wire <+: r'.writes.wire
  received : r'.received = r.received ++ readBytes read
  eof : r'.eof = true → r.eof = true ∨ read = some (.value [])

theorem clientStep_readResult (r : HTTPClientRequest.Request) (read : StatusOr Bytes) :
    ClientStep r (r.readResult read) (some read) := by
  cases read with
  | failed failure => exact ⟨List.prefix_rfl, (List.append_nil _).symm, .inl⟩
  | value bytes =>
      rw [HTTPClientRequest.Request.readResult, HTTPClientRequest.Request.handleReadResult]
      dsimp only
      by_cases hbytes : 0 < bytes.length
      · rw [if_pos hbytes]
        split
        · exact ⟨List.prefix_rfl, rfl, .inl⟩
        · exact ⟨List.prefix_rfl, rfl, .inl⟩
      · rw [if_neg hbytes]
        have hnil : bytes = [] := List.length_eq_zero_iff.mp (by omega)
        subst hnil
        exact ⟨List.prefix_rfl, rfl, fun _ => .inr rfl⟩

theorem clientStep_step (h : HTTPClientRequest.step r a = some r') :
    ClientStep r r' (clientRead a) := by
  have hconnected : ∀ connect, ClientStep r
      ({ r.access with connect := connect }.doWriteLoop : HTTPClientRequest.Request) none := by
    intro connect
    refine ⟨?_, (List.append_nil _).symm, .inl⟩
    show r.writes.wire <+: r.writes.doWriteLoop.wire
    rw [doWriteLoop_wire]
  cases a with
  | connectReturns status =>
      simp only [HTTPClientRequest.step] at h
      split_ifs at h
      cases h
      rw [HTTPClientRequest.Request.connectReturns]
      split_ifs
      · exact hconnected _
      · exact ⟨List.prefix_rfl, (List.append_nil _).symm, .inl⟩
      · exact ⟨List.prefix_rfl, (List.append_nil _).symm, .inl⟩
  | connectCompletes status =>
      simp only [HTTPClientRequest.step] at h
      split_ifs at h
      cases h
      rw [HTTPClientRequest.Request.onConnectCompleted]
      split_ifs
      · exact hconnected _
      · exact ⟨List.prefix_rfl, (List.append_nil _).symm, .inl⟩
  | write a =>
      obtain ⟨w, hw, rfl⟩ := Option.map_eq_some_iff.mp h
      exact ⟨writes_wire hw, (List.append_nil _).symm, .inl⟩
  | readReturns read =>
      simp only [HTTPClientRequest.step] at h
      split_ifs at h with hloops hagain
      · cases h
        cases read with
        | failed failure => exact ⟨List.prefix_rfl, (List.append_nil _).symm, .inl⟩
        | value bytes => cases hagain
      · cases h
        obtain ⟨hwire, hreceived, heof⟩ :=
          clientStep_readResult { r.access with readLoops := r.readLoops - 1 } read
        exact ⟨hwire, hreceived, heof⟩
  | readCompletes read =>
      simp only [HTTPClientRequest.step] at h
      split_ifs at h
      cases h
      obtain ⟨hwire, hreceived, heof⟩ :=
        clientStep_readResult { r.access with reading := r.reading - 1 } read
      exact ⟨hwire, hreceived, heof⟩

end Client

section Connections

variable {delegate : HTTPRequest → Bytes} {c d : Connection} {a : HTTPServerConnection.Action}

/-- The server only adds to the wire and to its calls of `Finish`. -/
structure Grows (c d : Connection) : Prop where
  wire : c.wire <+: d.wire
  finished : c.finished <+: d.finished

theorem Grows.rfl' : Grows c c := ⟨List.prefix_rfl, List.prefix_rfl⟩

theorem Grows.trans {e : Connection} (h : Grows c d) (h' : Grows d e) : Grows c e :=
  ⟨h.wire.trans h'.wire, h.finished.trans h'.finished⟩

theorem grows_writeLoop (c : Connection) (outgoint : DrainableIOBuffer) :
    Grows c (c.writeLoop outgoint) := by
  unfold Connection.writeLoop
  dsimp only
  split_ifs
  · exact ⟨List.prefix_rfl, List.prefix_rfl⟩
  · exact ⟨List.prefix_rfl, List.prefix_append _ _⟩

theorem grows_transfer (c : Connection) (outgoint : DrainableIOBuffer) (n : Nat) :
    Grows c (c.transfer outgoint n) :=
  ⟨List.prefix_append _ _, List.prefix_rfl⟩

theorem grows_perform (c : Connection) (output : Output) : Grows c (c.perform delegate output) := by
  cases output with
  | onHTTPRequest request => exact ⟨List.prefix_rfl, List.prefix_rfl⟩
  | sendResponse kind =>
      rw [Connection.perform, Connection.sendResponse, Connection.doWriteLoop]
      exact grows_writeLoop c _
  | finish status => exact ⟨List.prefix_rfl, List.prefix_append _ _⟩

theorem grows_handleReadResult (c : Connection) (read : StatusOr Bytes) :
    Grows c (c.handleReadResult delegate read) := by
  have hfold : ∀ (outputs : List Output) (d : Connection),
      Grows d (outputs.foldl (Connection.perform delegate) d) := by
    intro outputs
    induction outputs with
    | nil => exact fun d => Grows.rfl'
    | cons output outputs ih => exact fun d => (grows_perform d output).trans (ih _)
  have hread : c.handleReadResult delegate read = _ := HTTPServerConnection.handleReadResult_eq rfl
  rw [hread]
  have hgrows := hfold (c.internal.handleReadResult read).2.1
    { c.access with internal := (c.internal.handleReadResult read).2.2, control := .idle }
  split_ifs
  · exact ⟨hgrows.wire, hgrows.finished⟩
  · exact ⟨hgrows.wire, hgrows.finished⟩

theorem grows_step (h : HTTPServerConnection.step delegate c a = some d) : Grows c d := by
  obtain ⟨read, rfl, -, -, rfl⟩ | ⟨read, -, -, rfl⟩ | ⟨outgoint, write, rfl, -, -, -, rfl⟩ |
    ⟨outgoint, write, rfl, -, -, -, -, rfl⟩ := HTTPServerConnection.step_cases h
  · exact ⟨List.prefix_rfl, List.prefix_rfl⟩
  · exact grows_handleReadResult c read
  · cases write with
    | value n => exact (grows_transfer c outgoint n).trans (grows_writeLoop _ _)
    | failed failure =>
        rw [Connection.writeReturns]
        split_ifs
        · exact ⟨List.prefix_rfl, List.prefix_rfl⟩
        · have hgrows := grows_writeLoop (c.finish (.failed failure)) outgoint
          exact ⟨hgrows.wire, (List.prefix_append _ _).trans hgrows.finished⟩
  · cases write with
    | value n =>
        rw [Connection.onWriteCompleted, Connection.doWriteLoop]
        exact (grows_transfer c outgoint n).trans (grows_writeLoop _ _)
    | failed failure => exact ⟨List.prefix_rfl, List.prefix_append _ _⟩

/-- The write loop comes to a `Write` or ends, and calls `Finish` with an ok status at most. -/
theorem writeLoop_leaves (c : Connection) (outgoint : DrainableIOBuffer) :
    (c.writeLoop outgoint).control ≠ .read ∧ (c.writeLoop outgoint).control ≠ .reading ∧
      ((∀ status ∈ c.finished, status = .ok) →
        ∀ status ∈ (c.writeLoop outgoint).finished, status = .ok) := by
  unfold Connection.writeLoop
  dsimp only
  split_ifs
  · exact ⟨by simp, by simp, id⟩
  · refine ⟨by simp, by simp, fun hall status hstatus => ?_⟩
    rcases List.mem_append.mp hstatus with hold | hnew
    · exact hall status hold
    · exact List.mem_singleton.mp hnew

/-- A step is possible only before the connection is left to itself. -/
theorem not_idle_of_step (h : HTTPServerConnection.step delegate c a = some d) : c.control ≠ .idle := by
  intro hidle
  obtain ⟨read, -, hread, -, -⟩ | ⟨read, hread, -, -⟩ | ⟨outgoint, write, -, hwrite, -⟩ |
    ⟨outgoint, write, -, hwriting, -⟩ := HTTPServerConnection.step_cases h
  · simp [hidle] at hread
  · rcases hread with ⟨-, hread⟩ | ⟨-, hread⟩ <;> simp [hidle] at hread
  · simp [hidle] at hwrite
  · simp [hidle] at hwriting

end Connections

/-! ### The two sides together -/

section Together

variable {delegate : HTTPRequest → HTTPResponse} {text : Bytes} {clientLine serverLine : Nat → UInt8}
  {q : HTTPParser HTTPRequest} {s t : Exchange}

/-- The server is reading, and has done nothing else. -/
structure Reading (serverLine : Nat → UInt8) (text : Bytes) (s : Exchange) : Prop where
  control : s.server.control = .read ∨ s.server.control = .reading
  wire : s.server.wire = []
  handled : s.handled = []
  waiting : Waiting serverLine text s.delivered s.server.internal

/-- The server writes the response to the request, or has written it. -/
structure Answering (delegate : HTTPRequest → HTTPResponse) (request : HTTPRequest) (s : Exchange) :
    Prop where
  handled : s.handled = [request]
  sending : HTTPServerConnection.Sending (responseText delegate request) s.server
  finished : ∀ status ∈ s.server.finished, status = .ok

/-- The server does not read any more, without a request, since the client has given up. -/
structure Abandoned (s : Exchange) : Prop where
  control : s.server.control ≠ .read ∧ s.server.control ≠ .reading
  handled : s.handled = []
  ended : s.client.finished ≠ []
  failed : .ok ∉ s.client.finished

/-- What holds at all times, whoever takes the next step. -/
structure Inv (delegate : HTTPRequest → HTTPResponse) (text : Bytes)
    (clientLine serverLine : Nat → UInt8) (q : HTTPParser HTTPRequest) (s : Exchange) : Prop where
  client : HTTPClientRequest.Running text clientLine s.client ∨
    HTTPClientRequest.Ended text clientLine s.client
  proper : HTTPServerConnection.Proper s.server
  delivered : s.delivered ≤ s.client.writes.wire.length
  received : s.client.received = s.server.wire.take s.returned
  returned : s.returned ≤ s.server.wire.length
  eof : s.client.eof = true → s.server.finished ≠ [] ∧ s.server.wire.length ≤ s.returned
  server : Reading serverLine text s ∨ Answering delegate q.reqOrRes s ∨ Abandoned s

theorem inv_start (q : HTTPParser HTTPRequest) : Inv delegate text clientLine serverLine q
    (start text clientLine serverLine) where
  client := .inl (HTTPClientRequest.running_start text clientLine)
  proper := HTTPServerConnection.proper_start serverLine
  delivered := Nat.zero_le _
  received := rfl
  returned := Nat.zero_le _
  eof h := by cases h
  server := .inl ⟨.inl rfl, rfl, rfl, ⟨0, rfl⟩, fun h => by cases h⟩

theorem client_wire (h : HTTPClientRequest.Running text clientLine s.client ∨
    HTTPClientRequest.Ended text clientLine s.client) : s.client.writes.wire <+: text := by
  rcases h with h | h
  · by_cases hconnect : s.client.connect = .done
    · exact (h.after hconnect).1.sent.isPrefix
    · rw [h.before hconnect]
      exact List.nil_prefix
  · exact h.wire

theorem take_append_of_next {wire bytes : Bytes} {k : Nat} (h : bytes <+: wire.drop k) :
    wire.take k ++ bytes = wire.take (k + bytes.length) := by
  obtain ⟨rest, hrest⟩ := h
  rw [List.take_add, ← hrest, List.take_left]

theorem length_le_of_next {wire bytes : Bytes} {k : Nat} (hk : k ≤ wire.length)
    (h : bytes <+: wire.drop k) : k + bytes.length ≤ wire.length := by
  have hle := h.length_le
  rw [List.length_drop] at hle
  omega

theorem take_of_wire_le {wire wire' : Bytes} (h : wire <+: wire') {k : Nat} (hk : k ≤ wire.length) :
    wire'.take k = wire.take k := by
  obtain ⟨rest, rfl⟩ := h
  exact List.take_append_of_le_length hk

/-- What a read delivers is a piece of the stream. -/
theorem readBytes_isPrefix {stream : Bytes} {closed : Bool} {taken : Nat} {read : Option (StatusOr Bytes)}
    (h : Delivers stream closed taken read) : readBytes read <+: stream.drop taken := by
  rcases read with - | ret
  · exact List.nil_prefix
  · cases ret with
    | value bytes => exact h.1
    | failed failure => exact List.nil_prefix

/-- A client that has ended stays as it is. -/
theorem client_finished (hclient : HTTPClientRequest.Running text clientLine s.client ∨
      HTTPClientRequest.Ended text clientLine s.client) {a : HTTPClientRequest.Action}
    {client : HTTPClientRequest.Request} (hstep : HTTPClientRequest.step s.client a = some client) :
    s.client.finished = [] := by
  rcases hclient with h | h
  · exact h.finished
  · rw [h.step_eq_none a] at hstep
    cases hstep

theorem inv_client (hlength : text.length < 2 ^ 31) (h : Inv delegate text clientLine serverLine q s)
    {a : HTTPClientRequest.Action} (hblock : HTTPClientRequest.NeverBlocked s.client a)
    (hstep : step delegate s (.client a) = some t) : Inv delegate text clientLine serverLine q t := by
  simp only [step] at hstep
  split_ifs at hstep with hdelivers
  obtain ⟨client, hclient, rfl⟩ := Option.map_eq_some_iff.mp hstep
  obtain ⟨hwire, hreceived, heof⟩ := clientStep_step hclient
  have hbytes := readBytes_isPrefix hdelivers
  have hfinished := client_finished h.client hclient
  refine ⟨HTTPClientRequest.running_or_ended_step hlength _ _ _ h.client hblock hclient, h.proper,
    h.delivered.trans hwire.length_le, ?_, length_le_of_next h.returned hbytes, ?_, ?_⟩
  · rw [hreceived, h.received, take_append_of_next hbytes]
  · intro hempty
    rcases heof hempty with hold | hread
    · obtain ⟨hended, hall⟩ := h.eof hold
      exact ⟨hended, hall.trans (Nat.le_add_right _ _)⟩
    · rw [hread] at hdelivers ⊢
      obtain ⟨hclosed, hall⟩ := hdelivers.2 rfl
      exact ⟨by simpa using hclosed, hall.trans (Nat.le_add_right _ _)⟩
  · rcases h.server with hreading | hanswering | habandoned
    · exact .inl ⟨hreading.control, hreading.wire, hreading.handled, hreading.waiting⟩
    · exact .inr (.inl ⟨hanswering.handled, hanswering.sending, hanswering.finished⟩)
    · exact absurd hfinished habandoned.ended

/-- The client that has closed while the server still reads has failed. -/
theorem failed_of_reading (h : Inv delegate text clientLine serverLine q s)
    (hfinished : s.server.finished = []) : .ok ∉ s.client.finished := by
  intro hok
  rcases h.client with hclient | hclient
  · rw [hclient.finished] at hok
    cases hok
  · obtain ⟨status, hstatus, -, hfailed⟩ := hclient.once
    have heof : s.client.eof = false := by
      rw [Bool.eq_false_iff]
      exact fun heof => (h.eof heof).1 hfinished
    rw [hstatus, List.mem_singleton] at hok
    subst hok
    cases hfailed heof

/-- The control of a connection that sends. -/
theorem Answering.control {request : HTTPRequest} (h : Answering delegate request s) :
    s.server.control ≠ .read ∧ s.server.control ≠ .reading := by
  rcases h.sending.2 with hidle | ⟨hwrite | hwriting, -⟩
  · simp [hidle]
  · simp [hwrite]
  · simp [hwriting]

/-- The server gets the next bytes while it reads. -/
theorem inv_server_read (hq : Complete serverLine text q)
    (hmsg : (responseText delegate q.reqOrRes).length < 2 ^ 32)
    (h : Inv delegate text clientLine serverLine q s) (hreading : Reading serverLine text s)
    (huntouched : HTTPServerConnection.Untouched s.server) {bytes : Bytes}
    (hdelivers : Delivers s.client.writes.wire (!s.client.finished.isEmpty) s.delivered
      (some (.value bytes)))
    (hclient : t.client = s.client)
    (hserver : t.server = s.server.handleReadResult (responseText delegate) (.value bytes))
    (hdelivered : t.delivered = s.delivered + bytes.length)
    (hhandled : t.handled = s.handled ++ calls s.server (some (.value bytes))) :
    Reading serverLine text t ∨ Answering delegate q.reqOrRes t ∨ Abandoned t := by
  rw [hreading.handled, List.nil_append] at hhandled
  by_cases hne : bytes = []
  · -- the client is closed
    subst hne
    obtain ⟨hclosed, -⟩ := hdelivers.2 rfl
    have hended : s.client.finished ≠ [] := by simpa using hclosed
    have hresult : s.server.internal.handleReadResult (.value []) =
        (false, [.sendResponse .badRequest], s.server.internal) := rfl
    rw [HTTPServerConnection.handleReadResult_eq hresult, if_neg Bool.false_ne_true, List.foldl_cons,
      List.foldl_nil, Connection.perform, Connection.sendResponse, Connection.doWriteLoop] at hserver
    rw [calls, hresult] at hhandled
    refine .inr (.inr ⟨?_, hhandled, hclient ▸ hended, ?_⟩)
    · rw [hserver]
      have hleaves := writeLoop_leaves
        { s.server.access with internal := s.server.internal, control := .idle }
      exact ⟨(hleaves _).1, (hleaves _).2.1⟩
    · rw [hclient]
      exact failed_of_reading h huntouched.2
  · have hnext : bytes <+: text.drop s.delivered := by
      obtain ⟨rest, hrest⟩ := client_wire h.client
      refine hdelivers.1.trans ?_
      rw [← hrest, List.drop_append_of_le_length h.delivered]
      exact List.prefix_append _ _
    rcases hreading.waiting.handleReadResult hq hne hnext with ⟨r', hresult, hwaiting⟩ |
      ⟨r', hresult, hrequest⟩
    · rw [HTTPServerConnection.handleReadResult_eq hresult, if_pos rfl, List.foldl_nil] at hserver
      rw [calls, hresult] at hhandled
      refine .inl ⟨?_, ?_, hhandled, ?_⟩
      · rw [hserver]
        exact .inl rfl
      · rw [hserver]
        exact hreading.wire
      · rw [hserver, hdelivered]
        exact hwaiting
    · rw [HTTPServerConnection.handleReadResult_eq hresult, if_neg Bool.false_ne_true, List.foldl_cons,
        List.foldl_cons, List.foldl_nil, Connection.perform, Connection.perform,
        Connection.responseText] at hserver
      rw [calls, hresult] at hhandled
      have htext : responseText delegate r'.request = responseText delegate q.reqOrRes := by
        rw [hrequest]
      refine .inr (.inl ⟨hhandled, ?_, ?_⟩)
      · rw [hserver, ← htext]
        exact HTTPServerConnection.sending_sendResponse (htext ▸ hmsg) hreading.wire huntouched.2
      · rw [hserver, Connection.sendResponse, Connection.doWriteLoop]
        refine (writeLoop_leaves _ _).2.2 fun status hstatus => ?_
        have hnone : status ∈ s.server.finished := hstatus
        rw [huntouched.2] at hnone
        cases hnone

/-- What a step of the server leaves of the three phases. -/
theorem server_phase (hq : Complete serverLine text q)
    (hmsg : (responseText delegate q.reqOrRes).length < 2 ^ 32)
    (h : Inv delegate text clientLine serverLine q s) {a : HTTPServerConnection.Action}
    (hundisturbed : Undisturbed s (.server a)) {server : Connection}
    (hstep : HTTPServerConnection.step (responseText delegate) s.server a = some server)
    (hdelivers : Delivers s.client.writes.wire (!s.client.finished.isEmpty) s.delivered (serverRead a))
    (hclient : t.client = s.client) (hserver : t.server = server)
    (hdelivered : t.delivered = s.delivered + (readBytes (serverRead a)).length)
    (hhandled : t.handled = s.handled ++ calls s.server (serverRead a)) :
    Reading serverLine text t ∨ Answering delegate q.reqOrRes t ∨ Abandoned t := by
  have huntouched := h.proper.untouched (not_idle_of_step hstep)
  have hreads : s.server.control = .read ∨ s.server.control = .reading →
      Reading serverLine text s := by
    intro hcontrol
    rcases h.server with hreading | hanswering | habandoned
    · exact hreading
    · exact (hcontrol.elim hanswering.control.1 hanswering.control.2).elim
    · exact (hcontrol.elim habandoned.control.1 habandoned.control.2).elim
  obtain ⟨read, rfl, hread, hagain, rfl⟩ | ⟨read, hread, hagain, rfl⟩ |
    ⟨outgoint, write, rfl, hwrite, hout, htransferred, rfl⟩ | ⟨outgoint, write, rfl, -⟩ :=
    HTTPServerConnection.step_cases hstep
  · -- the read is deferred
    have hreading := hreads (.inl hread)
    cases read with
    | value bytes => cases hagain
    | failed failure =>
        rw [show calls s.server (serverRead (.readReturns (.failed failure))) = [] from rfl,
          List.append_nil] at hhandled
        have hsame : t.delivered = s.delivered := hdelivered
        refine .inl ⟨.inr (by rw [hserver]), ?_, hhandled.trans hreading.handled, ?_⟩
        · rw [hserver]
          exact hreading.wire
        · rw [hserver, hsame]
          exact hreading.waiting
  · have hreading : Reading serverLine text s := by
      rcases hread with ⟨-, hread⟩ | ⟨-, hread⟩
      · exact hreads (.inl hread)
      · exact hreads (.inr hread)
    have hsome : serverRead a = some read := by
      rcases hread with ⟨rfl, -⟩ | ⟨rfl, -⟩ <;> rfl
    obtain ⟨bytes, rfl⟩ : ∃ bytes, read = .value bytes := by
      rcases hread with ⟨rfl, -⟩ | ⟨rfl, -⟩
      · exact HTTPServerConnection.isOk_or_of_not_tryAgain hundisturbed hagain
      · exact HTTPServerConnection.isOk_or_of_not_tryAgain hundisturbed hagain
    rw [hsome] at hdelivers hdelivered hhandled
    exact inv_server_read hq hmsg h hreading huntouched hdelivers hclient hserver hdelivered hhandled
  · -- a write returns
    rw [show calls s.server (serverRead (.writeReturns write)) = [] from rfl, List.append_nil] at hhandled
    cases write with
    | failed failure => cases hundisturbed
    | value n =>
        rw [Connection.writeReturns] at hserver
        have hleaves := writeLoop_leaves (s.server.transfer outgoint n) (outgoint.didConsume n)
        rcases h.server with hreading | hanswering | habandoned
        · rcases hreading.control with hcontrol | hcontrol
          · simp [hwrite] at hcontrol
          · simp [hwrite] at hcontrol
        · refine .inr (.inl ⟨hhandled.trans hanswering.handled, ?_, ?_⟩)
          · have hnone : HTTPServerConnection.NoneDeferred s.server (.writeReturns (.value n)) := trivial
            rw [hserver]
            exact HTTPServerConnection.sending_step hmsg hanswering.sending hnone hstep
          · rw [hserver]
            exact hleaves.2.2 hanswering.finished
        · refine .inr (.inr ⟨?_, hhandled.trans habandoned.handled, ?_, ?_⟩)
          · rw [hserver]
            exact ⟨hleaves.1, hleaves.2.1⟩
          · rw [hclient]
            exact habandoned.ended
          · rw [hclient]
            exact habandoned.failed
  · exact hundisturbed.elim

theorem noneFailed_of_undisturbed {a : HTTPServerConnection.Action}
    (h : Undisturbed s (.server a)) : HTTPServerConnection.NoneFailed s.server a := by
  cases a with
  | readReturns read => exact h
  | readCompletes read => exact h
  | writeReturns write => exact .inr h
  | writeCompletes write => exact trivial

theorem inv_server (hq : Complete serverLine text q)
    (hmsg : (responseText delegate q.reqOrRes).length < 2 ^ 32)
    (h : Inv delegate text clientLine serverLine q s) {a : HTTPServerConnection.Action}
    (hundisturbed : Undisturbed s (.server a)) (hstep : step delegate s (.server a) = some t) :
    Inv delegate text clientLine serverLine q t := by
  simp only [step] at hstep
  split_ifs at hstep with hdelivers
  obtain ⟨server, hserver, rfl⟩ := Option.map_eq_some_iff.mp hstep
  have hgrows := grows_step hserver
  have huntouched := h.proper.untouched (not_idle_of_step hserver)
  have hbytes := readBytes_isPrefix hdelivers
  refine ⟨h.client, ?_, length_le_of_next h.delivered hbytes, ?_,
    h.returned.trans hgrows.wire.length_le, ?_, ?_⟩
  · exact HTTPServerConnection.proper_step h.proper (noneFailed_of_undisturbed hundisturbed) hserver
  · rw [h.received]
    exact (take_of_wire_le hgrows.wire h.returned).symm
  · intro heof
    exact absurd huntouched.2 (h.eof heof).1
  · exact server_phase hq hmsg h hundisturbed hserver hdelivers rfl rfl rfl rfl

/-- What holds of the two sides at the end: the delegate is called once at most, with the request, and
a client that is told ok has read the whole response to it. -/
theorem Inv.answered (h : Inv delegate text clientLine serverLine q s) :
    (s.handled = [] ∨ s.handled = [q.reqOrRes]) ∧
      (.ok ∈ s.client.finished → s.handled = [q.reqOrRes] ∧
        s.client.received = responseText delegate q.reqOrRes ∧
        HTTPClientRequest.Accepted clientLine s.client) := by
  constructor
  · rcases h.server with hreading | hanswering | habandoned
    · exact .inl hreading.handled
    · exact .inr hanswering.handled
    · exact .inl habandoned.handled
  · intro hok
    have hended : HTTPClientRequest.Ended text clientLine s.client := by
      rcases h.client with hclient | hclient
      · rw [hclient.finished] at hok
        cases hok
      · exact hclient
    obtain ⟨status, hstatus, hend, hfailed⟩ := hended.once
    rw [hstatus, List.mem_singleton] at hok
    subst hok
    have heof : s.client.eof = true := by
      by_contra hnot
      cases hfailed (Bool.eq_false_iff.mpr hnot)
    obtain ⟨-, haccepted, -⟩ := hend heof
    obtain ⟨hfinished, hall⟩ := h.eof heof
    rcases h.server with hreading | hanswering | habandoned
    · have hidle : s.server.control ≠ .idle := by
        rcases hreading.control with hcontrol | hcontrol
        · simp [hcontrol]
        · simp [hcontrol]
      exact absurd (h.proper.untouched hidle).2 hfinished
    · obtain ⟨first, rest, hfirst⟩ := List.exists_cons_of_ne_nil hfinished
      have hdone : .ok ∈ s.server.finished := by
        have hmem : first ∈ s.server.finished := hfirst ▸ List.mem_cons_self
        exact hanswering.finished first hmem ▸ hmem
      refine ⟨hanswering.handled, ?_, haccepted⟩
      rw [h.received, List.take_of_length_le hall]
      exact hanswering.sending.1.2 hdone
    · exact absurd (hstatus ▸ List.mem_singleton.mpr rfl) habandoned.failed

end Together

/-- For every text that the server's parser takes whole, in every order of the steps and with reads cut
anywhere. -/
theorem answered_of_run {delegate : HTTPRequest → HTTPResponse} {text : Bytes}
    {clientLine serverLine : Nat → UInt8} {q : HTTPParser HTTPRequest}
    (hlength : text.length < 2 ^ 31) (hq : Complete serverLine text q)
    (hmsg : (responseText delegate q.reqOrRes).length < 2 ^ 32) {actions : List Action} {s : Exchange}
    (hundisturbed : Transition.Meets (step delegate) Undisturbed (start text clientLine serverLine)
      actions)
    (hrun : Transition.run (step delegate) (start text clientLine serverLine) actions = some s) :
    Inv delegate text clientLine serverLine q s := by
  have hkeep : ∀ s a t, Inv delegate text clientLine serverLine q s → Undisturbed s a →
      step delegate s a = some t → Inv delegate text clientLine serverLine q t := by
    intro s a t h hundisturbed hstep
    cases a with
    | client a => exact inv_client hlength h hundisturbed hstep
    | server a => exact inv_server hq hmsg h hundisturbed hstep
  exact Transition.run_invariant_of_meets hkeep (inv_start q) hundisturbed hrun

end HTTPExchange

end Iomgr
