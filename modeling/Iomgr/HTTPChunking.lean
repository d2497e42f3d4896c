import Iomgr.HTTPResponse

/-!
A message that comes in chunks, each in a call of `Parse`, for requests and responses. The state of
the parser carries over a cut wherever it falls, and the one call in which the headers end says where
in its chunk the body starts.
-/

namespace Iomgr.HTTPParser

variable {T : Type} [HTTPMessage T]

/-- The chunks in order, until one is rejected: the verdict, the values of `*start_of_body` after the
calls, and the parser. A call that does not set `*start_of_body` leaves the 0 that was in it. -/
def parseChunks (p : HTTPParser T) : List Bytes → Bool × List Nat × HTTPParser T
  | [] => (true, [], p)
  | chunk :: chunks =>
      match p.parse chunk with
      | (false, start, q) => (false, [start], q)
      | (true, start, q) =>
          let (verdict, starts, q) := q.parseChunks chunks
          (verdict, start :: starts, q)

/-- The verdict and the parser do not depend on the cuts. -/
theorem parseChunks_eq_parse (p : HTTPParser T) (chunks : List Bytes) :
    (p.parseChunks chunks).1 = (p.parse chunks.flatten).1 ∧
      (p.parseChunks chunks).2.2 = (p.parse chunks.flatten).2.2 := by
  induction chunks generalizing p with
  | nil => exact ⟨rfl, rfl⟩
  | cons chunk chunks ih =>
      rw [List.flatten_cons, parse, parseFrom_append, parseChunks, ← parse]
      cases hchunk : p.parse chunk with
      | mk verdict result =>
          obtain ⟨start, q⟩ := result
          cases verdict with
          | false => exact ⟨rfl, rfl⟩
          | true =>
              obtain ⟨hverdict, hparser⟩ := q.parseFrom_shift (0 + chunk.length) chunks.flatten start
              obtain ⟨hverdict', hparser'⟩ := ih q
              exact ⟨hverdict'.trans hverdict.symm, hparser'.trans hparser.symm⟩

theorem parseChunks_body {p : HTTPParser T} (h : p.parseState = .kParseBody) (chunks : List Bytes) :
    p.parseChunks chunks =
      (true, List.replicate chunks.length 0, p.appendBytes chunks.flatten) := by
  induction chunks generalizing p with
  | nil => rfl
  | cons chunk chunks ih =>
      have hstate : (p.appendBytes chunk).parseState = .kParseBody := h
      have happend : (p.appendBytes chunk).appendBytes chunks.flatten =
          p.appendBytes (chunk ++ chunks.flatten) := by
        unfold appendBytes
        rw [List.foldl_append]
      rw [parseChunks, parse, parseFrom_body h]
      dsimp only
      rw [ih hstate, happend]
      rfl

variable [LawfulHTTPMessage T]

/-- A line is rejected outside the body. -/
theorem finishLine_false {p q : HTTPParser T} {found : Bool}
    (h : p.finishLine = (false, found, q)) : q.parseState ≠ .kParseBody := by
  have hheader := p.body_addHeader.2
  unfold finishLine at h
  split at h
  · next hstate =>
      split at h
      · cases h
        show p.parseState ≠ _
        rw [hstate]
        exact ParseState.noConfusion
      · cases h
  · next hstate =>
      split_ifs at h
      · cases h
      · split at h
        · next q' hadd =>
            cases h
            rw [hadd] at hheader
            rw [hheader, hstate]
            exact ParseState.noConfusion
        · cases h
  · cases h

theorem addByte_false {p q : HTTPParser T} {byte : UInt8} {found : Bool}
    (h : p.addByte byte = (false, found, q)) : q.parseState ≠ .kParseBody := by
  by_cases hbody : p.parseState = .kParseBody
  · rw [addByte_body hbody] at h
    cases h
  · have hfinish : (p.store byte).finishIfLine = (false, found, q) → q.parseState ≠ .kParseBody := by
      intro hline
      unfold finishIfLine at hline
      split at hline
      · exact finishLine_false hline
      · cases hline
    unfold addByte at h
    split at h
    · split_ifs at h
      · cases h
        exact hbody
      · exact hfinish h
    · split_ifs at h
      · cases h
        exact hbody
      · exact hfinish h
    · cases h

/-- A message is rejected outside the body. -/
theorem parseFrom_false {p q : HTTPParser T} {i start s : Nat} {bytes : Bytes}
    (h : p.parseFrom i bytes start = (false, s, q)) : q.parseState ≠ .kParseBody := by
  induction bytes generalizing p i start with
  | nil => cases h
  | cons byte bytes ih =>
      rw [parseFrom] at h
      split at h
      · next hadd =>
          cases h
          exact addByte_false hadd
      · exact ih h

/-- One chunk says where the body starts, and the body is the rest of that chunk and the later
chunks. -/
theorem parseChunks_headers {p q : HTTPParser T} (h : p.parseState ≠ .kParseBody)
    {chunks : List Bytes} {verdict : Bool} {starts : List Nat}
    (hparse : p.parseChunks chunks = (verdict, starts, q)) (hall : q.parseState = .kParseBody) :
    ∃ before chunk after start, chunks = before ++ chunk :: after ∧
      starts = List.replicate before.length 0 ++ start :: List.replicate after.length 0 ∧
      0 < start ∧ start ≤ chunk.length ∧
      q.body = p.body ++ (chunk.drop start ++ after.flatten) := by
  induction chunks generalizing p starts with
  | nil =>
      cases hparse
      exact absurd hall h
  | cons chunk chunks ih =>
      rw [parseChunks] at hparse
      split at hparse
      · next start q' hchunk =>
          cases hparse
          exact absurd hall (parseFrom_false hchunk)
      · next start q' hchunk =>
          rcases parseFrom_headers h hchunk with ⟨hstate, rfl, hbody⟩ | ⟨hstate, n, hpos, hn, rfl, hbody⟩
          · cases hrest : q'.parseChunks chunks with
            | mk verdict' result =>
                obtain ⟨starts', q''⟩ := result
                rw [hrest] at hparse
                cases hparse
                obtain ⟨before, chunk', after, start, rfl, rfl, hpos, hle, hbody'⟩ := ih hstate hrest
                exact ⟨chunk :: before, chunk', after, start, rfl, rfl, hpos, hle, by rw [hbody', hbody]⟩
          · rw [parseChunks_body hstate] at hparse
            cases hparse
            refine ⟨[], chunk, chunks, 0 + n, rfl, rfl, by omega, by omega, ?_⟩
            rw [body_appendBytes, hbody, Nat.zero_add, List.append_assoc]

/-- The chunks lead to what the message in one call leads to. When the headers are complete, one call
has set `*start_of_body`, and the body is its chunk from there on and all later chunks. -/
structure ChunksAgree (message : T) (mem : Nat → UInt8) (chunks : List Bytes) : Prop where
  verdict : ((new message mem).parseChunks chunks).1 = ((new message mem).parse chunks.flatten).1
  contents : ((new message mem).parseChunks chunks).2.2.reqOrRes =
    ((new message mem).parse chunks.flatten).2.2.reqOrRes
  allHeaders : ((new message mem).parseChunks chunks).2.2.recievedAllHeaders =
    ((new message mem).parse chunks.flatten).2.2.recievedAllHeaders
  startOfBody : ((new message mem).parseChunks chunks).2.2.recievedAllHeaders = true →
    ∃ before chunk after start, chunks = before ++ chunk :: after ∧
      ((new message mem).parseChunks chunks).2.1 =
        List.replicate before.length 0 ++ start :: List.replicate after.length 0 ∧
      0 < start ∧ start ≤ chunk.length ∧
      ((new message mem).parseChunks chunks).2.2.body = chunk.drop start ++ after.flatten

theorem chunksAgree {message : T} (h : LawfulHTTPMessage.body message = []) (mem : Nat → UInt8)
    (chunks : List Bytes) : ChunksAgree message mem chunks := by
  obtain ⟨hverdict, hparser⟩ := (new message mem).parseChunks_eq_parse chunks
  refine ⟨hverdict, congrArg reqOrRes hparser, congrArg recievedAllHeaders hparser, fun hall => ?_⟩
  have hfresh : (new message mem).parseState ≠ .kParseBody := ParseState.noConfusion
  have hbody : (new message mem).body = [] := h
  obtain ⟨before, chunk, after, start, hchunks, hstarts, hpos, hle, heq⟩ :=
    parseChunks_headers hfresh (Prod.eta _).symm (of_decide_eq_true hall)
  rw [hbody, List.nil_append] at heq
  exact ⟨before, chunk, after, start, hchunks, hstarts, hpos, hle, heq⟩

/-- Parsing does not depend on how a message is cut into chunks, and reports the start of its body. -/
theorem parse_independent_of_chunks (mem : Nat → UInt8) (chunks : List Bytes) :
    ChunksAgree HTTPRequest.new mem chunks ∧ ChunksAgree HTTPResponse.new mem chunks :=
  ⟨chunksAgree rfl mem chunks, chunksAgree rfl mem chunks⟩

end Iomgr.HTTPParser
