import Iomgr.HTTPContentLength
import Iomgr.HTTPServer

/-!
A request that arrives in several reads. Nothing happens before the read that ends the headers; if
that is not the last one, the count of body bytes never reaches the announced length and the request
is never handed to the delegate.
-/

namespace Iomgr

namespace InternalResponse

theorem handleReadResult_accepted {r : InternalResponse} {bytes : Bytes} (hne : bytes ≠ [])
    {s : Nat} {q : HTTPParser HTTPRequest} (hparse : r.parser.parse bytes = (true, s, q)) :
    r.handleReadResult (.value bytes) =
      respond ⟨q, if s ≠ 0 then bytes.length - s else r.receivedBodyBytes⟩ := by
  have hpos : 0 < bytes.length := List.length_pos_iff.mpr hne
  simp only [handleReadResult, hpos, if_true, hparse]

theorem respond_headers {r : InternalResponse} (h : r.parser.parseState ≠ .kParseBody) :
    r.respond = (true, [], r) := by
  have hall : r.parser.recievedAllHeaders = false := decide_eq_false h
  simp only [respond, hall, Bool.false_eq_true, if_false]

theorem recievedAllHeaders_iff {p : HTTPParser HTTPRequest} :
    p.recievedAllHeaders = true ↔ p.parseState = .kParseBody :=
  decide_eq_true_iff

/-- With complete headers the count decides: too many body bytes, all of them, or some missing. -/
theorem respond_body {r : InternalResponse} (hstate : r.parser.parseState = .kParseBody) :
    ((r.request.contentLength = kUnset ∨ r.request.contentLength < r.receivedBodyBytes) ∧
      r.respond = (false, [.sendResponse .badRequest], r)) ∨
    (r.request.contentLength ≠ kUnset ∧ r.receivedBodyBytes = r.request.contentLength ∧
      r.respond = (false, [.onHTTPRequest r.request, .sendResponse .ofDelegate], r)) ∨
    (r.request.contentLength ≠ kUnset ∧ r.receivedBodyBytes < r.request.contentLength ∧
      r.respond = (true, [], r)) := by
  rw [respond, if_pos (recievedAllHeaders_iff.mpr hstate)]
  split_ifs with hbad hcall
  · exact Or.inl ⟨hbad, rfl⟩
  · rw [not_or] at hbad
    exact Or.inr (Or.inl ⟨hbad.1, hcall, rfl⟩)
  · rw [not_or, Nat.not_lt] at hbad
    exact Or.inr (Or.inr ⟨hbad.1, Nat.lt_of_le_of_ne hbad.2 hcall, rfl⟩)

/-- Once the headers are complete and the count is below the announced length, it stays there. -/
theorem serve_stuck {r : InternalResponse} (hstate : r.parser.parseState = .kParseBody)
    (hset : r.request.contentLength ≠ kUnset)
    (hshort : r.receivedBodyBytes < r.request.contentLength) {chunks : List Bytes}
    (hne : ∀ c ∈ chunks, c ≠ []) : (r.serve chunks).flatten = [] := by
  induction chunks generalizing r with
  | nil => rfl
  | cons c cs ih =>
      rw [List.forall_mem_cons] at hne
      have hparse : r.parser.parse c = (true, 0, r.parser.appendBytes c) :=
        HTTPParser.parseFrom_body hstate 0 c 0
      have hlength := HTTPParser.contentLength_appendBytes r.parser c
      have hset' : (r.parser.appendBytes c).reqOrRes.contentLength ≠ kUnset := hlength ▸ hset
      have hshort' : r.receivedBodyBytes < (r.parser.appendBytes c).reqOrRes.contentLength :=
        hlength ▸ hshort
      have hhandle : r.handleReadResult (.value c) =
          (true, [], ⟨r.parser.appendBytes c, r.receivedBodyBytes⟩) := by
        rw [handleReadResult_accepted hne.1 hparse]
        rcases respond_body (r := ⟨r.parser.appendBytes c, r.receivedBodyBytes⟩) hstate with
          ⟨hbad, _⟩ | ⟨_, hall, _⟩ | ⟨_, _, hshort⟩
        · rcases hbad with hunset | hless
          · exact absurd hunset hset'
          · exact absurd hless (Nat.lt_asymm hshort')
        · exact absurd hall (Nat.ne_of_lt hshort')
        · exact hshort
      simp only [serve, hhandle, List.flatten_cons, List.nil_append]
      exact ih (r := ⟨r.parser.appendBytes c, r.receivedBodyBytes⟩) hstate hset' hshort' hne.2

end InternalResponse

/-- A read before which and in which nothing happens. -/
theorem handledOnce_cons_nil {n : Nat} {body : Bytes} {reads : List (List Output)}
    (hne : reads ≠ []) : HandledOnce (n + 1) body ([] :: reads) ↔ HandledOnce n body reads := by
  have hlast' : ([] :: reads).getLast? = reads.getLast? := by
    rw [List.getLast?_cons, List.getLast?_eq_some_getLast hne]
    rfl
  constructor
  · rintro ⟨hlength, honce, hbad⟩
    rw [hlast'] at honce
    exact ⟨Nat.succ.inj hlength, honce, hbad⟩
  · rintro ⟨hlength, honce, hbad⟩
    refine ⟨congrArg Nat.succ hlength, ?_, hbad⟩
    rw [hlast']
    exact honce

/-- The delegate is not called. -/
theorem not_handledOnce_of_flatten_nil {n : Nat} {body : Bytes} {reads : List (List Output)}
    (h : reads.flatten = []) : ¬HandledOnce n body reads := by
  rintro ⟨_, ⟨request, hcalls, _⟩, _⟩
  rw [h] at hcalls
  cases hcalls

namespace InternalResponse

/-- The read that ends the headers, when more are to come. -/
theorem not_handledOnce_of_more {r : InternalResponse} {c : Bytes} {rest : List Bytes} {s : Nat}
    {q : HTTPParser HTTPRequest} (hparse : r.parser.parse c = (true, s, q)) (hc : c ≠ [])
    (hstate : q.parseState = .kParseBody) (hrest : rest ≠ []) (hne : ∀ c ∈ rest, c ≠ [])
    (body : Bytes) : ¬HandledOnce (rest.length + 1) body (r.serve (c :: rest)) := by
  have hone : ∀ outputs : List Output, ¬HandledOnce (rest.length + 1) body [outputs] := by
    rintro outputs ⟨hlength, _, _⟩
    apply hrest
    rw [← List.length_eq_zero_iff]
    exact (Nat.succ.inj hlength).symm
  rw [serve, handleReadResult_accepted hc hparse]
  generalize (if s ≠ 0 then c.length - s else r.receivedBodyBytes) = received
  rcases respond_body (r := ⟨q, received⟩) hstate with
    ⟨_, heq⟩ | ⟨_, _, heq⟩ | ⟨hset, hshort, heq⟩
  · rw [heq]
    exact hone _
  · rw [heq]
    exact hone _
  · rw [heq]
    exact not_handledOnce_of_flatten_nil (serve_stuck hstate hset hshort hne)

/-- The read that ends the headers, when it is the last one. -/
theorem handledOnce_last {r : InternalResponse} {last : Bytes} {s : Nat}
    {q : HTTPParser HTTPRequest} (hparse : r.parser.parse last = (true, s, q)) (hlast : last ≠ [])
    (hstate : q.parseState = .kParseBody) (hs : s ≠ 0) (hbody : q.body.length = last.length - s) :
    HandledOnce 1 q.body (r.serve [last]) ↔
      q.reqOrRes.contentLength = q.body.length ∧ q.reqOrRes.contentLength ≠ kUnset := by
  rw [serve, handleReadResult_accepted hlast hparse, if_pos hs, ← hbody]
  rcases respond_body (r := ⟨q, q.body.length⟩) hstate with
    ⟨hbad, heq⟩ | ⟨hset, hall, heq⟩ | ⟨_, hshort, heq⟩
  · rw [heq]
    refine iff_of_false (fun h => h.noBadRequest (List.mem_singleton.mpr rfl)) fun h => ?_
    rcases hbad with hunset | hless
    · exact h.2 hunset
    · exact Nat.lt_irrefl _ (h.1 ▸ hless)
  · rw [heq]
    refine iff_of_true ⟨rfl, ⟨q.reqOrRes, rfl, rfl, _, rfl, List.mem_cons_self⟩, ?_⟩
      ⟨hall.symm, hset⟩
    simp
  · rw [heq]
    refine iff_of_false (not_handledOnce_of_flatten_nil rfl) fun h => ?_
    exact Nat.ne_of_lt hshort h.1.symm

/-- How an accepted request fares in several reads, in terms of the parser that has read it all. -/
theorem handledOnce_iff {r : InternalResponse} (hstart : r.parser.parseState ≠ .kParseBody)
    (hempty : r.parser.body = []) {reads : List Bytes} {last : Bytes} (hne : ∀ c ∈ reads, c ≠ [])
    (hlast : last ≠ []) {s : Nat} {q : HTTPParser HTTPRequest}
    (hparse : r.parser.parse (reads.flatten ++ last) = (true, s, q))
    (hall : q.parseState = .kParseBody) :
    HandledOnce (reads.length + 1) q.body (r.serve (reads ++ [last])) ↔
      q.body.length < last.length ∧ q.reqOrRes.contentLength = q.body.length ∧
        q.reqOrRes.contentLength ≠ kUnset := by
  induction reads generalizing r s with
  | nil =>
      rw [List.flatten_nil, List.nil_append] at hparse
      rcases HTTPParser.parseFrom_headers hstart hparse with ⟨hnot, _⟩ | ⟨_, n, hpos, hn, rfl, hbody⟩
      · exact absurd hall hnot
      · have hlength : q.body.length = last.length - (0 + n) := by
          rw [hbody, hempty, List.nil_append, List.length_drop, Nat.zero_add]
        rw [and_iff_right (by omega)]
        exact handledOnce_last hparse hlast hall (by omega) hlength
  | cons c cs ih =>
      rw [List.forall_mem_cons] at hne
      rw [List.flatten_cons, List.append_assoc, HTTPParser.parse, HTTPParser.parseFrom_append]
        at hparse
      split at hparse
      · cases hparse
      · next s' p hchunk =>
          rcases HTTPParser.parseFrom_headers hstart hchunk with
            ⟨hnot, rfl, hbody⟩ | ⟨hstate, n, hpos, hn, rfl, hbody⟩
          -- the headers go on
          · have hrest := HTTPParser.parseFrom_shift p (0 + c.length) (cs.flatten ++ last) 0
            rw [hparse] at hrest
            have hparse' : p.parse (cs.flatten ++ last) =
                (true, (p.parse (cs.flatten ++ last)).2.1, q) :=
              Prod.ext hrest.1.symm (Prod.ext rfl hrest.2.symm)
            have hserve : r.serve (c :: cs ++ [last]) =
                [] :: serve ⟨p, r.receivedBodyBytes⟩ (cs ++ [last]) := by
              simp only [List.cons_append, serve, handleReadResult_accepted hne.1 hchunk]
              rw [respond_headers hnot]
              rfl
            have hcons : serve ⟨p, r.receivedBodyBytes⟩ (cs ++ [last]) ≠ [] := by
              cases cs <;> simp only [List.cons_append, List.nil_append, serve] <;> split <;> simp
            rw [hserve, List.length_cons, handledOnce_cons_nil hcons]
            exact ih (r := ⟨p, r.receivedBodyBytes⟩) hnot (hbody.trans hempty) hne.2 hparse'
          -- the headers end here, and the last read has body bytes only
          · rw [HTTPParser.parseFrom_body hstate] at hparse
            cases hparse
            have hmore : ∀ b ∈ cs ++ [last], b ≠ [] := by
              intro b hb
              rcases List.mem_append.mp hb with hb | hb
              · exact hne.2 b hb
              · rw [List.mem_singleton.mp hb]
                exact hlast
            have hcount : (c :: cs).length + 1 = (cs ++ [last]).length + 1 := by simp
            refine iff_of_false ?_ fun h => ?_
            · rw [List.cons_append, hcount]
              exact not_handledOnce_of_more hchunk hne.1 hstate (by simp) hmore _
            · have hshort := h.1
              rw [HTTPParser.body_appendBytes, List.length_append, List.length_append] at hshort
              omega

/-- An accepted request with its body is handled exactly once, after the last read, if and only if
the last read holds the whole body and the end of the headers, and the request announces the length
of its body. When one plain header announces it, that is so exactly below `2 ^ 31`. -/
theorem request_handled_iff (mem : Nat → UInt8) (reads : List Bytes) (last : Bytes)
    (hne : ∀ c ∈ reads, c ≠ []) (hlast : last ≠ []) (s : Nat) (q : HTTPParser HTTPRequest)
    (hparse : (HTTPParser.new HTTPRequest.new mem).parse (reads.flatten ++ last) = (true, s, q))
    (hall : q.recievedAllHeaders = true) :
    (HandledOnce (reads.length + 1) q.body ((new mem).serve (reads ++ [last])) ↔
      q.body.length < last.length ∧
        HTTPParser.announcedLength mem (reads.flatten ++ last) = some q.body.length) ∧
    (HTTPParser.AnnouncesOnce q.body.length (reads.flatten ++ last) →
      (HandledOnce (reads.length + 1) q.body ((new mem).serve (reads ++ [last])) ↔
        q.body.length < last.length ∧ q.body.length < 2 ^ 31)) := by
  have hstate := recievedAllHeaders_iff.mp hall
  have hiff : HandledOnce (reads.length + 1) q.body ((new mem).serve (reads ++ [last])) ↔
      q.body.length < last.length ∧
        HTTPParser.announcedLength mem (reads.flatten ++ last) = some q.body.length := by
    rw [HTTPParser.announcedLength_eq_some_iff hparse hstate]
    exact handledOnce_iff (r := new mem) (fun h => by cases h) rfl hne hlast hparse hstate
  refine ⟨hiff, fun honce => ?_⟩
  rw [hiff, HTTPParser.announcedLength_iff_of_once honce]

/-- `POST / HTTP/1.1`, `content-length: 2`, the blank line and the first byte of the body. -/
def postStart : Bytes :=
  bytesOf ['P', 'O', 'S', 'T', ' ', '/', ' ', 'H', 'T', 'T', 'P', '/', '1', '.', '1'] ++ [CR, LF] ++
    kContentLength ++ bytesOf [':', ' ', '2'] ++ [CR, LF] ++ [CR, LF] ++ bytesOf ['h']

/-- The parser that has read the whole request. -/
def postParsed : Bool × Nat × HTTPParser HTTPRequest :=
  (HTTPParser.new HTTPRequest.new fun _ => 0).parse (postStart ++ bytesOf ['i'])

/-- The request in three reads, the first cut inside the first line and the second inside the name of
the header. -/
theorem request_handled_cut_header :
    HandledOnce 3 (bytesOf ['h', 'i'])
      ((new fun _ => 0).serve
        [postStart.take 9, (postStart.drop 9).take 11, postStart.drop 20 ++ bytesOf ['i']]) := by
  have hbody : postParsed.2.2.body = bytesOf ['h', 'i'] := by decide
  have hwhole : [postStart.take 9, (postStart.drop 9).take 11].flatten ++
      (postStart.drop 20 ++ bytesOf ['i']) = postStart ++ bytesOf ['i'] := by decide
  have hparse : (HTTPParser.new HTTPRequest.new fun _ => 0).parse
      ([postStart.take 9, (postStart.drop 9).take 11].flatten ++
        (postStart.drop 20 ++ bytesOf ['i'])) = (true, postParsed.2.1, postParsed.2.2) := by
    rw [hwhole]
    exact Prod.ext (by decide) rfl
  have hhandled := request_handled_iff (fun _ => 0) [postStart.take 9, (postStart.drop 9).take 11]
    (postStart.drop 20 ++ bytesOf ['i']) (by decide) (by decide) _ _ hparse (by decide)
  rw [← hbody]
  apply hhandled.1.mpr
  rw [hwhole]
  exact ⟨by decide, by decide⟩

/-- The same request with its body cut in two: the delegate is never called. -/
theorem request_lost_two_reads :
    postParsed.1 = true ∧ postParsed.2.2.recievedAllHeaders = true ∧
    postParsed.2.2.reqOrRes.contentLength = 2 ∧ postParsed.2.2.body = bytesOf ['h', 'i'] ∧
    (new fun _ => 0).serve [postStart, bytesOf ['i']] = [[], []] ∧
    ¬HandledOnce 2 postParsed.2.2.body ((new fun _ => 0).serve [postStart, bytesOf ['i']]) := by
  have hserve : (new fun _ => 0).serve [postStart, bytesOf ['i']] = [[], []] := by decide
  refine ⟨by decide, by decide, by decide, by decide, hserve, ?_⟩
  rw [hserve]
  exact not_handledOnce_of_flatten_nil rfl

end InternalResponse

end Iomgr
