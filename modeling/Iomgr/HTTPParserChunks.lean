import Iomgr.HTTPParser

/-!
The parser over a stream that is cut into chunks. Before the end of the headers it never touches the
body, at the end of the headers it says where in its chunk the body starts, and from then on every
byte goes to the body.
-/

namespace Iomgr

/-- A message with a body that grows only by what is appended to it. -/
class LawfulHTTPMessage (T : Type) [HTTPMessage T] where
  body : T → Bytes
  body_handleFirstLine : ∀ (m : T) (mem : Nat → UInt8) (n : Nat),
    body (HTTPMessage.handleFirstLine m mem n).2 = body m
  body_addHeader : ∀ (m : T) (key value : Slice), body (HTTPMessage.addHeader m key value) = body m
  body_appendBody : ∀ (m : T) (b : UInt8), body (HTTPMessage.appendBody m b) = body m ++ [b]

/-- A first line sets the method, the URI and the version, and nothing else. -/
theorem HTTPRequest.handleFirstLine_frame (r : HTTPRequest) (mem : Nat → UInt8) (n : Nat) :
    (r.handleFirstLine mem n).2.body = r.body ∧
      (r.handleFirstLine mem n).2.headers = r.headers ∧
      (r.handleFirstLine mem n).2.contentLength = r.contentLength := by
  unfold HTTPRequest.handleFirstLine
  dsimp only
  repeat' split
  all_goals exact ⟨rfl, rfl, rfl⟩

instance : LawfulHTTPMessage HTTPRequest where
  body := HTTPRequest.body
  body_handleFirstLine r mem n := (r.handleFirstLine_frame mem n).1
  body_addHeader _ _ _ := rfl
  body_appendBody _ _ := rfl

namespace HTTPParser

variable {T : Type}

theorem checkLine_snd (p : HTTPParser T) :
    p.checkLine.2.parseState = p.parseState ∧ p.checkLine.2.reqOrRes = p.reqOrRes := by
  unfold checkLine
  dsimp only
  split_ifs <;> exact ⟨rfl, rfl⟩

variable [HTTPMessage T]

/-- Bytes of the body. -/
def appendBytes (p : HTTPParser T) (bytes : Bytes) : HTTPParser T :=
  { p with reqOrRes := bytes.foldl HTTPMessage.appendBody p.reqOrRes }

theorem contentLength_appendBytes (p : HTTPParser HTTPRequest) (bytes : Bytes) :
    (p.appendBytes bytes).reqOrRes.contentLength = p.reqOrRes.contentLength := by
  induction bytes generalizing p with
  | nil => rfl
  | cons byte bytes ih => exact ih (p.appendBytes [byte])

theorem addByte_body {p : HTTPParser T} (h : p.parseState = .kParseBody) (byte : UInt8) :
    p.addByte byte = (true, false, p.appendBytes [byte]) := by
  unfold addByte
  split
  · next hstate => exact absurd (h.symm.trans hstate) nofun
  · next hstate => exact absurd (h.symm.trans hstate) nofun
  · rfl

theorem parseFrom_body {p : HTTPParser T} (h : p.parseState = .kParseBody) (i : Nat) (bytes : Bytes)
    (start : Nat) : p.parseFrom i bytes start = (true, start, p.appendBytes bytes) := by
  induction bytes generalizing p i with
  | nil => rfl
  | cons byte bytes ih =>
      simp only [parseFrom, addByte_body h]
      exact ih (p := p.appendBytes [byte]) h (i + 1)

theorem parseFrom_append (p : HTTPParser T) (i : Nat) (as bs : Bytes) (start : Nat) :
    p.parseFrom i (as ++ bs) start =
      match p.parseFrom i as start with
      | (false, start, q) => (false, start, q)
      | (true, start, q) => q.parseFrom (i + as.length) bs start := by
  induction as generalizing p i start with
  | nil => rfl
  | cons a as ih =>
      simp only [List.cons_append, parseFrom]
      split
      · rfl
      · rw [ih, List.length_cons, Nat.add_right_comm, Nat.add_assoc]

/-- Where the loop stands decides only where the body is said to start. -/
theorem parseFrom_shift (p : HTTPParser T) (i : Nat) (bytes : Bytes) (start : Nat) :
    (p.parseFrom i bytes start).1 = (p.parse bytes).1 ∧
      (p.parseFrom i bytes start).2.2 = (p.parse bytes).2.2 := by
  suffices h : ∀ (p : HTTPParser T) (i j start start' : Nat),
      (p.parseFrom i bytes start).1 = (p.parseFrom j bytes start').1 ∧
        (p.parseFrom i bytes start).2.2 = (p.parseFrom j bytes start').2.2 from h p i 0 start 0
  intro p i j start start'
  induction bytes generalizing p i j start start' with
  | nil => exact ⟨rfl, rfl⟩
  | cons byte bytes ih =>
      simp only [parseFrom]
      split
      · exact ⟨rfl, rfl⟩
      · exact ih _ _ _ _ _

variable [LawfulHTTPMessage T]

def body (p : HTTPParser T) : Bytes := LawfulHTTPMessage.body p.reqOrRes

theorem body_appendBytes (p : HTTPParser T) (bytes : Bytes) :
    (p.appendBytes bytes).body = p.body ++ bytes := by
  induction bytes generalizing p with
  | nil => simp [appendBytes]
  | cons byte bytes ih =>
      calc (p.appendBytes (byte :: bytes)).body
          = ((p.appendBytes [byte]).appendBytes bytes).body := rfl
        _ = (p.appendBytes [byte]).body ++ bytes := ih _
        _ = (p.body ++ [byte]) ++ bytes := by
            rw [body, appendBytes]
            exact congrArg (· ++ bytes) (LawfulHTTPMessage.body_appendBody _ _)
        _ = p.body ++ byte :: bytes := by simp

theorem body_addHeader (p : HTTPParser T) : p.addHeader.2.body = p.body ∧
    p.addHeader.2.parseState = p.parseState := by
  unfold addHeader
  dsimp only
  split_ifs
  · exact ⟨rfl, rfl⟩
  · exact ⟨rfl, rfl⟩
  · exact ⟨LawfulHTTPMessage.body_addHeader _ _ _, rfl⟩

/-- A finished line leaves the body alone, and finds its start exactly when it ends the headers. -/
theorem finishLine_spec {p : HTTPParser T} (h : p.parseState ≠ .kParseBody) :
    p.finishLine.2.2.body = p.body ∧
      (p.finishLine.2.1 = true ↔ p.finishLine.2.2.parseState = .kParseBody) := by
  unfold finishLine
  split
  · next hstate =>
      have hbody := LawfulHTTPMessage.body_handleFirstLine p.reqOrRes p.curLine p.curLineLength
      split
      · next hline =>
          rw [hline] at hbody
          exact ⟨hbody, by simp [hstate]⟩
      · next hline =>
          rw [hline] at hbody
          exact ⟨hbody, by simp⟩
  · next hstate =>
      have hheader := p.body_addHeader
      split_ifs
      · exact ⟨rfl, by simp⟩
      · split
        · next q hline =>
            rw [hline] at hheader
            have hq : q.parseState = .kParseHeaders := hheader.2.trans hstate
            exact ⟨hheader.1, by simp [hq]⟩
        · next q hline =>
            rw [hline] at hheader
            have hq : q.parseState = .kParseHeaders := hheader.2.trans hstate
            exact ⟨hheader.1, by simp [hq]⟩
  · next hstate => exact absurd hstate h

theorem finishIfLine_spec {p : HTTPParser T} (h : p.parseState ≠ .kParseBody) :
    p.finishIfLine.2.2.body = p.body ∧
      (p.finishIfLine.2.1 = true ↔ p.finishIfLine.2.2.parseState = .kParseBody) := by
  obtain ⟨hstate, hmessage⟩ := p.checkLine_snd
  unfold finishIfLine
  split
  · next q hcheck =>
      rw [hcheck] at hstate hmessage
      obtain ⟨hbody, hfound⟩ := finishLine_spec (p := q) (hstate ▸ h)
      refine ⟨hbody.trans ?_, hfound⟩
      rw [body, hmessage, body]
  · next q hcheck =>
      rw [hcheck] at hstate hmessage
      have hq : q.parseState ≠ .kParseBody := fun hbody => h (hstate.symm.trans hbody)
      refine ⟨?_, by simp [hq]⟩
      rw [body, hmessage, body]

theorem addByte_spec {p : HTTPParser T} (h : p.parseState ≠ .kParseBody) (byte : UInt8) :
    (p.addByte byte).2.2.body = p.body ∧
      ((p.addByte byte).2.1 = true ↔ (p.addByte byte).2.2.parseState = .kParseBody) := by
  have hstored := finishIfLine_spec (p := p.store byte) h
  unfold addByte
  split
  · split_ifs
    · exact ⟨rfl, by simp [h]⟩
    · exact hstored
  · split_ifs
    · exact ⟨rfl, by simp [h]⟩
    · exact hstored
  · next hbody => exact absurd hbody h

/-- A chunk that is accepted before the end of the headers: it does not reach the end, or it
contains it and says where the body starts. -/
theorem parseFrom_headers {p q : HTTPParser T} (h : p.parseState ≠ .kParseBody) {i start s : Nat}
    {bytes : Bytes} (hparse : p.parseFrom i bytes start = (true, s, q)) :
    (q.parseState ≠ .kParseBody ∧ s = start ∧ q.body = p.body) ∨
    (q.parseState = .kParseBody ∧ ∃ n, 0 < n ∧ n ≤ bytes.length ∧ s = i + n ∧
      q.body = p.body ++ bytes.drop n) := by
  induction bytes generalizing p i start with
  | nil =>
      cases hparse
      exact Or.inl ⟨h, rfl, rfl⟩
  | cons byte bytes ih =>
      obtain ⟨hbody, hfound⟩ := addByte_spec h byte
      simp only [parseFrom] at hparse
      split at hparse
      · cases hparse
      · next found p' hadd =>
          rw [hadd] at hbody hfound
          by_cases hstate : p'.parseState = .kParseBody
          · rw [parseFrom_body hstate, if_pos (hfound.mpr hstate)] at hparse
            cases hparse
            refine Or.inr ⟨hstate, 1, Nat.one_pos, by simp, rfl, ?_⟩
            rw [body_appendBytes, List.drop_one, List.tail_cons, hbody]
          · have hnot : ¬found = true := fun hf => hstate (hfound.mp hf)
            rw [if_neg hnot] at hparse
            rcases ih hstate hparse with ⟨hq, hs, hb⟩ | ⟨hq, n, hpos, hn, hs, hb⟩
            · exact Or.inl ⟨hq, hs, hb.trans hbody⟩
            · refine Or.inr ⟨hq, n + 1, Nat.succ_pos n, by simp [hn], by omega, ?_⟩
              rw [List.drop_succ_cons, hb, hbody]

end HTTPParser

end Iomgr
