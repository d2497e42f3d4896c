import Iomgr.HTTPParserLines
import Iomgr.HTTPResponse
import Iomgr.Reading

/-!
The functions that handle a complete line, read by read. Each is the function of the same name as a
computation over the positions of the line buffer, with the reads where the source has them; a byte
behind the buffer is read where the source reads it, and not used.
-/

namespace Iomgr

/-- A computation over the line buffer. -/
abbrev LineReading (α : Type) : Type := Reading Nat UInt8 α

namespace Traced

open Reading

/-! ### First lines -/

def scanWhile (p : UInt8 → Bool) : Nat → Nat → LineReading Nat
  | 0, cur => pure cur
  | n + 1, cur => do
      let byte ← get cur
      if p byte then scanWhile p n (cur + 1) else pure cur

def bytesFrom : Nat → Nat → LineReading Bytes
  | 0, _ => pure []
  | n + 1, pos => do
      let byte ← get pos
      let bytes ← bytesFrom n (pos + 1)
      pure (byte :: bytes)

def skipPastSpace (endPos cur : Nat) : LineReading Nat := do
  let space ← scanWhile (· != SP) (endPos - cur) cur
  pure (if space = endPos then endPos else space + 1)

def helper (endPos cur : Nat) (ch : Char) : LineReading (Option Nat) :=
  if cur = endPos then pure none
  else do
    let byte ← get cur
    if byte = byteOf ch then pure (some (cur + 1))
    else if cur + 1 = endPos then pure none
    else do
      let byte ← get (cur + 1)
      pure (if byte = byteOf ch then some (cur + 2) else none)

/-- A step for each of some values, as long as they succeed. -/
def each {γ : Type} (step : Nat → γ → LineReading (Option Nat)) :
    List γ → Nat → LineReading (Option Nat)
  | [], cur => pure (some cur)
  | c :: cs, cur => do
      match ← step cur c with
      | none => pure none
      | some cur => each step cs cur

def helperProtocol (endPos cur : Nat) : LineReading (Option Nat) :=
  each (helper endPos) ['H', 'T', 'T', 'P', '/'] cur

def versionNumber (cur : Nat) : LineReading Int := do
  let major ← get cur
  let minor ← get (cur + 2)
  pure ((charValue major - 48) * 10 + (charValue minor - 48))

/-- `HandleFirstLine` for a request. -/
def handleRequestLine (r : HTTPRequest) (endPos : Nat) : LineReading (Bool × HTTPRequest) := do
  let cur ← skipPastSpace endPos 0
  if cur = endPos then pure (false, r)
  else
    let name ← bytesFrom (cur - 1) 0
    match kMethodMap name with
    | none => pure (false, r)
    | some method =>
        let r := { r with method := method }
        let beg := cur
        let cur ← skipPastSpace endPos cur
        if cur = endPos then pure (false, r)
        else
          let uri ← bytesFrom (cur - beg - 1) beg
          let r := { r with uri := uri }
          match ← helperProtocol endPos cur with
          | none => pure (false, r)
          | some cur =>
              let version ← versionNumber cur
              match kVersionMap version with
              | none => pure (false, r)
              | some version => pure (true, { r with version := version })

def statusDigit (endPos cur : Nat) (low : UInt8) : LineReading (Option Nat) :=
  if cur = endPos then pure none
  else do
    let byte ← get cur
    if byte < low then pure none
    else
      let byte ← get cur
      pure (if byte > byteOf '9' then none else some (cur + 1))

def statusNumber (cur : Nat) : LineReading Nat := do
  let hundreds ← get (cur - 3)
  let tens ← get (cur - 2)
  let ones ← get (cur - 1)
  pure (digitValue hundreds * 100 + digitValue tens * 10 + digitValue ones)

def handleStatus (r : HTTPResponse) (endPos cur : Nat) : LineReading (Bool × HTTPResponse) := do
  match ← helper endPos cur ' ' with
  | none => pure (false, r)
  | some cur =>
      match ← each (statusDigit endPos) [byteOf '1', byteOf '0', byteOf '0'] cur with
      | none => pure (false, r)
      | some cur =>
          let status ← statusNumber cur
          let r := { r with statusCode := .ofCode status }
          if cur = endPos then pure (false, r)
          else
            let byte ← get cur
            pure (decide (byte = SP), r)

/-- `HandleFirstLine` for a response. -/
def handleStatusLine (r : HTTPResponse) (endPos : Nat) : LineReading (Bool × HTTPResponse) := do
  match ← helperProtocol endPos 0 with
  | none => pure (false, r)
  | some cur =>
      let version ← versionNumber cur
      match kVersionMap version with
      | none => pure (false, r)
      | some version => handleStatus { r with version := version } endPos (cur + 3)

section

variable (mem : Nat → UInt8)

@[simp] theorem eval_scanWhile (p : UInt8 → Bool) (n cur : Nat) :
    (scanWhile p n cur).eval mem = Iomgr.scanWhile p mem n cur := by
  induction n generalizing cur with
  | zero => rfl
  | succ n ih =>
      rw [scanWhile, Iomgr.scanWhile, eval_bind, eval_get]
      split_ifs
      · exact ih (cur + 1)
      · rfl

@[simp] theorem eval_bytesFrom (n pos : Nat) :
    (bytesFrom n pos).eval mem = Iomgr.bytesFrom mem n pos := by
  induction n generalizing pos with
  | zero => rfl
  | succ n ih =>
      rw [bytesFrom, Iomgr.bytesFrom, eval_bind, eval_bind, ih]
      rfl

@[simp] theorem eval_skipPastSpace (endPos cur : Nat) :
    (skipPastSpace endPos cur).eval mem = Iomgr.skipPastSpace mem endPos cur := by
  rw [skipPastSpace, Iomgr.skipPastSpace, eval_bind, eval_scanWhile]
  rfl

@[simp] theorem eval_helper (endPos cur : Nat) (ch : Char) :
    (helper endPos cur ch).eval mem = Iomgr.helper mem endPos cur ch := by
  unfold helper Iomgr.helper
  rw [eval_ite, eval_bind, eval_get, eval_ite, eval_ite, eval_bind, eval_get]
  rfl

theorem eval_each {γ : Type} {step : Nat → γ → LineReading (Option Nat)}
    {f : Nat → γ → Option Nat} (hstep : ∀ cur c, (step cur c).eval mem = f cur c) (cs : List γ)
    (cur : Nat) : (each step cs cur).eval mem = cs.foldlM f cur := by
  induction cs generalizing cur with
  | nil => rfl
  | cons c cs ih =>
      rw [each, eval_bind, hstep, List.foldlM_cons]
      cases f cur c with
      | none => rfl
      | some next => exact ih next

@[simp] theorem eval_helperProtocol (endPos cur : Nat) :
    (helperProtocol endPos cur).eval mem = Iomgr.helperProtocol mem endPos cur :=
  eval_each mem (eval_helper mem endPos) _ cur

@[simp] theorem eval_versionNumber (cur : Nat) :
    (versionNumber cur).eval mem = Iomgr.versionNumber mem cur := rfl

theorem eval_handleRequestLine (r : HTTPRequest) (endPos : Nat) :
    (handleRequestLine r endPos).eval mem = r.handleFirstLine mem endPos := by
  unfold handleRequestLine HTTPRequest.handleFirstLine
  dsimp only
  rw [eval_bind, eval_skipPastSpace]
  by_cases hname : Iomgr.skipPastSpace mem endPos 0 = endPos
  · rw [if_pos hname, if_pos hname, eval_pure]
  · rw [if_neg hname, if_neg hname, eval_bind, eval_bytesFrom]
    cases kMethodMap (Iomgr.bytesFrom mem (Iomgr.skipPastSpace mem endPos 0 - 1) 0) with
    | none => rfl
    | some method =>
        dsimp only
        rw [eval_bind, eval_skipPastSpace]
        split_ifs
        · rfl
        · rw [eval_bind, eval_bytesFrom, eval_bind, eval_helperProtocol]
          cases Iomgr.helperProtocol mem endPos
              (Iomgr.skipPastSpace mem endPos (Iomgr.skipPastSpace mem endPos 0)) with
          | none => rfl
          | some cur =>
              dsimp only
              rw [eval_bind, eval_versionNumber]
              cases kVersionMap (Iomgr.versionNumber mem cur) with
              | none => rfl
              | some version => rfl

@[simp] theorem eval_statusDigit (endPos cur : Nat) (low : UInt8) :
    (statusDigit endPos cur low).eval mem = Iomgr.statusDigit mem endPos cur low := by
  unfold statusDigit Iomgr.statusDigit
  rw [eval_ite, eval_bind, eval_get, eval_ite, eval_bind, eval_get]
  rfl

@[simp] theorem eval_statusNumber (cur : Nat) :
    (statusNumber cur).eval mem = Iomgr.statusNumber mem cur := rfl

@[simp] theorem eval_handleStatus (r : HTTPResponse) (endPos cur : Nat) :
    (handleStatus r endPos cur).eval mem = r.handleStatus mem endPos cur := by
  unfold handleStatus HTTPResponse.handleStatus
  rw [eval_bind, eval_helper]
  cases Iomgr.helper mem endPos cur ' ' with
  | none => rfl
  | some cur =>
      dsimp only
      rw [eval_bind, eval_each mem (eval_statusDigit mem endPos)]
      cases [byteOf '1', byteOf '0', byteOf '0'].foldlM (Iomgr.statusDigit mem endPos) cur with
      | none => rfl
      | some cur =>
          dsimp only
          rw [eval_bind, eval_statusNumber]
          by_cases hend : cur = endPos
          · rw [if_pos hend, if_pos (Or.inl hend)]
            rfl
          · rw [if_neg hend, eval_bind, eval_get]
            by_cases hspace : mem cur = SP
            · rw [if_neg (by simp [hend, hspace]), decide_eq_true hspace]
              rfl
            · rw [if_pos (Or.inr hspace), decide_eq_false hspace]
              rfl

theorem eval_handleStatusLine (r : HTTPResponse) (endPos : Nat) :
    (handleStatusLine r endPos).eval mem = r.handleFirstLine mem endPos := by
  unfold handleStatusLine HTTPResponse.handleFirstLine
  rw [eval_bind, eval_helperProtocol]
  cases Iomgr.helperProtocol mem endPos 0 with
  | none => rfl
  | some cur =>
      dsimp only
      rw [eval_bind, eval_versionNumber]
      cases kVersionMap (Iomgr.versionNumber mem cur) with
      | none => rfl
      | some version => exact eval_handleStatus mem _ endPos (cur + 3)

end

/-! ### Numbers -/

/-- `scanWhile` without an end of the line; at the end of the storage one byte more is read. -/
def numberWhile (p : UInt8 → Bool) : Nat → Nat → LineReading Nat
  | 0, cur => do
      let _ ← get cur
      pure cur
  | n + 1, cur => do
      let byte ← get cur
      if p byte then numberWhile p n (cur + 1) else pure cur

/-- `strtol` of the line buffer from a position on. -/
def strtol (pos : Nat) : LineReading Int := do
  let cur ← numberWhile isSpace (kMaxHeaderLength - pos) pos
  let byte ← get cur
  let negative := cur < kMaxHeaderLength ∧ byte = byteOf '-'
  let signed := cur < kMaxHeaderLength ∧ (byte = byteOf '-' ∨ byte = byteOf '+')
  let beg := if signed then cur + 1 else cur
  let last ← numberWhile isDigit (kMaxHeaderLength - beg) beg
  let digits ← bytesFrom (last - beg) beg
  let n : Int := digitsValue digits
  pure (if negative then max (-n) (-2 ^ 63) else min n (2 ^ 63 - 1))

def atoi (pos : Nat) : LineReading Int := do
  let n ← strtol pos
  pure (n.bmod (2 ^ 32))

section

variable (mem : Nat → UInt8)

@[simp] theorem eval_numberWhile (p : UInt8 → Bool) (n cur : Nat) :
    (numberWhile p n cur).eval mem = Iomgr.scanWhile p mem n cur := by
  induction n generalizing cur with
  | zero => rfl
  | succ n ih =>
      rw [numberWhile, Iomgr.scanWhile, eval_bind, eval_get]
      split_ifs
      · exact ih (cur + 1)
      · rfl

/-- What a scan passes, and what it leaves. -/
theorem span_bytesFrom (p : UInt8 → Bool) (n pos : Nat) :
    (Iomgr.bytesFrom mem n pos).takeWhile p =
        Iomgr.bytesFrom mem (Iomgr.scanWhile p mem n pos - pos) pos ∧
      (Iomgr.bytesFrom mem n pos).dropWhile p =
        Iomgr.bytesFrom mem (pos + n - Iomgr.scanWhile p mem n pos)
          (Iomgr.scanWhile p mem n pos) := by
  have hsplit := List.takeWhile_append_dropWhile (p := p) (l := Iomgr.bytesFrom mem n pos)
  have hlength := congrArg List.length hsplit
  rw [List.length_append, length_bytesFrom] at hlength
  have hleft : pos + n - (pos + ((Iomgr.bytesFrom mem n pos).takeWhile p).length) =
      ((Iomgr.bytesFrom mem n pos).dropWhile p).length := by omega
  have hbytes : Iomgr.bytesFrom mem n pos =
      Iomgr.bytesFrom mem ((Iomgr.bytesFrom mem n pos).takeWhile p).length pos ++
        Iomgr.bytesFrom mem ((Iomgr.bytesFrom mem n pos).dropWhile p).length
          (pos + ((Iomgr.bytesFrom mem n pos).takeWhile p).length) := by
    rw [← bytesFrom_append, hlength]
  rw [scanWhile_eq, Nat.add_sub_cancel_left, hleft]
  exact List.append_inj (hsplit.trans hbytes) (length_bytesFrom _ _ _).symm

theorem head?_bytesFrom {n pos : Nat} {byte : UInt8} :
    (Iomgr.bytesFrom mem n pos).head? = some byte ↔ 0 < n ∧ mem pos = byte := by
  cases n with
  | zero => simp [Iomgr.bytesFrom]
  | succ n => simp [Iomgr.bytesFrom]

theorem drop_bytesFrom (n pos : Nat) :
    (Iomgr.bytesFrom mem n pos).drop 1 = Iomgr.bytesFrom mem (n - 1) (pos + 1) := by
  cases n with
  | zero => rfl
  | succ n => rfl

@[simp] theorem eval_strtol (pos : Nat) :
    (strtol pos).eval mem = Iomgr.strtol (Iomgr.bytesFrom mem (kMaxHeaderLength - pos) pos) := by
  have hcur : pos ≤ Iomgr.scanWhile isSpace mem (kMaxHeaderLength - pos) pos := by
    rw [scanWhile_eq]
    exact Nat.le_add_right _ _
  unfold strtol Iomgr.strtol
  dsimp only
  rw [eval_bind, eval_numberWhile, eval_bind, eval_get, eval_bind, eval_numberWhile, eval_bind,
    eval_bytesFrom, eval_pure, (span_bytesFrom mem isSpace _ pos).2]
  simp only [head?_bytesFrom, drop_bytesFrom]
  generalize Iomgr.scanWhile isSpace mem (kMaxHeaderLength - pos) pos = cur at hcur ⊢
  have hleft : pos + (kMaxHeaderLength - pos) - cur = kMaxHeaderLength - cur := by omega
  have hroom : 0 < kMaxHeaderLength - cur ↔ cur < kMaxHeaderLength := Nat.sub_pos_iff_lt
  simp only [hleft, hroom, ← and_or_left]
  by_cases hsigned : cur < kMaxHeaderLength ∧ (mem cur = byteOf '-' ∨ mem cur = byteOf '+')
  · rw [if_pos hsigned, if_pos hsigned, (span_bytesFrom mem isDigit _ _).1]
    rfl
  · rw [if_neg hsigned, if_neg hsigned, (span_bytesFrom mem isDigit _ _).1]

@[simp] theorem eval_atoi (pos : Nat) :
    (atoi pos).eval mem = Iomgr.atoi (Iomgr.bytesFrom mem (kMaxHeaderLength - pos) pos) := by
  rw [atoi, Iomgr.atoi, eval_bind, eval_strtol]
  rfl

end

/-! ### Headers -/

/-- A slice of the line buffer. -/
structure Span where
  pos : Nat
  size : Nat

/-- The comparison of the expected key with `size` bytes of the buffer. -/
def matchLength : Bytes → Nat → Nat → LineReading Nat
  | k :: ks, pos, size + 1 => do
      let byte ← get pos
      if byte != k then pure 0
      else
        let rest ← matchLength ks (pos + 1) size
        pure (rest + 1)
  | _, _, _ => pure 0

def announced (contentLength : Nat) (key value : Span) : LineReading Nat :=
  if contentLength = kUnset then do
    let i ← matchLength kContentLength key.pos key.size
    if i = kContentLength.length then
      let n ← atoi value.pos
      pure (sizeOfInt n)
    else pure contentLength
  else pure contentLength

def addRequestHeader (r : HTTPRequest) (key value : Span) : LineReading HTTPRequest := do
  let contentLength ← announced r.contentLength key value
  let keyBytes ← bytesFrom key.size key.pos
  let valueBytes ← bytesFrom value.size value.pos
  pure { r with
    contentLength := contentLength
    headers := r.headers ++ [⟨keyBytes, valueBytes⟩] }

def addResponseHeader (r : HTTPResponse) (key value : Span) : LineReading HTTPResponse := do
  let keyBytes ← bytesFrom key.size key.pos
  let valueBytes ← bytesFrom value.size value.pos
  pure { r with headers := r.headers ++ [⟨keyBytes, valueBytes⟩] }

def Span.slice (mem : Nat → UInt8) (span : Span) : Slice := bufferSlice mem span.pos span.size

section

variable (mem : Nat → UInt8)

theorem toBytes_slice {span : Span} (h : span.pos + span.size ≤ kMaxHeaderLength) :
    (span.slice mem).toBytes = Iomgr.bytesFrom mem span.size span.pos := by
  have hsplit : kMaxHeaderLength - span.pos =
      span.size + (kMaxHeaderLength - span.pos - span.size) := by omega
  rw [Span.slice, Slice.toBytes, bufferSlice, hsplit, bytesFrom_append]
  exact List.take_left' (length_bytesFrom _ _ _)

theorem eval_matchLength (ks : Bytes) (pos size : Nat) :
    (matchLength ks pos size).eval mem = Iomgr.matchLength ks (Iomgr.bytesFrom mem size pos) := by
  induction ks generalizing pos size with
  | nil => cases size <;> rfl
  | cons k ks ih =>
      cases size with
      | zero => rfl
      | succ size =>
          rw [matchLength, Iomgr.bytesFrom, Iomgr.matchLength, eval_bind, eval_get, eval_ite,
            eval_bind, ih]
          rfl

theorem eval_announced (contentLength : Nat) {key : Span} (value : Span)
    (hkey : key.pos + key.size ≤ kMaxHeaderLength) :
    (announced contentLength key value).eval mem =
      HTTPRequest.announced contentLength (key.slice mem) (value.slice mem) := by
  unfold announced HTTPRequest.announced
  rw [toBytes_slice mem hkey]
  by_cases hunset : contentLength = kUnset
  · rw [if_pos hunset, eval_bind, eval_matchLength, eval_ite, eval_bind, eval_atoi]
    simp only [hunset, true_and]
    rfl
  · rw [if_neg hunset, if_neg fun h => hunset h.1, eval_pure]

theorem eval_addRequestHeader (r : HTTPRequest) {key value : Span}
    (hkey : key.pos + key.size ≤ kMaxHeaderLength)
    (hvalue : value.pos + value.size ≤ kMaxHeaderLength) :
    (addRequestHeader r key value).eval mem = r.addHeader (key.slice mem) (value.slice mem) := by
  rw [addRequestHeader, HTTPRequest.addHeader, eval_bind, eval_announced mem _ _ hkey, eval_bind,
    eval_bind, eval_bytesFrom, eval_bytesFrom, toBytes_slice mem hkey, toBytes_slice mem hvalue]
  rfl

theorem eval_addResponseHeader (r : HTTPResponse) {key value : Span}
    (hkey : key.pos + key.size ≤ kMaxHeaderLength)
    (hvalue : value.pos + value.size ≤ kMaxHeaderLength) :
    (addResponseHeader r key value).eval mem = r.addHeader (key.slice mem) (value.slice mem) := by
  rw [addResponseHeader, HTTPResponse.addHeader, eval_bind, eval_bind, eval_bytesFrom,
    eval_bytesFrom, toBytes_slice mem hkey, toBytes_slice mem hvalue]
  rfl

end

end Traced

/-! ### The parser -/

/-- A message whose functions are given read by read. -/
class TracedMessage (T : Type) [HTTPMessage T] where
  handleFirstLine : T → Nat → LineReading (Bool × T)
  addHeader : T → Traced.Span → Traced.Span → LineReading T
  eval_handleFirstLine : ∀ (message : T) (mem : Nat → UInt8) (endPos : Nat),
    (handleFirstLine message endPos).eval mem = HTTPMessage.handleFirstLine message mem endPos
  eval_addHeader : ∀ (message : T) (mem : Nat → UInt8) {key value : Traced.Span},
    key.pos + key.size ≤ kMaxHeaderLength → value.pos + value.size ≤ kMaxHeaderLength →
    (addHeader message key value).eval mem =
      HTTPMessage.addHeader message (key.slice mem) (value.slice mem)

instance : TracedMessage HTTPRequest where
  handleFirstLine := Traced.handleRequestLine
  addHeader := Traced.addRequestHeader
  eval_handleFirstLine r mem endPos := Traced.eval_handleRequestLine mem r endPos
  eval_addHeader r mem := Traced.eval_addRequestHeader mem r

instance : TracedMessage HTTPResponse where
  handleFirstLine := Traced.handleStatusLine
  addHeader := Traced.addResponseHeader
  eval_handleFirstLine r mem endPos := Traced.eval_handleStatusLine mem r endPos
  eval_addHeader r mem := Traced.eval_addResponseHeader mem r

namespace Traced

open Reading

variable {T : Type} [HTTPMessage T] [TracedMessage T]

/-- `AddHeader`, with its result and the message. -/
def addHeader (message : T) (endPos endLength : Nat) : LineReading (Bool × T) := do
  let first ← get 0
  if HTTPParser.isBlank first then pure (false, message)
  else
    let colon ← scanWhile (· != byteOf ':') endPos 0
    if colon = endPos then pure (false, message)
    else
      let cur ← scanWhile HTTPParser.isBlank (endPos - (colon + 1)) (colon + 1)
      let message ← TracedMessage.addHeader message ⟨0, colon⟩ ⟨cur, endPos - cur - endLength⟩
      pure (true, message)

/-- What `FinishLine` does with the message. -/
def finishLine (p : HTTPParser T) : LineReading (Bool × T) :=
  match p.parseState with
  | .kParseFirstLine => TracedMessage.handleFirstLine p.reqOrRes p.curLineLength
  | .kParseHeaders =>
      if p.curLineLength = p.curLineEndLength then pure (true, p.reqOrRes)
      else addHeader p.reqOrRes p.curLineLength p.curLineEndLength
  | .kParseBody => pure (true, p.reqOrRes)

theorem eval_addHeader {p : HTTPParser T} (hfits : p.curLineLength ≤ kMaxHeaderLength) :
    p.addHeader =
      (((addHeader p.reqOrRes p.curLineLength p.curLineEndLength).eval p.curLine).1,
        { p with reqOrRes :=
            ((addHeader p.reqOrRes p.curLineLength p.curLineEndLength).eval p.curLine).2 }) := by
  unfold addHeader HTTPParser.addHeader
  dsimp only
  rw [eval_bind, eval_get]
  by_cases hblank : HTTPParser.isBlank (p.curLine 0) = true
  · rw [if_pos hblank, if_pos hblank, eval_pure]
  · rw [if_neg hblank, if_neg hblank, eval_bind, eval_scanWhile]
    have hcolon := (scanWhile_bounds (· != byteOf ':') p.curLine p.curLineLength 0).2
    generalize Iomgr.scanWhile (· != byteOf ':') p.curLine p.curLineLength 0 = colon at hcolon ⊢
    by_cases hend : colon = p.curLineLength
    · rw [if_pos hend, if_pos hend, eval_pure]
    · have hvalue := (scanWhile_bounds HTTPParser.isBlank p.curLine (p.curLineLength - (colon + 1))
        (colon + 1)).2
      rw [if_neg hend, if_neg hend, eval_bind, eval_scanWhile, eval_bind,
        TracedMessage.eval_addHeader _ _ (by dsimp only; omega) (by dsimp only; omega), eval_pure]
      rfl

end Traced

namespace HTTPParser

variable {T : Type} [HTTPMessage T]

/-- What `FinishLine` does with the parser, given what it does with the message. -/
def finishWith (p : HTTPParser T) : Bool × T → Bool × Bool × HTTPParser T
  | (false, message) => (false, false, { p with reqOrRes := message })
  | (true, message) =>
      match p.parseState with
      | .kParseFirstLine =>
          (true, false,
            { p with reqOrRes := message, parseState := .kParseHeaders, curLineLength := 0 })
      | .kParseHeaders =>
          if p.curLineLength = p.curLineEndLength then
            (true, true, { p with parseState := .kParseBody, curLineLength := 0 })
          else (true, false, { p with reqOrRes := message, curLineLength := 0 })
      | .kParseBody => (true, false, { p with curLineLength := 0 })

/-- `FinishLine`, read by read. -/
theorem finishLine_eq_finishWith [TracedMessage T] {p : HTTPParser T}
    (hfits : p.curLineLength ≤ kMaxHeaderLength) :
    p.finishLine = p.finishWith ((Traced.finishLine p).eval p.curLine) := by
  obtain ⟨message, state, length, endLength, mem⟩ := p
  cases state with
  | kParseFirstLine =>
      rw [finishLine, Traced.finishLine, TracedMessage.eval_handleFirstLine]
      rcases HTTPMessage.handleFirstLine message mem length with ⟨_ | _, message'⟩
      · rfl
      · rfl
  | kParseHeaders =>
      rw [finishLine, Traced.finishLine]
      dsimp only
      by_cases hblank : length = endLength
      · rw [if_pos hblank, if_pos hblank]
        exact (if_pos hblank).symm
      · rw [if_neg hblank, if_neg hblank, Traced.eval_addHeader hfits]
        dsimp only
        rcases (Traced.addHeader message length endLength).eval mem with ⟨_ | _, message'⟩
        · rfl
        · exact (if_neg hblank).symm
  | kParseBody => rfl

end HTTPParser

end Iomgr
