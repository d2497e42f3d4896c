import Iomgr.HTTPRequest

/-!
The HTTP parser, fed byte by byte. The line buffer is not initialised and is not cleared between
lines, so that its content is part of the state; what lies behind its end is part of it too, as far
as a first line is concerned. The loops of the source are counted by the bytes that are left.
-/

namespace Iomgr

def kMaxHeaderLength : Nat := 4096

/-- The bytes of a buffer, `n` of them from a position on. -/
def bytesFrom (mem : Nat → UInt8) : Nat → Nat → Bytes
  | 0, _ => []
  | n + 1, pos => mem pos :: bytesFrom mem n (pos + 1)

/-- A slice of the line buffer; its storage ends with the buffer. -/
def bufferSlice (mem : Nat → UInt8) (pos size : Nat) : Slice :=
  ⟨bytesFrom mem (kMaxHeaderLength - pos) pos, size⟩

/-- `while (cur != end && p(*cur)) ++cur`, with `end - cur` bytes left. -/
def scanWhile (p : UInt8 → Bool) (mem : Nat → UInt8) : Nat → Nat → Nat
  | 0, cur => cur
  | n + 1, cur => if p (mem cur) then scanWhile p mem n (cur + 1) else cur

/-- `while (cur != end && *cur++ != ' ')`. -/
def skipPastSpace (mem : Nat → UInt8) (endPos cur : Nat) : Nat :=
  let space := scanWhile (· != SP) mem (endPos - cur) cur
  if space = endPos then endPos else space + 1

/-- The macro `HELPER`. Where the first byte is not the expected one it is skipped and the next one
is compared. -/
def helper (mem : Nat → UInt8) (endPos : Nat) (cur : Nat) (ch : Char) : Option Nat :=
  if cur = endPos then none
  else if mem cur = byteOf ch then some (cur + 1)
  else if cur + 1 = endPos then none
  else if mem (cur + 1) = byteOf ch then some (cur + 2)
  else none

/-- `HTTP/`, a byte at a time. -/
def helperProtocol (mem : Nat → UInt8) (endPos cur : Nat) : Option Nat :=
  ['H', 'T', 'T', 'P', '/'].foldlM (helper mem endPos) cur

/-- The value of a `char`, which is signed. -/
def charValue (b : UInt8) : Int := b.toInt8.toInt

/-- The major and the minor version, without a look at the end of the line or at the dot. -/
def versionNumber (mem : Nat → UInt8) (cur : Nat) : Int :=
  (charValue (mem cur) - 48) * 10 + (charValue (mem (cur + 2)) - 48)

def kMethodMap (method : Bytes) : Option HTTPMethod :=
  if method = bytesOf ['G', 'E', 'T'] then some .kGet
  else if method = bytesOf ['P', 'O', 'S', 'T'] then some .kPost
  else if method = bytesOf ['P', 'U', 'T'] then some .kPut
  else if method = bytesOf ['D', 'E', 'L', 'E', 'T', 'E'] then some .kDelete
  else none

def kVersionMap (version : Int) : Option HTTPVersion :=
  if version = 10 then some .kHTTP10
  else if version = 11 then some .kHTTP11
  else if version = 20 then some .kHTTP20
  else none

inductive ParseState
  | kParseFirstLine
  | kParseHeaders
  | kParseBody
  deriving DecidableEq, Repr

/-- What the parser asks of the message that it fills. -/
class HTTPMessage (T : Type) where
  handleFirstLine : T → (Nat → UInt8) → Nat → Bool × T
  addHeader : T → Slice → Slice → T
  appendBody : T → UInt8 → T

/-- `HandleFirstLine` for a request. -/
def HTTPRequest.handleFirstLine (r : HTTPRequest) (mem : Nat → UInt8) (endPos : Nat) :
    Bool × HTTPRequest :=
  let cur := skipPastSpace mem endPos 0
  if cur = endPos then (false, r)
  else
    match kMethodMap (bytesFrom mem (cur - 1) 0) with
    | none => (false, r)
    | some method =>
        let r := { r with method := method }
        let beg := cur
        let cur := skipPastSpace mem endPos cur
        if cur = endPos then (false, r)
        else
          let r := { r with uri := bytesFrom mem (cur - beg - 1) beg }
          match helperProtocol mem endPos cur with
          | none => (false, r)
          | some cur =>
              match kVersionMap (versionNumber mem cur) with
              | none => (false, r)
              | some version => (true, { r with version := version })

instance : HTTPMessage HTTPRequest where
  handleFirstLine := HTTPRequest.handleFirstLine
  addHeader := HTTPRequest.addHeader
  appendBody := HTTPRequest.appendBody

structure HTTPParser (T : Type) where
  reqOrRes : T
  parseState : ParseState
  curLineLength : Nat
  curLineEndLength : Nat
  curLine : Nat → UInt8

namespace HTTPParser

variable {T : Type}

/-- A parser for the message, whose line buffer holds whatever it holds. -/
def new (reqOrRes : T) (curLine : Nat → UInt8) : HTTPParser T where
  reqOrRes := reqOrRes
  parseState := .kParseFirstLine
  curLineLength := 0
  curLineEndLength := 2
  curLine := curLine

def recievedAllHeaders (p : HTTPParser T) : Bool := p.parseState = .kParseBody

/-- `CheckLine`. The length of the line end becomes 1 with the first bare LF and stays 1. -/
def checkLine (p : HTTPParser T) : Bool × HTTPParser T :=
  let n := p.curLineLength
  if 2 ≤ n ∧ p.curLine (n - 2) = CR ∧ p.curLine (n - 1) = LF then (true, p)
  else if 2 ≤ n ∧ p.curLine (n - 2) = LF ∧ p.curLine (n - 1) = CR then (false, p)
  else if 1 ≤ n ∧ p.curLine (n - 1) = LF then (true, { p with curLineEndLength := 1 })
  else (false, p)

def isBlank (b : UInt8) : Bool := b == SP || b == TAB

section

variable [HTTPMessage T]

def addHeader (p : HTTPParser T) : Bool × HTTPParser T :=
  let endPos := p.curLineLength
  if isBlank (p.curLine 0) then (false, p)
  else
    let colon := scanWhile (· != byteOf ':') p.curLine endPos 0
    if colon = endPos then (false, p)
    else
      let key := bufferSlice p.curLine 0 colon
      let cur := scanWhile isBlank p.curLine (endPos - (colon + 1)) (colon + 1)
      let value := bufferSlice p.curLine cur (endPos - cur - p.curLineEndLength)
      (true, { p with reqOrRes := HTTPMessage.addHeader p.reqOrRes key value })

/-- `FinishLine`, with its result and `found_body_start`. -/
def finishLine (p : HTTPParser T) : Bool × Bool × HTTPParser T :=
  match p.parseState with
  | .kParseFirstLine =>
      match HTTPMessage.handleFirstLine p.reqOrRes p.curLine p.curLineLength with
      | (false, message) => (false, false, { p with reqOrRes := message })
      | (true, message) =>
          (true, false,
            { p with reqOrRes := message, parseState := .kParseHeaders, curLineLength := 0 })
  | .kParseHeaders =>
      if p.curLineLength = p.curLineEndLength then
        (true, true, { p with parseState := .kParseBody, curLineLength := 0 })
      else
        match p.addHeader with
        | (false, p) => (false, false, p)
        | (true, p) => (true, false, { p with curLineLength := 0 })
  | .kParseBody => (true, false, { p with curLineLength := 0 })

/-- A byte goes into the line buffer. -/
def store (p : HTTPParser T) (byte : UInt8) : HTTPParser T :=
  { p with
    curLine := Function.update p.curLine p.curLineLength byte
    curLineLength := p.curLineLength + 1 }

/-- The end of `AddByte` outside the body: a line that is complete is finished. -/
def finishIfLine (p : HTTPParser T) : Bool × Bool × HTTPParser T :=
  match p.checkLine with
  | (true, p) => p.finishLine
  | (false, p) => (true, false, p)

/-- `AddByte`, with its result and `found_body_start`. -/
def addByte (p : HTTPParser T) (byte : UInt8) : Bool × Bool × HTTPParser T :=
  match p.parseState with
  | .kParseFirstLine | .kParseHeaders =>
      if kMaxHeaderLength ≤ p.curLineLength then (false, false, p)
      else (p.store byte).finishIfLine
  | .kParseBody => (true, false, { p with reqOrRes := HTTPMessage.appendBody p.reqOrRes byte })

/-- The loop of `Parse` from index `i` on, with the value of `*start_of_body` so far. -/
def parseFrom (p : HTTPParser T) : Nat → Bytes → Nat → Bool × Nat × HTTPParser T
  | _, [], startOfBody => (true, startOfBody, p)
  | i, byte :: bytes, startOfBody =>
      match p.addByte byte with
      | (false, _, p) => (false, startOfBody, p)
      | (true, found, p) => p.parseFrom (i + 1) bytes (if found then i + 1 else startOfBody)

/-- `Parse`, with `*start_of_body` set to 0 before the call. -/
def parse (p : HTTPParser T) (msg : Bytes) : Bool × Nat × HTTPParser T := p.parseFrom 0 msg 0

end

end HTTPParser

end Iomgr
