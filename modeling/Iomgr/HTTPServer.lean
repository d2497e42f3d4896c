import Iomgr.HTTPParserChunks
import Iomgr.Status

/-!
The server side of one connection. Every read overwrites the buffer, so that a read result is the
bytes of that read. The number of body bytes received is set by the read that ends the headers; the
reads after it hand their bytes to the parser and leave the number as it is.
-/

namespace Iomgr

/-- The response that is sent: the one for a bad request, or the one the delegate has filled. -/
inductive ResponseKind
  | badRequest
  | ofDelegate
  deriving DecidableEq, Repr

/-- What a read result makes the server do. -/
inductive Output
  | onHTTPRequest (request : HTTPRequest)
  | sendResponse (response : ResponseKind)
  | finish (status : Status)
  deriving DecidableEq, Repr

structure InternalResponse where
  parser : HTTPParser HTTPRequest
  receivedBodyBytes : Nat

namespace InternalResponse

/-- A new connection; the line buffer of its parser holds whatever it holds. -/
def new (curLine : Nat → UInt8) : InternalResponse := ⟨.new .new curLine, kUnset⟩

def request (r : InternalResponse) : HTTPRequest := r.parser.reqOrRes

/-- The end of `HandleReadResult`, after the bytes have been parsed. -/
def respond (r : InternalResponse) : Bool × List Output × InternalResponse :=
  if r.parser.recievedAllHeaders then
    if r.request.contentLength = kUnset ∨ r.request.contentLength < r.receivedBodyBytes then
      (false, [.sendResponse .badRequest], r)
    else if r.receivedBodyBytes = r.request.contentLength then
      (false, [.onHTTPRequest r.request, .sendResponse .ofDelegate], r)
    else (true, [], r)
  else (true, [], r)

/-- `HandleReadResult`, with the bytes of the read. The result says whether to read on. -/
def handleReadResult (r : InternalResponse) :
    StatusOr Bytes → Bool × List Output × InternalResponse
  | .failed _ => (false, [], r)
  | .value bytes =>
      if 0 < bytes.length then
        match r.parser.parse bytes with
        | (false, _, parser) =>
            (false, [.finish (.failed ⟨.kIOError, .text "Failed to parse incomming data", none⟩)],
              { r with parser := parser })
        | (true, startOfBody, parser) =>
            respond ⟨parser, if startOfBody ≠ 0 then bytes.length - startOfBody
              else r.receivedBodyBytes⟩
      else (false, [.sendResponse .badRequest], r)

/-- The read loop over successive read results: what each of them makes the server do, up to the
one after which it reads no more. -/
def serve (r : InternalResponse) : List Bytes → List (List Output)
  | [] => []
  | bytes :: rest =>
      match r.handleReadResult (.value bytes) with
      | (false, outputs, _) => [outputs]
      | (true, outputs, r) => outputs :: r.serve rest

end InternalResponse

/-- The request that the delegate is given. -/
def Output.request? : Output → Option HTTPRequest
  | .onHTTPRequest request => some request
  | _ => none

/-- The delegate is called exactly once, after the last of `n` reads, with a request that has the
whole body, and no response for a bad request is sent. -/
structure HandledOnce (n : Nat) (body : Bytes) (reads : List (List Output)) : Prop where
  lastRead : reads.length = n
  once : ∃ request, reads.flatten.filterMap Output.request? = [request] ∧ request.body = body ∧
    ∃ outputs, reads.getLast? = some outputs ∧ .onHTTPRequest request ∈ outputs
  noBadRequest : .sendResponse .badRequest ∉ reads.flatten

end Iomgr
