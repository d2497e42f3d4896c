import Iomgr.HTTPParserChunks

/-!
An HTTP response, its text, and the first line of a response in the parser. The texts of the status
codes are kept in a table apart from the enumeration; an entry that was never written is not
initialised, and using it is undefined.
-/

namespace Iomgr

/-- The enumerators of `HTTPStatusCode`, and the values without one that a cast can make. -/
inductive HTTPStatusCode
  | kUnknow
  | kContinue
  | kSwitchingProtocols
  | kEarlyHints
  | kOk
  | kCreated
  | kAccepted
  | kNonAuthInfo
  | kNoContent
  | kResetContent
  | kPartialContent
  | kMultiChoices
  | kMovedPermanently
  | kFound
  | kSeeOther
  | kNotModified
  | kUseProxy
  | kTemporaryRedirect
  | kPermanentRedirect
  | kBadRequest
  | kUnauthorized
  | kPaymentRequired
  | kForbidden
  | kNotFound
  | kMethodNotAllowed
  | kNotAcceptable
  | kProxyAuthRequired
  | kRequestTimeout
  | kConflict
  | kGone
  | kLengthRequired
  | kPreConditionFailed
  | kRequestEntityTooLarge
  | kRequestUriTooLong
  | kUnsupportedMediaType
  | kRequestedRangeNotSatisfiable
  | kExpectationFailed
  | kInvalidXPrivetToken
  | kTooEarly
  | kTooManyRequests
  | kInternalServerError
  | kNotImplemented
  | kBadGateway
  | kServiceUnavailable
  | kGatewayTimeout
  | kVersionNotSupported
  | other (code : Nat)
  deriving DecidableEq, Repr

namespace HTTPStatusCode

/-- The value of an enumerator; `none` for `kUnknow`, which is negative. -/
def code : HTTPStatusCode → Option Nat
  | kUnknow => none
  | kContinue => some 100
  | kSwitchingProtocols => some 101
  | kEarlyHints => some 103
  | kOk => some 200
  | kCreated => some 201
  | kAccepted => some 202
  | kNonAuthInfo => some 203
  | kNoContent => some 204
  | kResetContent => some 205
  | kPartialContent => some 206
  | kMultiChoices => some 300
  | kMovedPermanently => some 301
  | kFound => some 302
  | kSeeOther => some 303
  | kNotModified => some 304
  | kUseProxy => some 305
  | kTemporaryRedirect => some 307
  | kPermanentRedirect => some 308
  | kBadRequest => some 400
  | kUnauthorized => some 401
  | kPaymentRequired => some 402
  | kForbidden => some 403
  | kNotFound => some 404
  | kMethodNotAllowed => some 405
  | kNotAcceptable => some 406
  | kProxyAuthRequired => some 407
  | kRequestTimeout => some 408
  | kConflict => some 409
  | kGone => some 410
  | kLengthRequired => some 411
  | kPreConditionFailed => some 412
  | kRequestEntityTooLarge => some 413
  | kRequestUriTooLong => some 414
  | kUnsupportedMediaType => some 415
  | kRequestedRangeNotSatisfiable => some 416
  | kExpectationFailed => some 417
  | kInvalidXPrivetToken => some 418
  | kTooEarly => some 425
  | kTooManyRequests => some 429
  | kInternalServerError => some 500
  | kNotImplemented => some 501
  | kBadGateway => some 502
  | kServiceUnavailable => some 503
  | kGatewayTimeout => some 504
  | kVersionNotSupported => some 505
  | other code => some code

/-- The enumerators, but for `kUnknow`. -/
def enumerators : List HTTPStatusCode :=
  [kContinue, kSwitchingProtocols, kEarlyHints, kOk, kCreated, kAccepted, kNonAuthInfo, kNoContent,
    kResetContent, kPartialContent, kMultiChoices, kMovedPermanently, kFound, kSeeOther,
    kNotModified, kUseProxy, kTemporaryRedirect, kPermanentRedirect, kBadRequest, kUnauthorized,
    kPaymentRequired, kForbidden, kNotFound, kMethodNotAllowed, kNotAcceptable, kProxyAuthRequired,
    kRequestTimeout, kConflict, kGone, kLengthRequired, kPreConditionFailed,
    kRequestEntityTooLarge, kRequestUriTooLong, kUnsupportedMediaType,
    kRequestedRangeNotSatisfiable, kExpectationFailed, kInvalidXPrivetToken, kTooEarly,
    kTooManyRequests, kInternalServerError, kNotImplemented, kBadGateway, kServiceUnavailable,
    kGatewayTimeout, kVersionNotSupported]

/-- `static_cast<HTTPStatusCode>`. -/
def ofCode (n : Nat) : HTTPStatusCode :=
  (enumerators.find? fun c => c.code == some n).getD (other n)

end HTTPStatusCode

/-- `kStatusCodeWithDesc`: the entries that are written. -/
def kStatusCodeWithDesc : List (Nat × String) :=
  [(100, "100 Continue"),
    (101, "101 Switching Protocols"),
    (103, "103 Early Hints"),
    (200, "200 OK"),
    (201, "201 Created"),
    (202, "202 Accepted"),
    (203, "203 Non-Authoritative Information"),
    (204, "204 No Content"),
    (205, "205 Reset Content"),
    (206, "206 Partial Content"),
    (300, "300 Multiple Choices"),
    (301, "301 Moved Permanently"),
    (302, "302 Found"),
    (303, "303 See Other"),
    (304, "304 Not Modified"),
    (307, "307 Temporary Redirect"),
    (308, "308 Permanent Redirect"),
    (400, "400 Bad Request"),
    (401, "401 Unauthorized"),
    (402, "402 Payment Required"),
    (403, "403 Forbidden"),
    (404, "404 Not Found"),
    (405, "405 Method Not Allowed"),
    (406, "406 Not Acceptable"),
    (407, "407 Proxy Authentication Required"),
    (408, "408 Request Timeout"),
    (409, "409 Conflict"),
    (410, "410 Gone"),
    (411, "411 Length Required"),
    (412, "412 Precondition Failed"),
    (413, "413 Payload Too Large"),
    (414, "414 URI Too Long"),
    (415, "415 Unsupported Media Type"),
    (416, "416 Range Not Satisfiable"),
    (417, "417 Expectation Failed"),
    (418, "418 I'm a teapot"),
    (422, "422 Unprocessable Entity"),
    (425, "425 Too Early"),
    (426, "426 Upgrade Required"),
    (428, "428 Precondition Required"),
    (429, "429 Too Many Requests"),
    (500, "500 Internal Server Error"),
    (501, "501 Not Implemented"),
    (502, "502 Bad Gateway"),
    (503, "503 Service Unavailable"),
    (504, "504 Gateway Timeout"),
    (505, "505 HTTP Version Not Supported")]

/-- `kStatusCodeWithDesc[status_code]`; `none` for an entry that was never written, and outside the
table. -/
def statusCodeWithDesc (status : HTTPStatusCode) : Option Bytes := do
  let code ← status.code
  let desc ← kStatusCodeWithDesc.lookup code
  some (bytesOf desc.toList)

@[ext]
structure HTTPResponse where
  statusCode : HTTPStatusCode
  version : HTTPVersion
  headers : List HTTPHeader
  body : Bytes
  deriving DecidableEq, Repr

namespace HTTPResponse

def new : HTTPResponse where
  statusCode := .kUnknow
  version := .kHTTP11
  headers := []
  body := []

def addHeader (r : HTTPResponse) (key value : Slice) : HTTPResponse :=
  { r with headers := r.headers ++ [⟨key.toBytes, value.toBytes⟩] }

def appendBody (r : HTTPResponse) (byte : UInt8) : HTTPResponse :=
  { r with body := r.body ++ [byte] }

/-- The first line as `ToString` writes it, without the line end; undefined for a version that has no
name and a status code that has no text. -/
def firstLine (r : HTTPResponse) : Option Bytes := do
  let version ← versionName r.version
  let status ← statusCodeWithDesc r.statusCode
  some (version ++ [SP] ++ status)

def toString (r : HTTPResponse) : Option Bytes := do
  let first ← r.firstLine
  some (first ++ kCRLF ++ r.headers.flatMap (fun h => h.text ++ kCRLF) ++ kCRLF ++ r.body)

end HTTPResponse

/-! ### The first line -/

/-- `if (cur == end || *cur < low || *cur++ > '9')`. -/
def statusDigit (mem : Nat → UInt8) (endPos : Nat) (cur : Nat) (low : UInt8) : Option Nat :=
  if cur = endPos then none
  else if mem cur < low then none
  else if mem cur > byteOf '9' then none
  else some (cur + 1)

def digitValue (b : UInt8) : Nat := b.toNat - 48

/-- The number in the three bytes before the position. -/
def statusNumber (mem : Nat → UInt8) (cur : Nat) : Nat :=
  digitValue (mem (cur - 3)) * 100 + digitValue (mem (cur - 2)) * 10 + digitValue (mem (cur - 1))

/-- `HandleFirstLine` for a response, from the space behind the version on. -/
def HTTPResponse.handleStatus (r : HTTPResponse) (mem : Nat → UInt8) (endPos cur : Nat) :
    Bool × HTTPResponse :=
  match helper mem endPos cur ' ' with
  | none => (false, r)
  | some cur =>
      match [byteOf '1', byteOf '0', byteOf '0'].foldlM (statusDigit mem endPos) cur with
      | none => (false, r)
      | some cur =>
          let r := { r with statusCode := .ofCode (statusNumber mem cur) }
          if cur = endPos ∨ mem cur ≠ SP then (false, r) else (true, r)

/-- `HandleFirstLine` for a response. -/
def HTTPResponse.handleFirstLine (r : HTTPResponse) (mem : Nat → UInt8) (endPos : Nat) :
    Bool × HTTPResponse :=
  match helperProtocol mem endPos 0 with
  | none => (false, r)
  | some cur =>
      match kVersionMap (versionNumber mem cur) with
      | none => (false, r)
      | some version => { r with version := version }.handleStatus mem endPos (cur + 3)

instance : HTTPMessage HTTPResponse where
  handleFirstLine := HTTPResponse.handleFirstLine
  addHeader := HTTPResponse.addHeader
  appendBody := HTTPResponse.appendBody

/-- A first line sets the version and the status code, and nothing else. -/
theorem HTTPResponse.handleFirstLine_frame (r : HTTPResponse) (mem : Nat → UInt8) (n : Nat) :
    (r.handleFirstLine mem n).2.body = r.body ∧
      (r.handleFirstLine mem n).2.headers = r.headers := by
  unfold HTTPResponse.handleFirstLine HTTPResponse.handleStatus
  dsimp only
  repeat' split
  all_goals exact ⟨rfl, rfl⟩

instance : LawfulHTTPMessage HTTPResponse where
  body := HTTPResponse.body
  body_handleFirstLine r mem n := (r.handleFirstLine_frame mem n).1
  body_addHeader _ _ _ := rfl
  body_appendBody _ _ := rfl

end Iomgr
