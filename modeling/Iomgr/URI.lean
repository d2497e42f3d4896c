import Iomgr.HTTPRequest

/-!
A URI as its parser takes it from a text, and as it is written again. A slice is the bytes that it
refers to; nothing here reads behind one. The error of the parser is the message of its status, whose
code is `kInvalidArg`.
-/

namespace Iomgr

/-! ### Sets of characters -/

/-- A set of ASCII characters as a bit vector of two words. -/
structure ASCIISet where
  bitvec0 : BitVec 64
  bitvec1 : BitVec 64
  deriving DecidableEq, Repr

namespace ASCIISet

def empty : ASCIISet := ⟨0, 0⟩

def set (s : ASCIISet) (c : UInt8) : ASCIISet :=
  if c &&& 64 ≠ 0 then { s with bitvec1 := s.bitvec1 ||| 1#64 <<< (c &&& 63).toNat }
  else { s with bitvec0 := s.bitvec0 ||| 1#64 <<< (c &&& 63).toNat }

def test (s : ASCIISet) (c : UInt8) : Bool :=
  if 128 ≤ c then false
  else ((if c &&& 64 ≠ 0 then s.bitvec1 else s.bitvec0) >>> (c &&& 63).toNat) &&& 1#64 ≠ 0

/-- The set of the characters of a string. -/
def ofString (s : String) : ASCIISet := (bytesOf s.toList).foldl set empty

end ASCIISet

def kURIPathUnreservedChars : ASCIISet :=
  .ofString "abcdefghijklmnopqrstuvwxyzABCDEFGHIJKLMNOPQRSTUVWXYZ0123456789-_.!~*'():@&=+$,;/"

def kURIAuthUnreservedChars : ASCIISet :=
  .ofString "abcdefghijklmnopqrstuvwxyzABCDEFGHIJKLMNOPQRSTUVWXYZ0123456789-_.!~*'():@&=+$,;[]"

def kURISchemeUnreseredChars : ASCIISet :=
  .ofString "ABCDEFGHIJKLMNOPQRSTUVWXYZabcdefghijklmnopqrstuvwxyz0123456789+-."

def kURIQueryKVUnreseredChars : ASCIISet :=
  .ofString "abcdefghijklmnopqrstuvwxyzABCDEFGHIJKLMNOPQRSTUVWXYZ0123456789-_.!~*'():@+$,;/?"

def kURIFragmentUnreseredChars : ASCIISet :=
  .ofString "abcdefghijklmnopqrstuvwxyzABCDEFGHIJKLMNOPQRSTUVWXYZ0123456789-_.!~*'():@&=+$,;/?"

def isQueryOrFragmentString (str : Bytes) : Bool :=
  str.all fun b => kURIFragmentUnreseredChars.test b || b == byteOf '%'

/-! ### Percent encoding -/

/-- `isxdigit`. -/
def isXDigit (b : UInt8) : Bool :=
  isDigit b || (byteOf 'a' ≤ b && b ≤ byteOf 'f') || (byteOf 'A' ≤ b && b ≤ byteOf 'F')

def hexDigitToInt (c : UInt8) : Nat :=
  (if c.toNat > 57 then c.toNat + 9 else c.toNat) % 16

def intToHexDigit (x : Nat) : UInt8 := (bytesOf "0123456789ABCDEF".toList).getD x 0

def percentEncode (str : Bytes) (unreserved : ASCIISet) : Bytes :=
  if str.countP (fun b => !unreserved.test b) = 0 then str
  else
    str.flatMap fun b =>
      if unreserved.test b then [b]
      else [byteOf '%', intToHexDigit (b.toNat / 16), intToHexDigit (b.toNat % 16)]

def percentDecode : Bytes → Bytes
  | c :: x :: y :: rest =>
      if c = byteOf '%' ∧ isXDigit x ∧ isXDigit y then
        UInt8.ofNat (hexDigitToInt x * 16 + hexDigitToInt y) :: percentDecode rest
      else c :: percentDecode (x :: y :: rest)
  | [c, x] => [c, x]
  | [c] => [c]
  | [] => []

/-! ### The parser -/

structure Query where
  key : Bytes
  value : Bytes
  deriving DecidableEq, Repr

structure URI where
  scheme : Bytes
  authority : Bytes
  path : Bytes
  queryParameterPairs : List Query
  fragment : Bytes
  deriving DecidableEq, Repr

namespace URI

/-- `FindFirstOf`: the bytes before the first one of the target, all of them if there is none. -/
def findFirstOf (slice : Bytes) (target : String) : Bytes :=
  slice.takeWhile fun b => !(ASCIISet.ofString target).test b

def startsWith (slice : Bytes) (text : String) : Bool := (bytesOf text.toList).isPrefixOf slice

def makeInvalidURIStatus (partName : String) (uri : Bytes) (extra : String) : Bytes :=
  bytesOf "Could not parse ".toList ++ bytesOf partName.toList ++ bytesOf " from uri ".toList ++ uri ++
    bytesOf ". ".toList ++ bytesOf extra.toList

def kSchemeChars : Bytes :=
  bytesOf "ABCDEFGHIJKLMNOPQRSTUVWXYZabcdefghijklmnopqrstuvwxyz0123456789+-.".toList

/-- `isalpha`. -/
def isAlpha (b : UInt8) : Bool :=
  (byteOf 'a' ≤ b && b ≤ byteOf 'z') || (byteOf 'A' ≤ b && b ≤ byteOf 'Z')

/-- The scheme, and what remains behind its colon. -/
def parseScheme (uriText : Bytes) : Except Bytes (Bytes × Bytes) :=
  let substr := findFirstOf uriText ":"
  if substr = [] ∨ substr.length = uriText.length then
    .error (makeInvalidURIStatus "scheme" uriText "Scheme not found.")
  else if substr.any fun b => !kSchemeChars.contains b then
    .error (makeInvalidURIStatus "scheme" uriText "Scheme contains invalid characters.")
  else if !substr.head?.any isAlpha then
    .error (makeInvalidURIStatus "scheme" uriText
      "Scheme must begin with an alpha character [A-Za-z].")
  else .ok (substr, uriText.drop (substr.length + 1))

def parseAuthority (remaining : Bytes) : Bytes × Bytes :=
  if startsWith remaining "//" then
    let remaining := remaining.drop 2
    let substr := findFirstOf remaining "/?#"
    (percentDecode substr, remaining.drop substr.length)
  else ([], remaining)

def parsePath (remaining : Bytes) : Bytes × Bytes :=
  if remaining = [] then ([], remaining)
  else
    let substr := findFirstOf remaining "?#"
    (percentDecode substr, remaining.drop substr.length)

/-- The loop over the query string, with as many rounds as it can take. -/
def queryPairs : Nat → Bytes → List Query
  | 0, _ => []
  | n + 1, substr =>
      if substr = [] then []
      else
        let query := findFirstOf substr "&"
        let key := findFirstOf query "="
        let substr := substr.drop query.length
        let substr := if startsWith substr "&" then substr.drop 1 else substr
        let query := query.drop key.length
        let query := if startsWith query "=" then query.drop 1 else query
        ⟨percentDecode key, percentDecode query⟩ :: queryPairs n substr

def parseQuery (uriText remaining : Bytes) : Except Bytes (List Query × Bytes) :=
  if startsWith remaining "?" then
    let remaining := remaining.drop 1
    let substr := findFirstOf remaining "#"
    if substr = [] then .error (makeInvalidURIStatus "query" uriText "Invalid query string.")
    else if !isQueryOrFragmentString substr then
      .error (makeInvalidURIStatus "query string" uriText
        "Query string contains invalid characters.")
    else .ok (queryPairs substr.length substr, remaining.drop substr.length)
  else .ok ([], remaining)

def parseFragment (uriText remaining : Bytes) : Except Bytes Bytes :=
  if startsWith remaining "#" then
    let remaining := remaining.drop 1
    if !isQueryOrFragmentString remaining then
      .error (makeInvalidURIStatus "fragment" uriText "Fragment contains invalid characters.")
    else .ok (percentDecode remaining)
  else .ok []

/-- `URI::Parse`. -/
def parse (uriText : Bytes) : Except Bytes URI := do
  let (scheme, remaining) ← parseScheme uriText
  let (authority, remaining) := parseAuthority remaining
  let (path, remaining) := parsePath remaining
  let (pairs, remaining) ← parseQuery uriText remaining
  let fragment ← parseFragment uriText remaining
  return ⟨scheme, authority, path, pairs, fragment⟩

/-! ### The text -/

/-- `ret.pop_back()` for an `&`. -/
def popAmpersand (ret : Bytes) : Bytes := if ret.getLast? = some (byteOf '&') then ret.dropLast else ret

def toString (u : URI) : Bytes :=
  let ret := percentEncode u.scheme kURISchemeUnreseredChars ++ [byteOf ':']
  let ret :=
    if u.authority ≠ [] then
      ret ++ bytesOf ['/', '/'] ++ percentEncode u.authority kURIAuthUnreservedChars
    else ret
  let ret := if u.path ≠ [] then ret ++ percentEncode u.path kURIPathUnreservedChars else ret
  let ret :=
    if u.queryParameterPairs ≠ [] then
      ret ++ [byteOf '?'] ++ u.queryParameterPairs.flatMap fun query =>
        percentEncode query.key kURIQueryKVUnreseredChars ++ [byteOf '='] ++
          percentEncode query.value kURIQueryKVUnreseredChars ++ [byteOf '&']
    else ret
  let ret := popAmpersand ret
  if u.fragment ≠ [] then
    ret ++ [byteOf '#'] ++ percentEncode u.fragment kURIFragmentUnreseredChars
  else ret

end URI

end Iomgr
