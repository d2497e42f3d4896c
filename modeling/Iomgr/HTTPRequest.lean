import Mathlib.Algebra.Ring.Int.Defs
import Mathlib.Algebra.Ring.Nat
import Mathlib.Data.List.Basic
import Mathlib.Tactic.Common

/-!
An HTTP request as the parser fills it, and its text. A slice is a pointer into some storage and a
size: `atoi` is given the pointer only, and reads on behind the end of the slice.
-/

/-! ### Pieces with a delimiter between them, and with one after every piece -/

namespace Delimited

variable {α : Type} {delim : α} {xs ys : List (List α)}

theorem intercalate_append (hx : xs ≠ []) (hy : ys ≠ []) :
    [delim].intercalate (xs ++ ys) = [delim].intercalate xs ++ delim :: [delim].intercalate ys := by
  induction xs with
  | nil => exact absurd rfl hx
  | cons x xs ih =>
      by_cases hxs : xs = []
      · rw [hxs, List.singleton_append, List.intercalate_cons_of_ne_nil hy,
          List.intercalate_singleton, List.append_assoc, List.singleton_append]
      · rw [List.cons_append, List.intercalate_cons_of_ne_nil (by simp [hxs]), ih hxs,
          List.intercalate_cons_of_ne_nil hxs, List.append_assoc, List.append_assoc,
          List.append_assoc]

/-- A delimiter after every piece is one after the last piece. -/
theorem flatMap_delim (hx : xs ≠ []) :
    xs.flatMap (· ++ [delim]) = [delim].intercalate xs ++ [delim] := by
  induction xs with
  | nil => exact absurd rfl hx
  | cons x xs ih =>
      by_cases hxs : xs = []
      · rw [hxs, List.flatMap_singleton, List.intercalate_singleton]
      · rw [List.flatMap_cons, ih hxs, List.intercalate_cons_of_ne_nil hxs, List.append_assoc,
          List.append_assoc, List.append_assoc]

end Delimited

namespace Iomgr

/-! ### Bytes -/

abbrev Bytes := List UInt8

def SP : UInt8 := 32
def TAB : UInt8 := 9
def CR : UInt8 := 13
def LF : UInt8 := 10

/-- The byte of an ASCII character. -/
def byteOf (c : Char) : UInt8 := UInt8.ofNat c.toNat

def bytesOf (cs : List Char) : Bytes := cs.map byteOf

/-- `data` is the storage from the pointer on, to its end. -/
structure Slice where
  data : Bytes
  size : Nat
  deriving DecidableEq, Repr

def Slice.toBytes (s : Slice) : Bytes := s.data.take s.size

/-! ### Numbers of the C library -/

def isSpace (b : UInt8) : Bool := b == SP || (9 ≤ b && b ≤ 13)

def isDigit (b : UInt8) : Bool := 48 ≤ b && b ≤ 57

/-- The number a string of decimal digits denotes. -/
def digitsValue (ds : Bytes) : Nat := ds.foldl (fun n d => n * 10 + (d.toNat - 48)) 0

/-- `strtol` with base 10: white space, a sign, digits, and the number kept in the range of
`long`. -/
def strtol (text : Bytes) : Int :=
  let text := text.dropWhile isSpace
  let negative := text.head? = some (byteOf '-')
  let signed := text.head? = some (byteOf '-') ∨ text.head? = some (byteOf '+')
  let n : Int := digitsValue ((if signed then text.drop 1 else text).takeWhile isDigit)
  if negative then max (-n) (-2 ^ 63) else min n (2 ^ 63 - 1)

/-- `atoi` is `strtol`, cast to `int`. -/
def atoi (text : Bytes) : Int := (strtol text).bmod (2 ^ 32)

/-- The cast from `int` to `size_t`. -/
def sizeOfInt (n : Int) : Nat := (n % 2 ^ 64).toNat

/-- `(size_t)-1`. -/
def kUnset : Nat := 2 ^ 64 - 1

/-! ### The request -/

inductive HTTPMethod
  | kUnknow
  | kGet
  | kPost
  | kPut
  | kDelete
  deriving DecidableEq, Repr

inductive HTTPVersion
  | kUnknow
  | kHTTP10
  | kHTTP11
  | kHTTP20
  deriving DecidableEq, Repr

structure HTTPHeader where
  key : Bytes
  value : Bytes
  deriving DecidableEq, Repr

def kCRLF : Bytes := [CR, LF]

/-- `MethodName`; the table has no entry for `kUnknow`. -/
def methodName : HTTPMethod → Option Bytes
  | .kUnknow => none
  | .kGet => some (bytesOf ['G', 'E', 'T'])
  | .kPost => some (bytesOf ['P', 'O', 'S', 'T'])
  | .kPut => some (bytesOf ['P', 'U', 'T'])
  | .kDelete => some (bytesOf ['D', 'E', 'L', 'E', 'T', 'E'])

/-- `VersionName`; the table has no entry for `kUnknow`. -/
def versionName : HTTPVersion → Option Bytes
  | .kUnknow => none
  | .kHTTP10 => some (bytesOf ['H', 'T', 'T', 'P', '/', '1', '.', '0'])
  | .kHTTP11 => some (bytesOf ['H', 'T', 'T', 'P', '/', '1', '.', '1'])
  | .kHTTP20 => some (bytesOf ['H', 'T', 'T', 'P', '/', '2', '.', '0'])

/-- `std::to_string`. -/
def decimal (n : Nat) : Bytes := bytesOf (Nat.toDigits 10 n)

/-- A header as `ToString` writes it, without the line end. -/
def HTTPHeader.text (h : HTTPHeader) : Bytes := h.key ++ bytesOf [':', ' '] ++ h.value

structure HTTPRequest where
  method : HTTPMethod
  uri : Bytes
  version : HTTPVersion
  headers : List HTTPHeader
  contentLength : Nat
  body : Bytes
  deriving DecidableEq, Repr

def kContentLength : Bytes :=
  bytesOf ['c', 'o', 'n', 't', 'e', 'n', 't', '-', 'l', 'e', 'n', 'g', 't', 'h']

/-- How far the loop of `AddHeader` runs. It lowers the result of the comparison and not the byte,
so that case matters. -/
def matchLength : Bytes → Bytes → Nat
  | k :: ks, b :: bs => if b != k then 0 else matchLength ks bs + 1
  | _, _ => 0

theorem matchLength_eq_length_iff {ks bs : Bytes} :
    matchLength ks bs = ks.length ↔ ks <+: bs := by
  induction ks generalizing bs with
  | nil => simp [matchLength]
  | cons k ks ih =>
      cases bs with
      | nil => simp [matchLength]
      | cons b bs =>
          rw [List.cons_prefix_cons, ← ih]
          by_cases hbk : b = k
          · subst hbk
            simp [matchLength]
          · simp [matchLength, hbk, Ne.symm hbk]

namespace HTTPRequest

def new : HTTPRequest where
  method := .kUnknow
  uri := []
  version := .kHTTP11
  headers := []
  contentLength := kUnset
  body := []

/-- The length that the header announces, when none was announced before. -/
def announced (contentLength : Nat) (key value : Slice) : Nat :=
  if contentLength = kUnset ∧ matchLength kContentLength key.toBytes = kContentLength.length then
    sizeOfInt (atoi value.data)
  else contentLength

def addHeader (r : HTTPRequest) (key value : Slice) : HTTPRequest :=
  { r with
    contentLength := announced r.contentLength key value
    headers := r.headers ++ [⟨key.toBytes, value.toBytes⟩] }

def appendBody (r : HTTPRequest) (byte : UInt8) : HTTPRequest := { r with body := r.body ++ [byte] }

/-- The header `ToString` adds when no length was announced. -/
def generatedHeaders (r : HTTPRequest) : List HTTPHeader :=
  if r.contentLength = kUnset then [⟨kContentLength, decimal r.body.length⟩] else []

/-- The first line as `ToString` writes it, without the line end; undefined for a method or a version
that has no name. -/
def firstLine (r : HTTPRequest) : Option Bytes := do
  let method ← methodName r.method
  let version ← versionName r.version
  some (method ++ [SP] ++ r.uri ++ [SP] ++ version)

def toString (r : HTTPRequest) : Option Bytes := do
  let first ← r.firstLine
  some (first ++ kCRLF ++ (r.headers ++ r.generatedHeaders).flatMap (fun h => h.text ++ kCRLF) ++
    kCRLF ++ r.body)

end HTTPRequest

end Iomgr
