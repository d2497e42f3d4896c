import Iomgr.HTTPRequest

/-!
Addresses with a port, their text, and their comparison, which goes by the text. The text of an IPv6
address leaves out one run of zero groups.
-/

namespace Iomgr

namespace InetAddress

inductive Family
  | kIPAny
  | kIPv4
  | kIPv6
  deriving DecidableEq, Repr

end InetAddress

structure InetAddress where
  bytes : Vector UInt8 16
  port : UInt16
  family : InetAddress.Family
  deriving DecidableEq

def IPV4_DELIM : UInt8 := byteOf '.'
def IPV6_DELIM : UInt8 := byteOf ':'

def toIPv4Address (bytes : Vector UInt8 4) : Bytes :=
  (List.finRange 4).flatMap fun i =>
    decimal bytes[i].toNat ++ if i ≠ 3 then [IPV4_DELIM] else []

/-! ### IPv6 -/

/-- The `i`-th byte of an address. -/
def byteAt (bytes : Vector UInt8 16) (i : Nat) : UInt8 := bytes[i]?.getD 0

/-- The two bytes from `i` on are zero. -/
def IsZeroAt (bytes : Vector UInt8 16) (i : Nat) : Prop :=
  byteAt bytes i = 0 ∧ byteAt bytes (i + 1) = 0

instance (bytes : Vector UInt8 16) : DecidablePred (IsZeroAt bytes) :=
  fun i => inferInstanceAs (Decidable (byteAt bytes i = 0 ∧ byteAt bytes (i + 1) = 0))

/-- Begin and length of a run of zero bytes; the length is -1 where there is none. -/
abbrev Range := Int × Int

/-- The two zero bytes at `i` go into `cur_range`. -/
def extendRange (curRange : Range) (i : Nat) : Range :=
  let curRange : Range := if curRange.2 = -1 then (i, 0) else curRange
  (curRange.1, curRange.2 + 2)

/-- The body of the loop of `ChooseIPv6ContractionRange`, with `max_range` and `cur_range`. -/
def contractionStep (bytes : Vector UInt8 16) : Range × Range → Nat → Range × Range
  | (maxRange, curRange), i =>
      let curRange := if IsZeroAt bytes i then extendRange curRange i else curRange
      if ¬IsZeroAt bytes i ∨ i = 14 then
        (if curRange.2 > 2 ∧ curRange.2 > maxRange.2 then curRange else maxRange, (0, -1))
      else (maxRange, curRange)

def chooseIPv6ContractionRange (bytes : Vector UInt8 16) : Range :=
  ([0, 2, 4, 6, 8, 10, 12, 14].foldl (contractionStep bytes) ((0, -1), (0, -1))).1

/-- `snprintf(str, 5, "%x", x)`. -/
def hexadecimal (x : Nat) : Bytes := (bytesOf (Nat.toDigits 16 x)).take 4

/-- The loop of `ToIPv6Address` from `i` on. -/
def groupsFrom (bytes : Vector UInt8 16) (range : Range) (i : Nat) : Bytes :=
  if i ≤ 14 then
    if (i : Int) = range.1 ∧ range.2 > 0 then
      (if i = 0 then [IPV6_DELIM] else []) ++
        IPV6_DELIM :: groupsFrom bytes range (range.1 + range.2).toNat
    else
      let x := (byteAt bytes i).toNat <<< 8 ||| (byteAt bytes (i + 1)).toNat
      hexadecimal x ++ (if i + 2 < 16 then [IPV6_DELIM] else []) ++ groupsFrom bytes range (i + 2)
  else []
termination_by 16 - i

def toIPv6Address (bytes : Vector UInt8 16) : Bytes :=
  byteOf '[' :: groupsFrom bytes (chooseIPv6ContractionRange bytes) 0 ++ [byteOf ']']

namespace InetAddress

def ip (x : InetAddress) : Bytes :=
  match x.family with
  | .kIPAny => []
  | .kIPv4 => toIPv4Address (x.bytes.take 4)
  | .kIPv6 => toIPv6Address x.bytes

/-- `operator==`. -/
def equal (x y : InetAddress) : Bool := x.ip = y.ip ∧ x.port = y.port ∧ x.family = y.family

end InetAddress

end Iomgr
