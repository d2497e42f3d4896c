import Iomgr.FixedBuffer
import Iomgr.InetAddress
import Iomgr.Refinement

/-!
`SockaddrStorage`: 128 bytes in the layout of the system's `sockaddr_in` or `sockaddr_in6`, and the
length that says which of the two it is. A copy takes only as many bytes as that length, into memory
that may hold anything. What a program does to such objects is what it would do to the bytes that the
system calls are given.
-/

namespace Iomgr

open FixedBuffer

def IPV4_ADDR_SIZE : Nat := 4
def IPV6_ADDR_SIZE : Nat := 16

namespace InetAddress

/-- The values of the enumeration, which are `AF_UNSPEC`, `AF_INET` and `AF_INET6`. -/
def Family.number : Family → UInt16
  | .kIPAny => 0
  | .kIPv4 => 2
  | .kIPv6 => 10

def new : InetAddress := ⟨Vector.replicate 16 0, 0, .kIPAny⟩

end InetAddress

/-- `inet_pton` for either family. -/
structure InetPton where
  ipv4 : Bytes → Option (Vector UInt8 4)
  ipv6 : Bytes → Option (Vector UInt8 16)

/-- An `sa_family_t` as it lies in memory, the low byte first. -/
def familyBytes (family : UInt16) : Bytes :=
  [UInt8.ofNat family.toNat, UInt8.ofNat (family.toNat / 256)]

def familyOf (bytes : Bytes) : UInt16 :=
  UInt16.ofNat ((bytes[0]?.getD 0).toNat + 256 * (bytes[1]?.getD 0).toNat)

/-- `htons` of a port as it lies in memory. -/
def portBytes (port : UInt16) : Bytes :=
  [UInt8.ofNat (port.toNat / 256), UInt8.ofNat port.toNat]

/-- `ntohs` of what lies in memory. -/
def portOf (bytes : Bytes) : UInt16 :=
  UInt16.ofNat (256 * (bytes[0]?.getD 0).toNat + (bytes[1]?.getD 0).toNat)

structure SockaddrStorage where
  addrStorage : Vector UInt8 128
  addrLen : Nat
  deriving DecidableEq

namespace SockaddrStorage

/-- `sizeof(sockaddr_in)`. -/
def sizeofIn : Nat := 16

/-- `sizeof(sockaddr_in6)`. -/
def sizeofIn6 : Nat := 28

def new : SockaddrStorage := ⟨Vector.replicate 128 0, 128⟩

/-- A member of the address is written. -/
def put (s : SockaddrStorage) (offset : Nat) (bytes : Bytes) : SockaddrStorage :=
  { s with addrStorage := storeAt s.addrStorage offset bytes }

/-- A member of the address is read. -/
def get (s : SockaddrStorage) (offset len : Nat) : Bytes := loadAt s.addrStorage offset len

/-- The offsets of the members: both layouts begin with the family and the port. -/
def familyOffset : Nat := 0
def portOffset : Nat := 2
def sinAddrOffset : Nat := 4
def sin6AddrOffset : Nat := 8

def isIPv4 (s : SockaddrStorage) : Bool := s.addrLen = sizeofIn
def isIPv6 (s : SockaddrStorage) : Bool := s.addrLen = sizeofIn6
def isValid (s : SockaddrStorage) : Bool := s.isIPv4 || s.isIPv6

/-- The constructor from a text. -/
def ofText (pton : InetPton) (ip : Bytes) (port : UInt16) (ipv6 : Bool) : SockaddrStorage :=
  if ipv6 || ip.contains IPV6_DELIM then
    let s := (new.put familyOffset (familyBytes InetAddress.Family.kIPv6.number)).put portOffset
      (portBytes port)
    match pton.ipv6 ip with
    | some bytes => { s.put sin6AddrOffset bytes.toList with addrLen := sizeofIn6 }
    | none => s
  else
    let s := (new.put familyOffset (familyBytes InetAddress.Family.kIPv4.number)).put portOffset
      (portBytes port)
    match pton.ipv4 ip with
    | some bytes => { s.put sinAddrOffset bytes.toList with addrLen := sizeofIn }
    | none => s

/-- The constructor from an `InetAddress`. -/
def ofInetAddress (address : InetAddress) : SockaddrStorage :=
  match address.family with
  | .kIPv4 =>
      { ((new.put sinAddrOffset (address.bytes.toList.take IPV4_ADDR_SIZE)).put familyOffset
          (familyBytes address.family.number)).put portOffset (portBytes address.port) with
        addrLen := sizeofIn }
  | .kIPv6 =>
      { ((new.put sin6AddrOffset (address.bytes.toList.take IPV6_ADDR_SIZE)).put familyOffset
          (familyBytes address.family.number)).put portOffset (portBytes address.port) with
        addrLen := sizeofIn6 }
  | .kIPAny => new

/-- `operator=`, which leaves what lies behind the bytes that it copies. -/
def assign (s other : SockaddrStorage) : SockaddrStorage :=
  { s with addrLen := other.addrLen }.put 0 (other.get 0 other.addrLen)

/-- The copy constructor, in memory that holds anything. -/
def copy (memory : Vector UInt8 128) (other : SockaddrStorage) : SockaddrStorage :=
  { addrStorage := memory, addrLen := other.addrLen : SockaddrStorage }.put 0
    (other.get 0 other.addrLen)

def addressFamily (s : SockaddrStorage) : UInt16 :=
  if s.isValid then familyOf (s.get familyOffset 2) else InetAddress.Family.kIPAny.number

def toInetAddress (s : SockaddrStorage) : InetAddress :=
  if s.isIPv4 then
    { bytes := storeAt InetAddress.new.bytes 0 (s.get sinAddrOffset IPV4_ADDR_SIZE)
      port := portOf (s.get portOffset 2)
      family := .kIPv4 }
  else if s.isIPv6 then
    { bytes := storeAt InetAddress.new.bytes 0 (s.get sin6AddrOffset IPV6_ADDR_SIZE)
      port := portOf (s.get portOffset 2)
      family := .kIPv6 }
  else InetAddress.new

/-- The system call stores a name, as much of it as fits, and says how long it is. -/
def receive (s : SockaddrStorage) (name : Bytes) : SockaddrStorage :=
  { s.put 0 (name.take s.addrLen) with addrLen := name.length }

/-- The bytes that `bind` and `connect` are given. -/
def name (s : SockaddrStorage) : Bytes := s.get 0 s.addrLen

end SockaddrStorage

/-! ### The bytes -/

/-- The layout of a `sockaddr_in`. -/
def inName (port : UInt16) (addr : Bytes) : Bytes :=
  familyBytes InetAddress.Family.kIPv4.number ++ portBytes port ++ addr ++ List.replicate 8 0

/-- The layout of a `sockaddr_in6`, whose flow information and scope are zero. -/
def in6Name (port : UInt16) (addr : Bytes) : Bytes :=
  familyBytes InetAddress.Family.kIPv6.number ++ portBytes port ++ List.replicate 4 0 ++ addr ++
    List.replicate 4 0

/-- What is left when a text is no address: family and port, and zeros. -/
def failedName (family : InetAddress.Family) (port : UInt16) : Bytes :=
  familyBytes family.number ++ portBytes port ++ List.replicate 124 0

namespace InetAddress

/-- The bytes of an address for the system calls. -/
def encode (a : InetAddress) : Bytes :=
  match a.family with
  | .kIPv4 => inName a.port (a.bytes.toList.take IPV4_ADDR_SIZE)
  | .kIPv6 => in6Name a.port a.bytes.toList
  | .kIPAny => List.replicate 128 0

/-- The address that the bytes are, by their number. -/
def decode (name : Bytes) : InetAddress :=
  if name.length = 16 then
    { bytes := storeAt new.bytes 0 ((name.drop 4).take 4)
      port := portOf ((name.drop 2).take 2)
      family := .kIPv4 }
  else if name.length = 28 then
    { bytes := storeAt new.bytes 0 ((name.drop 8).take 16)
      port := portOf ((name.drop 2).take 2)
      family := .kIPv6 }
  else new

/-- What every constructor keeps: the bytes that do not count are zero. -/
def Normal (a : InetAddress) : Prop :=
  match a.family with
  | .kIPv4 => a.bytes.toList.drop IPV4_ADDR_SIZE = List.replicate 12 0
  | .kIPv6 => True
  | .kIPAny => a = new

/-- The bytes of a text with a port. -/
def textName (pton : InetPton) (ip : Bytes) (port : UInt16) (ipv6 : Bool) : Bytes :=
  if ipv6 || ip.contains IPV6_DELIM then
    (pton.ipv6 ip).elim (failedName .kIPv6 port) fun bytes => in6Name port bytes.toList
  else (pton.ipv4 ip).elim (failedName .kIPv4 port) fun bytes => inName port bytes.toList

end InetAddress

theorem length_familyBytes (family : UInt16) : (familyBytes family).length = 2 := rfl

theorem length_portBytes (port : UInt16) : (portBytes port).length = 2 := rfl

theorem portOf_portBytes (port : UInt16) : portOf (portBytes port) = port := by
  apply UInt16.toNat_inj.mp
  have h := port.toNat_lt
  simp only [portOf, portBytes, List.getElem?_cons_zero, List.getElem?_cons_succ, Option.getD_some,
    UInt16.toNat_ofNat', UInt8.toNat_ofNat']
  omega

theorem length_inName {port : UInt16} {addr : Bytes} (h : addr.length = 4) :
    (inName port addr).length = 16 := by
  simp [inName, length_familyBytes, length_portBytes, h]

theorem length_in6Name {port : UInt16} {addr : Bytes} (h : addr.length = 16) :
    (in6Name port addr).length = 28 := by
  simp [in6Name, length_familyBytes, length_portBytes, h]

theorem length_failedName (family : InetAddress.Family) (port : UInt16) :
    (failedName family port).length = 128 := by
  simp [failedName, length_familyBytes, length_portBytes]

/-! ### The members -/

namespace SockaddrStorage

variable {s : SockaddrStorage} {offset len : Nat} {bytes : Bytes}

theorem get_put (hlen : bytes.length = len) (h : offset + len ≤ 128) :
    (s.put offset bytes).get offset len = bytes := by
  subst hlen
  exact loadAt_storeAt h

theorem get_put_of_disjoint {at' len' : Nat} (hlen : bytes.length = len)
    (h : at' + len' ≤ offset ∨ offset + len ≤ at') :
    (s.put offset bytes).get at' len' = s.get at' len' := by
  subst hlen
  exact loadAt_storeAt_of_disjoint h

theorem get_new (h : offset + len ≤ 128) : new.get offset len = List.replicate len 0 :=
  loadAt_replicate 0 h

/-- The two layouts, member by member. -/
theorem get_in (s : SockaddrStorage) :
    s.get 0 16 = s.get 0 2 ++ s.get 2 2 ++ s.get 4 4 ++ s.get 8 8 := by
  calc s.get 0 16 = s.get 0 8 ++ s.get 8 8 := loadAt_add 8
    _ = s.get 0 4 ++ s.get 4 4 ++ s.get 8 8 := congrArg (· ++ s.get 8 8) (loadAt_add 4)
    _ = s.get 0 2 ++ s.get 2 2 ++ s.get 4 4 ++ s.get 8 8 :=
      congrArg (· ++ s.get 4 4 ++ s.get 8 8) (loadAt_add 2)

theorem get_in6 (s : SockaddrStorage) :
    s.get 0 28 = s.get 0 2 ++ s.get 2 2 ++ s.get 4 4 ++ s.get 8 16 ++ s.get 24 4 := by
  calc s.get 0 28 = s.get 0 24 ++ s.get 24 4 := loadAt_add 4
    _ = s.get 0 8 ++ s.get 8 16 ++ s.get 24 4 := congrArg (· ++ s.get 24 4) (loadAt_add 16)
    _ = s.get 0 4 ++ s.get 4 4 ++ s.get 8 16 ++ s.get 24 4 :=
      congrArg (· ++ s.get 8 16 ++ s.get 24 4) (loadAt_add 4)
    _ = s.get 0 2 ++ s.get 2 2 ++ s.get 4 4 ++ s.get 8 16 ++ s.get 24 4 :=
      congrArg (· ++ s.get 4 4 ++ s.get 8 16 ++ s.get 24 4) (loadAt_add 2)

theorem get_failed (s : SockaddrStorage) :
    s.get 0 128 = s.get 0 2 ++ s.get 2 2 ++ s.get 4 124 := by
  calc s.get 0 128 = s.get 0 4 ++ s.get 4 124 := loadAt_add 124
    _ = s.get 0 2 ++ s.get 2 2 ++ s.get 4 124 := congrArg (· ++ s.get 4 124) (loadAt_add 2)

/-- The object holds these bytes, and they are as many as it says. -/
structure Denotes (s : SockaddrStorage) (bytes : Bytes) : Prop where
  name : s.name = bytes
  addrLen : s.addrLen = bytes.length

theorem Denotes.le (h : s.Denotes bytes) : bytes.length ≤ 128 := by
  rw [← h.name, SockaddrStorage.name, get, loadAt, List.length_take, List.length_drop,
    Vector.length_toList]
  omega

theorem new_denotes : new.Denotes (List.replicate 128 0) where
  name := get_new (le_refl _)
  addrLen := List.length_replicate.symm

theorem copy_denotes {other : SockaddrStorage} (memory : Vector UInt8 128)
    (h : other.Denotes bytes) : (copy memory other).Denotes bytes := by
  have hlen := h.addrLen
  have hsame : (copy memory other).addrLen = other.addrLen := by
    unfold copy put
    rfl
  have hbound : 0 + other.addrLen ≤ 128 := by
    rw [Nat.zero_add, hlen]
    exact h.le
  have hload : (other.get 0 other.addrLen).length = other.addrLen := length_loadAt hbound
  refine ⟨Eq.trans ?_ h.name, hsame.trans hlen⟩
  rw [SockaddrStorage.name, SockaddrStorage.name, hsame, copy]
  exact get_put hload hbound

theorem receive_denotes {name : Bytes} (hfits : name.length ≤ s.addrLen) (hsize : s.addrLen ≤ 128) :
    (s.receive name).Denotes name := by
  refine ⟨?_, rfl⟩
  have hput : (s.put 0 name).get 0 name.length = name := get_put rfl (by omega)
  rw [receive, List.take_of_length_le hfits]
  exact hput

/-! ### The constructors -/

section Header

variable (s : SockaddrStorage) (family : InetAddress.Family) (port : UInt16)

/-- Family and port are written. -/
def putHeader : SockaddrStorage :=
  (s.put familyOffset (familyBytes family.number)).put portOffset (portBytes port)

theorem get_putHeader_family : (s.putHeader family port).get 0 2 = familyBytes family.number := by
  rw [putHeader, familyOffset, portOffset,
    get_put_of_disjoint (length_portBytes port) (Or.inl (by decide))]
  exact get_put (length_familyBytes _) (by decide)

theorem get_putHeader_port : (s.putHeader family port).get 2 2 = portBytes port :=
  get_put (length_portBytes port) (by decide)

/-- What lies behind them stays. -/
theorem get_putHeader (h : 4 ≤ offset) :
    (s.putHeader family port).get offset len = s.get offset len := by
  have hport : portOffset + 2 ≤ offset := h
  have hfamily : familyOffset + 2 ≤ offset := le_trans (by decide) h
  rw [putHeader, get_put_of_disjoint (length_portBytes port) (Or.inr hport),
    get_put_of_disjoint (length_familyBytes _) (Or.inr hfamily)]

end Header

/-- An object with the bytes of a `sockaddr_in`. -/
theorem denotes_in {port : UInt16} {addr : Bytes} (haddr : addr.length = 4) (hlen : s.addrLen = 16)
    (hfamily : s.get 0 2 = familyBytes InetAddress.Family.kIPv4.number)
    (hport : s.get 2 2 = portBytes port) (hsin : s.get 4 4 = addr)
    (hzero : s.get 8 8 = List.replicate 8 0) : s.Denotes (inName port addr) := by
  refine ⟨?_, hlen.trans (length_inName haddr).symm⟩
  rw [SockaddrStorage.name, hlen, get_in, hfamily, hport, hsin, hzero, inName]

/-- An object with the bytes of a `sockaddr_in6`. -/
theorem denotes_in6 {port : UInt16} {addr : Bytes} (haddr : addr.length = 16) (hlen : s.addrLen = 28)
    (hfamily : s.get 0 2 = familyBytes InetAddress.Family.kIPv6.number)
    (hport : s.get 2 2 = portBytes port) (hflow : s.get 4 4 = List.replicate 4 0)
    (hsin : s.get 8 16 = addr) (hscope : s.get 24 4 = List.replicate 4 0) :
    s.Denotes (in6Name port addr) := by
  refine ⟨?_, hlen.trans (length_in6Name haddr).symm⟩
  rw [SockaddrStorage.name, hlen, get_in6, hfamily, hport, hflow, hsin, hscope, in6Name]

theorem ofInetAddress_denotes (a : InetAddress) : (ofInetAddress a).Denotes a.encode := by
  cases hfamily : a.family with
  | kIPAny =>
      rw [ofInetAddress, InetAddress.encode, hfamily]
      exact new_denotes
  | kIPv4 =>
      have haddr : (a.bytes.toList.take IPV4_ADDR_SIZE).length = 4 := by simp [IPV4_ADDR_SIZE]
      rw [ofInetAddress, InetAddress.encode, hfamily]
      refine denotes_in haddr rfl (get_putHeader_family ..) (get_putHeader_port ..)
        ((get_putHeader _ _ _ (by omega)).trans (get_put haddr (by decide)))
        ((get_putHeader _ _ _ (by omega)).trans ?_)
      rw [get_put_of_disjoint haddr (Or.inr (by decide))]
      exact get_new (by omega)
  | kIPv6 =>
      have hall : a.bytes.toList.take IPV6_ADDR_SIZE = a.bytes.toList :=
        List.take_of_length_le (by simp [IPV6_ADDR_SIZE])
      have haddr : a.bytes.toList.length = 16 := by simp
      rw [ofInetAddress, InetAddress.encode, hfamily, hall]
      refine denotes_in6 haddr rfl (get_putHeader_family ..) (get_putHeader_port ..)
        ((get_putHeader _ _ _ (by omega)).trans ?_)
        ((get_putHeader _ _ _ (by omega)).trans (get_put haddr (by decide)))
        ((get_putHeader _ _ _ (by omega)).trans ?_)
      · rw [get_put_of_disjoint haddr (Or.inl (by decide))]
        exact get_new (by omega)
      · rw [get_put_of_disjoint haddr (Or.inr (by decide))]
        exact get_new (by omega)

theorem ofInetAddress_isValid (a : InetAddress) :
    (ofInetAddress a).isValid = true ↔ a.family ≠ .kIPAny := by
  rw [ofInetAddress]
  cases a.family with
  | kIPAny => exact iff_of_false Bool.noConfusion fun h => h rfl
  | kIPv4 => exact iff_of_true rfl InetAddress.Family.noConfusion
  | kIPv6 => exact iff_of_true rfl InetAddress.Family.noConfusion

theorem ofText_denotes (pton : InetPton) (ip : Bytes) (port : UInt16) (ipv6 : Bool) :
    (ofText pton ip port ipv6).Denotes (InetAddress.textName pton ip port ipv6) := by
  -- a text that is no address leaves the length of the whole storage
  have hfailed : ∀ family : InetAddress.Family,
      (new.putHeader family port).Denotes (failedName family port) := by
    intro family
    refine ⟨?_, (length_failedName family port).symm⟩
    have hname : (new.putHeader family port).name = (new.putHeader family port).get 0 128 := rfl
    rw [hname, get_failed, get_putHeader_family, get_putHeader_port,
      get_putHeader _ _ _ (by omega), get_new (by omega), failedName]
  rw [ofText, InetAddress.textName]
  split
  · cases pton.ipv6 ip with
    | none => exact hfailed .kIPv6
    | some bytes =>
        have haddr : bytes.toList.length = 16 := bytes.length_toList
        refine denotes_in6 haddr rfl ?_ ?_ ?_ (get_put haddr (by decide)) ?_
        · exact (get_put_of_disjoint haddr (Or.inl (by decide))).trans (get_putHeader_family ..)
        · exact (get_put_of_disjoint haddr (Or.inl (by decide))).trans (get_putHeader_port ..)
        · refine (get_put_of_disjoint haddr (Or.inl (by decide))).trans ?_
          exact (get_putHeader _ _ _ (by omega)).trans (get_new (by omega))
        · refine (get_put_of_disjoint haddr (Or.inr (by decide))).trans ?_
          exact (get_putHeader _ _ _ (by omega)).trans (get_new (by omega))
  · cases pton.ipv4 ip with
    | none => exact hfailed .kIPv4
    | some bytes =>
        have haddr : bytes.toList.length = 4 := bytes.length_toList
        refine denotes_in haddr rfl ?_ ?_ (get_put haddr (by decide)) ?_
        · exact (get_put_of_disjoint haddr (Or.inl (by decide))).trans (get_putHeader_family ..)
        · exact (get_put_of_disjoint haddr (Or.inl (by decide))).trans (get_putHeader_port ..)
        · refine (get_put_of_disjoint haddr (Or.inr (by decide))).trans ?_
          exact (get_putHeader _ _ _ (by omega)).trans (get_new (by omega))

/-! ### What is read back -/

theorem Denotes.isIPv4 (h : s.Denotes bytes) : s.isIPv4 = decide (bytes.length = 16) := by
  rw [SockaddrStorage.isIPv4, h.addrLen, sizeofIn]

theorem Denotes.isIPv6 (h : s.Denotes bytes) : s.isIPv6 = decide (bytes.length = 28) := by
  rw [SockaddrStorage.isIPv6, h.addrLen, sizeofIn6]

/-- A member of an object, found in its bytes. -/
theorem Denotes.get (h : s.Denotes bytes) (hlen : offset + len ≤ bytes.length) :
    s.get offset len = (bytes.drop offset).take len := by
  have hload : ((s.get 0 s.addrLen).drop offset).take len = s.get (0 + offset) len :=
    loadAt_loadAt (h.addrLen ▸ hlen)
  rw [Nat.zero_add] at hload
  exact hload.symm.trans (congrArg (fun name => (name.drop offset).take len) h.name)

theorem Denotes.toInetAddress (h : s.Denotes bytes) : s.toInetAddress = InetAddress.decode bytes := by
  rw [SockaddrStorage.toInetAddress, InetAddress.decode, h.isIPv4, h.isIPv6]
  by_cases hin : bytes.length = 16
  · rw [if_pos (decide_eq_true hin), if_pos hin]
    rw [h.get (by rw [hin]; decide), h.get (by rw [hin]; decide)]
    rfl
  · rw [if_neg (by simpa using hin), if_neg hin]
    by_cases hin6 : bytes.length = 28
    · rw [if_pos (decide_eq_true hin6), if_pos hin6]
      rw [h.get (by rw [hin6]; decide), h.get (by rw [hin6]; decide)]
      rfl
    · rw [if_neg (by simpa using hin6), if_neg hin6]

theorem Denotes.addressFamily (h : s.Denotes bytes) :
    s.addressFamily =
      if bytes.length = 16 ∨ bytes.length = 28 then familyOf (bytes.take 2)
      else InetAddress.Family.kIPAny.number := by
  rw [SockaddrStorage.addressFamily, isValid, h.isIPv4, h.isIPv6]
  by_cases hvalid : bytes.length = 16 ∨ bytes.length = 28
  · rw [if_pos (by simpa using hvalid), if_pos hvalid, h.get (by rw [familyOffset]; omega)]
    rfl
  · rw [if_neg (by simpa using hvalid), if_neg hvalid]

end SockaddrStorage

namespace InetAddress

/-- The constructor from a text. -/
def ofText (pton : InetPton) (ip : Bytes) (port : UInt16) (family : Family) : InetAddress :=
  match family with
  | .kIPv4 =>
      match pton.ipv4 ip with
      | some bytes => ⟨storeAt new.bytes 0 bytes.toList, port, .kIPv4⟩
      | none => new
  | .kIPv6 =>
      match pton.ipv6 ip with
      | some bytes => ⟨storeAt new.bytes 0 bytes.toList, port, .kIPv6⟩
      | none => new
  | .kIPAny => new

theorem storeAt_new_ipv6 (bytes : Vector UInt8 16) : storeAt new.bytes 0 bytes.toList = bytes := by
  have hload : loadAt (storeAt new.bytes 0 bytes.toList) 0 bytes.toList.length = bytes.toList :=
    loadAt_storeAt (by simp)
  rw [Vector.length_toList, loadAt, List.drop_zero, List.take_of_length_le (by simp)] at hload
  exact Vector.toList_inj.mp hload

/-- The bytes of an IPv4 address in an array of sixteen. -/
theorem toList_storeAt_new_ipv4 {addr : Bytes} (h : addr.length = 4) :
    (storeAt new.bytes 0 addr).toList = addr ++ List.replicate 12 0 := by
  have hhead : loadAt (storeAt new.bytes 0 addr) 0 4 = addr := h ▸ loadAt_storeAt (by omega)
  have htail : loadAt (storeAt new.bytes 0 addr) 4 12 = loadAt new.bytes 4 12 :=
    loadAt_storeAt_of_disjoint (Or.inr (by omega))
  have hall : loadAt (storeAt new.bytes 0 addr) 0 16 = (storeAt new.bytes 0 addr).toList := by
    rw [loadAt, List.drop_zero, List.take_of_length_le (by simp)]
  calc (storeAt new.bytes 0 addr).toList = loadAt (storeAt new.bytes 0 addr) 0 16 := hall.symm
    _ = loadAt (storeAt new.bytes 0 addr) 0 4 ++ loadAt (storeAt new.bytes 0 addr) 4 12 :=
        loadAt_add 12
    _ = addr ++ loadAt new.bytes 4 12 := by rw [hhead, htail]
    _ = addr ++ List.replicate 12 0 := congrArg (addr ++ ·) (loadAt_replicate 0 (by decide))

/-- The first four bytes are all that counts when the others are zero. -/
theorem storeAt_take_ipv4 {bytes : Vector UInt8 16}
    (h : bytes.toList.drop IPV4_ADDR_SIZE = List.replicate 12 0) :
    storeAt new.bytes 0 (bytes.toList.take IPV4_ADDR_SIZE) = bytes := by
  apply Vector.toList_inj.mp
  rw [toList_storeAt_new_ipv4 (by simp [IPV4_ADDR_SIZE]), ← h, List.take_append_drop]

theorem ofText_normal (pton : InetPton) (ip : Bytes) (port : UInt16) (family : Family) :
    (ofText pton ip port family).Normal := by
  cases family with
  | kIPAny => rfl
  | kIPv6 =>
      rw [ofText]
      cases pton.ipv6 ip with
      | none => rfl
      | some bytes => trivial
  | kIPv4 =>
      rw [ofText]
      cases pton.ipv4 ip with
      | none => rfl
      | some bytes =>
          have hlist := toList_storeAt_new_ipv4 bytes.length_toList
          change (storeAt new.bytes 0 bytes.toList).toList.drop 4 = List.replicate 12 0
          rw [hlist]
          exact List.drop_left' bytes.length_toList

/-- The round trip of an address through the bytes of the system calls. -/
theorem decode_encode {a : InetAddress} (h : a.Normal) : decode a.encode = a := by
  obtain ⟨bytes, port, family⟩ := a
  cases family with
  | kIPAny =>
      have hnew : (⟨bytes, port, .kIPAny⟩ : InetAddress) = new := h
      have hlen : (List.replicate 128 (0 : UInt8)).length = 128 := List.length_replicate
      change decode (List.replicate 128 0) = _
      rw [decode, if_neg (by rw [hlen]; decide), if_neg (by rw [hlen]; decide), hnew]
  | kIPv4 =>
      have haddr : (bytes.toList.take 4).length = 4 := by simp
      have hlen : (inName port (bytes.toList.take 4)).length = 16 := length_inName haddr
      have hbytes : storeAt new.bytes 0 (bytes.toList.take 4) = bytes := storeAt_take_ipv4 h
      have hdrop : ((inName port (bytes.toList.take 4)).drop 4).take 4 = bytes.toList.take 4 := by
        rw [inName, List.append_assoc, List.drop_left' (by rfl), List.take_left' haddr]
      have hport : ((inName port (bytes.toList.take 4)).drop 2).take 2 = portBytes port := rfl
      change decode (inName port (bytes.toList.take 4)) = _
      rw [decode, if_pos hlen, hdrop, hport, hbytes, portOf_portBytes]
  | kIPv6 =>
      have hlen : (in6Name port bytes.toList).length = 28 := length_in6Name (by simp)
      have hdrop : ((in6Name port bytes.toList).drop 8).take 16 = bytes.toList := by
        rw [in6Name, List.append_assoc, List.drop_left' (by rfl), List.take_left' (by simp)]
      have hport : ((in6Name port bytes.toList).drop 2).take 2 = portBytes port := rfl
      change decode (in6Name port bytes.toList) = _
      rw [decode, if_neg (by rw [hlen]; decide), if_pos hlen, hdrop, hport, storeAt_new_ipv6,
        portOf_portBytes]

end InetAddress

end Iomgr
