import Iomgr.InetAddressText
import Iomgr.ObjectTable
import Iomgr.SockaddrStorage

/-!
Programs on objects of class `SockaddrStorage`, and addresses as texts. An address goes into an object,
through any copies and assignments, and comes out of any of them as it was, whatever the memory held
before; the text that an address is shown as makes the same address again.
-/

namespace Iomgr

open FixedBuffer

namespace SockaddrStorage

/-- The objects by number. -/
abbrev Store := Nat → Option SockaddrStorage

/-- An operation; a copy is made in memory that holds anything, `receive` is `accept` or
`getsockname`. -/
inductive Action
  | construct (x : Nat)
  | ofText (x : Nat) (ip : Bytes) (port : UInt16) (ipv6 : Bool)
  | ofInetAddress (x : Nat) (address : InetAddress)
  | copy (x other : Nat) (memory : Vector UInt8 128)
  | assign (x other : Nat)
  | receive (x : Nat) (name : Bytes)
  | destroy (x : Nat)

def step (pton : InetPton) (s : Store) : Action → Option Store
  | .construct x => ObjectTable.construct s x (some new)
  | .ofText x ip port ipv6 => ObjectTable.construct s x (some (ofText pton ip port ipv6))
  | .ofInetAddress x address => ObjectTable.construct s x (some (ofInetAddress address))
  | .copy x other memory => ObjectTable.construct s x ((s other).map (copy memory))
  | .assign x other => ObjectTable.modify s x fun this => (s other).map this.assign
  | .receive x name => ObjectTable.modify s x fun this => some (this.receive name)
  | .destroy x => ObjectTable.destroy s x

/-- The bytes for the system calls, by the number of the object. -/
abbrev Names := Nat → Option Bytes

/-- The same program on the bytes alone. -/
def nameStep (pton : InetPton) (v : Names) : Action → Option Names
  | .construct x => ObjectTable.construct v x (some (List.replicate 128 0))
  | .ofText x ip port ipv6 =>
      ObjectTable.construct v x (some (InetAddress.textName pton ip port ipv6))
  | .ofInetAddress x address => ObjectTable.construct v x (some address.encode)
  | .copy x other _ => ObjectTable.construct v x (v other)
  | .assign x other => ObjectTable.modify v x fun _ => v other
  | .receive x name => ObjectTable.modify v x fun _ => some name
  | .destroy x => ObjectTable.destroy v x

/-- What the system call stores is not longer than the object says it may be. -/
def Fits (s : Store) : Action → Prop
  | .receive x name => ∀ this, s x = some this → name.length ≤ this.addrLen
  | _ => True

/-- Each object holds its bytes. -/
def Represents (s : Store) (v : Names) : Prop := ObjectTable.Related Denotes s v

theorem step_represents {pton : InetPton} (s : Store) (v : Names) (a : Action) (s' : Store)
    (h : Represents s v) (hfits : Fits s a) (hstep : step pton s a = some s') :
    ∃ v', nameStep pton v a = some v' ∧ Represents s' v' := by
  cases a with
  | construct x => exact h.construct (Option.Rel.some new_denotes) hstep
  | ofText x ip port ipv6 =>
      exact h.construct (Option.Rel.some (ofText_denotes pton ip port ipv6)) hstep
  | ofInetAddress x address =>
      exact h.construct (Option.Rel.some (ofInetAddress_denotes address)) hstep
  | copy x other memory =>
      refine h.construct ?_ hstep
      have hother := h other
      cases hs : s other with
      | none =>
          rw [hs] at hother
          rw [ObjectTable.eq_none_of_rel hother]
          exact Option.Rel.none
      | some o =>
          obtain ⟨bytes, hbytes, hdenotes⟩ := h.value hs
          rw [hbytes]
          exact Option.Rel.some (copy_denotes memory hdenotes)
  | assign x other =>
      refine h.modify (fun this bytes _ _ => ?_) hstep
      have hother := h other
      cases hs : s other with
      | none =>
          rw [hs] at hother
          rw [ObjectTable.eq_none_of_rel hother]
          exact Option.Rel.none
      | some o =>
          obtain ⟨bytes, hbytes, hdenotes⟩ := h.value hs
          rw [hbytes]
          exact Option.Rel.some (copy_denotes this.addrStorage hdenotes)
  | receive x name =>
      refine h.modify (fun this bytes hthis hdenotes => Option.Rel.some ?_) hstep
      have hle : this.addrLen ≤ 128 := hdenotes.addrLen.trans_le hdenotes.le
      exact receive_denotes (hfits this hthis) hle
  | destroy x => exact h.destroy hstep

section Example

instance (s : Store) (a : Action) : Decidable (Fits s a) :=
  match a with
  | .receive x name =>
      match h : s x with
      | none => isTrue fun this hthis => absurd (h.symm.trans hthis) (by simp)
      | some this =>
          decidable_of_iff (name.length ≤ this.addrLen)
            ⟨fun hle _ hthis => Option.some.inj (h.symm.trans hthis) ▸ hle, fun hfits => hfits _ h⟩
  | .construct _ | .ofText _ _ _ _ | .ofInetAddress _ _ | .copy _ _ _ | .assign _ _ | .destroy _ =>
      isTrue trivial

def loopbackText : Bytes := bytesOf "127.0.0.1".toList

def readsLoopback : InetPton where
  ipv4 text := if text = loopbackText then some #v[127, 0, 0, 1] else none
  ipv6 _ := none

def loopback : InetAddress := InetAddress.ofText readsLoopback loopbackText 8080 .kIPv4

end Example

end SockaddrStorage

/-! ### Texts -/

/-- Dotted decimal as `inet_pton` takes it: without leading zeros. -/
def ReadsIPv4 (text : Bytes) (bytes : Vector UInt8 4) : Prop :=
  ∃ pieces, text = [IPV4_DELIM].intercalate pieces ∧
    List.Forall₂ (fun piece x => Numeral 10 3 piece x ∧ (piece.head? = some 48 → piece.length = 1))
      pieces (bytes.toList.map UInt8.toNat)

/-- What `inet_pton` is documented to read. In the text of an IPv6 address there are only digits,
colons and dots. -/
structure InetPton.Documented (pton : InetPton) : Prop where
  ipv4 : ∀ text bytes, ReadsIPv4 text bytes → pton.ipv4 text = some bytes
  ipv6 : ∀ text bytes, DenotesIPv6 text bytes → pton.ipv6 text = some bytes
  ipv6_rejects : ∀ text c, c ∈ text → numeralDigit c = none → c ≠ IPV6_DELIM → c ≠ IPV4_DELIM →
    pton.ipv6 text = none

theorem toIPv4Address_eq (bytes : Vector UInt8 4) :
    toIPv4Address bytes = [IPV4_DELIM].intercalate (bytes.toList.map fun b => decimal b.toNat) := by
  obtain ⟨⟨cells⟩, hsize⟩ := bytes
  match cells, hsize with
  | [a, b, c, d], _ => simp [toIPv4Address, List.finRange, List.intercalate, List.intersperse]

theorem decimal_no_leading_zero :
    ∀ x < 256, (decimal x).head? = some 48 → (decimal x).length = 1 := by
  decide +kernel

theorem toIPv4Address_read {pton : InetPton} (h : pton.Documented) (bytes : Vector UInt8 4) :
    pton.ipv4 (toIPv4Address bytes) = some bytes := by
  apply h.ipv4
  refine ⟨_, toIPv4Address_eq bytes, ?_⟩
  rw [List.forall₂_map_left_iff, List.forall₂_map_right_iff, List.forall₂_same]
  exact fun b _ => ⟨numeral_decimal b, decimal_no_leading_zero _ b.toNat_lt⟩

theorem mem_intercalate {delim c : UInt8} {pieces : List Bytes}
    (h : c ∈ [delim].intercalate pieces) : c = delim ∨ ∃ piece ∈ pieces, c ∈ piece := by
  induction pieces with
  | nil => cases h
  | cons piece pieces ih =>
      by_cases hne : pieces = []
      · subst hne
        rw [List.intercalate_singleton] at h
        exact .inr ⟨piece, List.mem_cons_self, h⟩
      · rw [List.intercalate_cons_of_ne_nil hne] at h
        rcases List.mem_append.mp h with h | h
        · rcases List.mem_append.mp h with h | h
          · exact .inr ⟨piece, List.mem_cons_self, h⟩
          · exact .inl (List.mem_singleton.mp h)
        · rcases ih h with rfl | ⟨p, hp, hc⟩
          · exact .inl rfl
          · exact .inr ⟨p, List.mem_cons_of_mem _ hp, hc⟩

/-- The text of an IPv4 address has no colon, so that it is not taken for an IPv6 address. -/
theorem colon_notMem_toIPv4Address (bytes : Vector UInt8 4) : IPV6_DELIM ∉ toIPv4Address bytes := by
  intro hmem
  obtain ⟨pieces, htext, hpieces⟩ := toIPv4Address_denotes bytes
  rw [htext] at hmem
  rcases mem_intercalate hmem with hdelim | ⟨piece, hpiece, hc⟩
  · exact absurd hdelim (by decide)
  · obtain ⟨x, hx⟩ := exists_numeral_of_mem hpieces piece hpiece
    exact hx.notMem (by decide) hc

/-- The text of an IPv6 address has one. -/
theorem DenotesGroups.colon_mem {text : Bytes} {groups : List ℕ} (h : DenotesGroups text groups) :
    IPV6_DELIM ∈ text := by
  cases h with
  | @contracted left right _ _ _ _ _ => simp
  | @full pieces _ hpieces hlength =>
      match pieces, hpieces.length_eq.trans hlength with
      | piece :: next :: rest, _ =>
          rw [List.intercalate_cons_of_ne_nil (List.cons_ne_nil _ _)]
          simp

/-- The text of an IPv6 address consists of digits and colons. -/
theorem DenotesGroups.digit_or_colon {text : Bytes} {groups : List ℕ}
    (h : DenotesGroups text groups) {c : UInt8} (hc : c ∈ text) :
    c = IPV6_DELIM ∨ (numeralDigit c).isSome := by
  have hpieces : ∀ {pieces : List Bytes} {values : List ℕ},
      List.Forall₂ (Numeral 16 4) pieces values → c ∈ [IPV6_DELIM].intercalate pieces →
      c = IPV6_DELIM ∨ (numeralDigit c).isSome := by
    intro pieces values hvalues hmem
    refine (mem_intercalate hmem).imp_right ?_
    rintro ⟨piece, hpiece, hin⟩
    obtain ⟨x, hx⟩ := exists_numeral_of_mem hvalues piece hpiece
    obtain ⟨d, hd, -⟩ := hx.digits c hin
    exact Option.isSome_iff_exists.mpr ⟨d, hd⟩
  cases h with
  | full hwhole _ => exact hpieces hwhole hc
  | contracted hleft hright _ =>
      rcases List.mem_append.mp hc with hc | hc
      · rcases List.mem_append.mp hc with hc | hc
        · exact hpieces hleft hc
        · left
          simpa using hc
      · exact hpieces hright hc

open Classical in
/-- A value that the text reads as, if there is one. -/
noncomputable def readingOf {α : Type} (reads : Bytes → α → Prop) (text : Bytes) : Option α :=
  if h : ∃ value, reads text value then some h.choose else none

theorem readingOf_eq_some {α : Type} {reads : Bytes → α → Prop} {text : Bytes} {value : α}
    (hreads : reads text value) (hunique : ∀ other, reads text other → other = value) :
    readingOf reads text = some value := by
  have hex : ∃ value, reads text value := ⟨value, hreads⟩
  rw [readingOf, dif_pos hex, hunique _ hex.choose_spec]

theorem readingOf_eq_none {α : Type} {reads : Bytes → α → Prop} {text : Bytes}
    (h : ∀ value, ¬reads text value) : readingOf reads text = none := by
  have hnex : ¬∃ value, reads text value := fun hex => h _ hex.choose_spec
  rw [readingOf, dif_neg hnex]

/-- It reads what is documented and nothing else. -/
noncomputable def documentedPton : InetPton where
  ipv4 text := readingOf ReadsIPv4 text
  ipv6 text := readingOf DenotesIPv6 text

theorem documentedPton_documented : documentedPton.Documented where
  ipv4 text bytes h := by
    have hdenotes : ∀ {bytes}, ReadsIPv4 text bytes → DenotesIPv4 text bytes := by
      rintro bytes ⟨pieces, htext, hpieces⟩
      exact ⟨pieces, htext, hpieces.imp fun _ _ hnumeral => hnumeral.1⟩
    apply readingOf_eq_some h
    exact fun other hother => denotesIPv4_unique (hdenotes hother) (hdenotes h)
  ipv6 text bytes h := readingOf_eq_some h fun _ hother => denotesIPv6_unique hother h
  ipv6_rejects text c hc hdigit hcolon _ := by
    apply readingOf_eq_none
    rintro bytes ⟨groups, hgroups, -⟩
    rcases hgroups.digit_or_colon hc with heq | hsome
    · exact hcolon heq
    · rw [hdigit] at hsome
      cases hsome

namespace InetAddress

/-- What `ip` shows, without the brackets around an IPv6 address. -/
def PlainText (a : InetAddress) (text : Bytes) : Prop :=
  match a.family with
  | .kIPAny => False
  | .kIPv4 => a.ip = text
  | .kIPv6 => a.ip = byteOf '[' :: text ++ [byteOf ']']

variable {a : InetAddress} {text : Bytes}

theorem plainText_ipv4 (hfamily : a.family = .kIPv4) (h : a.PlainText text) :
    text = toIPv4Address (a.bytes.take 4) := by
  rw [PlainText, hfamily, ip, hfamily] at h
  exact h.symm

theorem plainText_ipv6 (hfamily : a.family = .kIPv6) (h : a.PlainText text) :
    text = groupsFrom a.bytes (chooseIPv6ContractionRange a.bytes) 0 := by
  rw [PlainText, hfamily, ip, hfamily] at h
  have hcons : byteOf '[' :: (groupsFrom a.bytes (chooseIPv6ContractionRange a.bytes) 0 ++
      [byteOf ']']) = byteOf '[' :: (text ++ [byteOf ']']) := h
  exact (List.append_cancel_right (List.tail_eq_of_cons_eq hcons)).symm

/-- With its brackets the text of an IPv6 address is none. -/
theorem ip_rejected {pton : InetPton} (h : pton.Documented) (hfamily : a.family = .kIPv6) :
    pton.ipv6 a.ip = none := by
  have hmem : byteOf '[' ∈ a.ip := by
    rw [ip, hfamily, toIPv6Address]
    exact List.mem_cons_self
  exact h.ipv6_rejects _ _ hmem (by decide) (by decide) (by decide)

/-- The text that is shown for an address makes the same address again, in either class, and the
family is told from the text alone; but with the brackets that `ip` puts around an IPv6 address the
text makes no address. -/
theorem shown_address_read_back {pton : InetPton} (h : pton.Documented) (ha : a.Normal)
    (htext : a.PlainText text) :
    ofText pton text a.port a.family = a ∧
      (SockaddrStorage.ofText pton text a.port false).name = a.encode ∧
      (SockaddrStorage.ofText pton text a.port false).toInetAddress = a ∧
      (a.family = .kIPv6 → ofText pton a.ip a.port .kIPv6 = new ∧
        (SockaddrStorage.ofText pton a.ip a.port false).isValid = false) := by
  have hdenotes := SockaddrStorage.ofText_denotes pton text a.port false
  have hcolon : ∀ family, a.family = family → family ≠ .kIPAny →
      ofText pton text a.port family = a ∧ textName pton text a.port false = a.encode := by
    intro family hfamily hany
    cases family with
    | kIPAny => exact absurd rfl hany
    | kIPv4 =>
        have htext4 := plainText_ipv4 hfamily htext
        have hread := toIPv4Address_read h (a.bytes.take 4)
        have hlist : (a.bytes.take 4).toList = a.bytes.toList.take IPV4_ADDR_SIZE :=
          Vector.toList_take ..
        have hnormal : a.bytes.toList.drop IPV4_ADDR_SIZE = List.replicate 12 0 := by
          rw [Normal, hfamily] at ha
          exact ha
        have hcolon : text.contains IPV6_DELIM = false := by
          rw [htext4]
          simpa using colon_notMem_toIPv4Address (a.bytes.take 4)
        constructor
        · rw [ofText, htext4, hread]
          change (⟨storeAt new.bytes 0 (a.bytes.take 4).toList, a.port, .kIPv4⟩ : InetAddress) = a
          rw [hlist, storeAt_take_ipv4 hnormal, ← hfamily]
        · rw [textName, hcolon, htext4, hread, encode, hfamily]
          exact congrArg (inName a.port) hlist
    | kIPv6 =>
        have htext6 := plainText_ipv6 hfamily htext
        obtain ⟨groups, hgroups, hbytes⟩ := groupsFrom_denotes a.bytes
        have hread : pton.ipv6 text = some a.bytes :=
          h.ipv6 _ _ (htext6 ▸ groupsFrom_denotes a.bytes)
        have hcolon : text.contains IPV6_DELIM = true := by
          rw [htext6]
          simpa using hgroups.colon_mem
        constructor
        · rw [ofText, hread]
          change (⟨storeAt new.bytes 0 a.bytes.toList, a.port, .kIPv6⟩ : InetAddress) = a
          rw [storeAt_new_ipv6, ← hfamily]
        · rw [textName, hcolon, hread, encode, hfamily]
          rfl
  have hany : a.family ≠ .kIPAny := by
    intro hfamily
    rw [PlainText, hfamily] at htext
    exact htext
  obtain ⟨hread, hname⟩ := hcolon a.family rfl hany
  rw [hname] at hdenotes
  refine ⟨hread, hdenotes.name, hdenotes.toInetAddress.trans (decode_encode ha), fun hfamily => ?_⟩
  have hrejected := ip_rejected h hfamily
  constructor
  · rw [ofText, hrejected]
  · obtain ⟨groups, hgroups, -⟩ := groupsFrom_denotes a.bytes
    have hcolon : a.ip.contains IPV6_DELIM = true := by
      rw [ip, hfamily, toIPv6Address]
      simpa using Or.inr (Or.inl hgroups.colon_mem)
    have hbracketed := SockaddrStorage.ofText_denotes pton a.ip a.port false
    rw [textName, hcolon, Bool.false_or, if_pos rfl, hrejected, Option.elim_none] at hbracketed
    rw [SockaddrStorage.isValid, hbracketed.isIPv4, hbracketed.isIPv6, length_failedName]
    decide

def ipv6Text : Bytes := bytesOf "2001:db8::1".toList

def ipv6Address : InetAddress :=
  ⟨#v[0x20, 0x01, 0x0d, 0xb8, 0, 0, 0, 0, 0, 0, 0, 0, 0, 0, 0, 1], 443, .kIPv6⟩

/-- The address `127.0.0.1`, port 8080, as text and back, and the same of `2001:db8::1`, port 443,
which is not read with its brackets. -/
theorem shown_address_read_back_ipv4_ipv6 :
    (ofText documentedPton SockaddrStorage.loopbackText 8080 .kIPv4 = SockaddrStorage.loopback ∧
      (SockaddrStorage.ofText documentedPton SockaddrStorage.loopbackText 8080 false).toInetAddress =
        SockaddrStorage.loopback) ∧
      ofText documentedPton ipv6Text 443 .kIPv6 = ipv6Address ∧
      (SockaddrStorage.ofText documentedPton ipv6Text 443 false).toInetAddress = ipv6Address ∧
      ofText documentedPton (bytesOf "[2001:db8::1]".toList) 443 .kIPv6 = new := by
  have hip : SockaddrStorage.loopback.ip = SockaddrStorage.loopbackText := by decide +kernel
  have hip6 : ipv6Address.ip = bytesOf "[2001:db8::1]".toList := by decide +kernel
  have htext : SockaddrStorage.loopback.PlainText SockaddrStorage.loopbackText := hip
  have htext6 : ipv6Address.PlainText ipv6Text := hip6
  obtain ⟨hread, -, hstorage, -⟩ := shown_address_read_back documentedPton_documented
    (ofText_normal ..) htext
  obtain ⟨hread6, -, hstorage6, hbracketed⟩ := shown_address_read_back documentedPton_documented
    (a := ipv6Address) trivial htext6
  obtain ⟨hrejected, -⟩ := hbracketed rfl
  rw [hip6] at hrejected
  exact ⟨⟨hread, hstorage⟩, hread6, hstorage6, hrejected⟩

end InetAddress

end Iomgr
