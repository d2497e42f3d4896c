import Iomgr.IPv6Contraction
import Mathlib.Data.List.Forall2

/-!
How the text of an address is read: dotted decimal for IPv4; for IPv6 eight groups of one to four
hexadecimal digits with colons between them, of which one run of zero groups may be written as two
colons. A text denotes at most one address, and what the source writes denotes the address it is
written for, so that the comparison of texts compares addresses.
-/

namespace Iomgr

open Delimited LongestRun

/-! ### Numerals -/

/-- The value of a digit, of either case. -/
def numeralDigit (c : UInt8) : Option ℕ :=
  if 48 ≤ c.toNat ∧ c.toNat ≤ 57 then some (c.toNat - 48)
  else if 97 ≤ c.toNat ∧ c.toNat ≤ 102 then some (c.toNat - 97 + 10)
  else if 65 ≤ c.toNat ∧ c.toNat ≤ 70 then some (c.toNat - 65 + 10)
  else none

def numeralValue (base : ℕ) (text : Bytes) : ℕ :=
  text.foldl (fun acc c => base * acc + (numeralDigit c).getD 0) 0

/-- One to `maxLength` digits with the value `x`. -/
structure Numeral (base maxLength : ℕ) (text : Bytes) (x : ℕ) : Prop where
  ne_nil : text ≠ []
  length_le : text.length ≤ maxLength
  digits : ∀ c ∈ text, ∃ d ∈ numeralDigit c, d < base
  value : numeralValue base text = x

theorem Numeral.notMem {base maxLength x : ℕ} {text : Bytes} (h : Numeral base maxLength text x)
    {c : UInt8} (hc : numeralDigit c = none) : c ∉ text := by
  intro hmem
  obtain ⟨d, hd, -⟩ := h.digits c hmem
  rw [hc] at hd
  cases hd

theorem exists_numeral_of_mem {base maxLength : ℕ} {pieces : List Bytes} {values : List ℕ}
    (h : List.Forall₂ (Numeral base maxLength) pieces values) :
    ∀ piece ∈ pieces, ∃ x, Numeral base maxLength piece x := by
  induction h with
  | nil => simp
  | cons hx _ ih => exact List.forall_mem_cons.mpr ⟨⟨_, hx⟩, ih⟩

theorem numeral_rightUnique (base maxLength : ℕ) : Relator.RightUnique (Numeral base maxLength) :=
  fun _ _ _ h h' => h.value.symm.trans h'.value

theorem numeralDigit_digitChar {d : ℕ} (hd : d < 16) : numeralDigit (byteOf d.digitChar) = some d := by
  have hall : ∀ d < 16, numeralDigit (byteOf d.digitChar) = some d := by decide
  exact hall d hd

theorem numeralValue_append (base : ℕ) (text : Bytes) (c : UInt8) :
    numeralValue base (text ++ [c]) = base * numeralValue base text + (numeralDigit c).getD 0 := by
  rw [numeralValue, List.foldl_append]
  rfl

/-- The digits of a number read as the number. -/
theorem numeralValue_toDigits {base : ℕ} (hbase : 1 < base) (hle : base ≤ 16) (n : ℕ) :
    (∀ c ∈ bytesOf (Nat.toDigits base n), ∃ d ∈ numeralDigit c, d < base) ∧
      numeralValue base (bytesOf (Nat.toDigits base n)) = n := by
  induction n using Nat.strong_induction_on with
  | _ n ih =>
      by_cases hlt : n < base
      · have hdigit := numeralDigit_digitChar (Nat.lt_of_lt_of_le hlt hle)
        rw [Nat.toDigits_of_lt_base hlt]
        refine ⟨fun c hc => ?_, ?_⟩
        · rw [List.mem_singleton.mp hc]
          exact ⟨n, hdigit, hlt⟩
        · show base * 0 + (numeralDigit (byteOf n.digitChar)).getD 0 = n
          rw [hdigit, Nat.mul_zero, Nat.zero_add, Option.getD_some]
      · have hmod : n % base < base := Nat.mod_lt n (by omega)
        have hdigit := numeralDigit_digitChar (Nat.lt_of_lt_of_le hmod hle)
        obtain ⟨hdigits, hvalue⟩ := ih (n / base) (Nat.div_lt_self (by omega) hbase)
        rw [Nat.toDigits_of_base_le hbase (Nat.le_of_not_lt hlt), bytesOf, List.map_append,
          List.map_singleton, ← bytesOf]
        refine ⟨fun c hc => ?_, ?_⟩
        · rcases List.mem_append.mp hc with hc | hc
          · exact hdigits c hc
          · rw [List.mem_singleton.mp hc]
            exact ⟨n % base, hdigit, hmod⟩
        · rw [numeralValue_append, hvalue, hdigit, Option.getD_some, Nat.div_add_mod]

theorem numeral_toDigits {base maxLength n : ℕ} (hbase : 1 < base) (hle : base ≤ 16)
    (hlength : 0 < maxLength) (hn : n < base ^ maxLength) :
    Numeral base maxLength (bytesOf (Nat.toDigits base n)) n where
  ne_nil h := Nat.toDigits_ne_nil (List.map_eq_nil_iff.mp h)
  length_le := by
    rw [bytesOf, List.length_map]
    exact (Nat.length_toDigits_le_iff hbase hlength).mpr hn
  digits := (numeralValue_toDigits hbase hle n).1
  value := (numeralValue_toDigits hbase hle n).2

theorem numeral_decimal (b : UInt8) : Numeral 10 3 (decimal b.toNat) b.toNat :=
  numeral_toDigits (by decide) (by decide) (by decide) (by have := b.toNat_lt; omega)

theorem numeral_hexadecimal {x : ℕ} (hx : x < 65536) : Numeral 16 4 (hexadecimal x) x := by
  have h : Numeral 16 4 (bytesOf (Nat.toDigits 16 x)) x :=
    numeral_toDigits (by decide) (by decide) (by decide) hx
  rw [hexadecimal, List.take_of_length_le h.length_le]
  exact h

/-! ### Readings -/

/-- Four decimal numbers with dots between them. -/
def DenotesIPv4 (text : Bytes) (bytes : Vector UInt8 4) : Prop :=
  ∃ pieces, text = [IPV4_DELIM].intercalate pieces ∧
    List.Forall₂ (Numeral 10 3) pieces (bytes.toList.map UInt8.toNat)

/-- Groups of hexadecimal digits with colons between them; two colons stand for the zero groups that
are missing, at least one. -/
inductive DenotesGroups : Bytes → List ℕ → Prop
  | full {pieces : List Bytes} {groups : List ℕ} (h : List.Forall₂ (Numeral 16 4) pieces groups)
      (hlength : groups.length = 8) : DenotesGroups ([IPV6_DELIM].intercalate pieces) groups
  | contracted {left right : List Bytes} {groups groups' : List ℕ}
      (hleft : List.Forall₂ (Numeral 16 4) left groups)
      (hright : List.Forall₂ (Numeral 16 4) right groups')
      (hlength : groups.length + groups'.length < 8) :
      DenotesGroups
        ([IPV6_DELIM].intercalate left ++ [IPV6_DELIM, IPV6_DELIM] ++ [IPV6_DELIM].intercalate right)
        (groups ++ List.replicate (8 - (groups.length + groups'.length)) 0 ++ groups')

/-- The two bytes of a group, in network order. -/
def groupBytes (x : ℕ) : List UInt8 := [UInt8.ofNat (x / 256), UInt8.ofNat (x % 256)]

def DenotesIPv6 (text : Bytes) (bytes : Vector UInt8 16) : Prop :=
  ∃ groups, DenotesGroups text groups ∧ bytes.toList = groups.flatMap groupBytes

/-! ### A text denotes at most one address -/

/-- Numerals can be told apart by a delimiter that is no digit. -/
theorem splitOn_numerals {base maxLength : ℕ} {delim : UInt8} (hdelim : numeralDigit delim = none)
    {pieces : List Bytes} {values : List ℕ} (h : List.Forall₂ (Numeral base maxLength) pieces values)
    (hne : pieces ≠ []) : ([delim].intercalate pieces).splitOn delim = pieces := by
  refine List.splitOn_intercalate delim (fun piece hpiece => ?_) hne
  obtain ⟨x, hx⟩ := exists_numeral_of_mem h piece hpiece
  exact hx.notMem hdelim

theorem denotesIPv4_unique {text : Bytes} {bytes bytes' : Vector UInt8 4}
    (h : DenotesIPv4 text bytes) (h' : DenotesIPv4 text bytes') : bytes = bytes' := by
  obtain ⟨pieces, htext, hpieces⟩ := h
  obtain ⟨pieces', htext', hpieces'⟩ := h'
  have hlength := hpieces.length_eq
  have hlength' := hpieces'.length_eq
  rw [List.length_map, Vector.length_toList] at hlength hlength'
  have hdelim : numeralDigit IPV4_DELIM = none := by decide
  have hsame : pieces = pieces' := by
    rw [← splitOn_numerals hdelim hpieces (List.ne_nil_of_length_pos (by omega)), ← htext, htext',
      splitOn_numerals hdelim hpieces' (List.ne_nil_of_length_pos (by omega))]
  rw [← hsame] at hpieces'
  have hvalues := List.right_unique_forall₂' (numeral_rightUnique 10 3) hpieces hpieces'
  have hinj : Function.Injective UInt8.toNat := fun _ _ h => UInt8.toNat_inj.mp h
  exact Vector.toList_inj.mp (List.map_injective_iff.mpr hinj hvalues)

/-- Around two colons there is an empty piece where there is no group. -/
def padded (pieces : List Bytes) : List Bytes := if pieces = [] then [[]] else pieces

theorem padded_ne_nil (pieces : List Bytes) : padded pieces ≠ [] := by
  unfold padded
  split_ifs with h
  · exact List.cons_ne_nil _ _
  · exact h

theorem intercalate_padded (delim : UInt8) (pieces : List Bytes) :
    [delim].intercalate (padded pieces) = [delim].intercalate pieces := by
  unfold padded
  split_ifs with h
  · rw [h]
    rfl
  · rfl

theorem reverse_padded (pieces : List Bytes) : (padded pieces).reverse = padded pieces.reverse := by
  unfold padded
  split_ifs with h h' h'
  · rfl
  · exact absurd (List.reverse_eq_nil_iff.mpr h) h'
  · exact absurd (List.reverse_eq_nil_iff.mp h') h
  · rfl

theorem takeWhile_padded {pieces : List Bytes} (hne : ∀ piece ∈ pieces, piece ≠ [])
    (rest : List Bytes) : (padded pieces ++ [] :: rest).takeWhile (· ≠ []) = pieces := by
  unfold padded
  split_ifs with h
  · rw [h]
    rfl
  · rw [List.takeWhile_append_of_pos (by simpa using hne), List.takeWhile_cons_of_neg (by simp),
      List.append_nil]

section

variable {left right : List Bytes} {groups groups' : List ℕ}
  (hleft : List.Forall₂ (Numeral 16 4) left groups)
  (hright : List.Forall₂ (Numeral 16 4) right groups')

include hleft hright

theorem splitOn_contracted :
    ([IPV6_DELIM].intercalate left ++ [IPV6_DELIM, IPV6_DELIM] ++
      [IPV6_DELIM].intercalate right).splitOn IPV6_DELIM = padded left ++ [] :: padded right := by
  have htext : [IPV6_DELIM].intercalate left ++ [IPV6_DELIM, IPV6_DELIM] ++
      [IPV6_DELIM].intercalate right = [IPV6_DELIM].intercalate (padded left ++ [] :: padded right) := by
    rw [intercalate_append (padded_ne_nil left) (List.cons_ne_nil _ _), intercalate_padded,
      List.intercalate_cons_of_ne_nil (padded_ne_nil right), intercalate_padded, List.nil_append,
      List.append_assoc]
    rfl
  have hfree : ∀ {pieces : List Bytes} {values : List ℕ},
      List.Forall₂ (Numeral 16 4) pieces values → ∀ piece ∈ padded pieces, IPV6_DELIM ∉ piece := by
    intro pieces values h piece hpiece
    unfold padded at hpiece
    split_ifs at hpiece
    · rw [List.mem_singleton.mp hpiece]
      exact List.not_mem_nil
    · obtain ⟨x, hx⟩ := exists_numeral_of_mem h piece hpiece
      exact hx.notMem (by decide)
  rw [htext]
  refine List.splitOn_intercalate _ (fun piece hpiece => ?_) (by simp)
  rcases List.mem_append.mp hpiece with hpiece | hpiece
  · exact hfree hleft piece hpiece
  · rcases List.mem_cons.mp hpiece with rfl | hpiece
    · exact List.not_mem_nil
    · exact hfree hright piece hpiece

omit hleft hright in
theorem ne_nil_of_forall₂ {pieces : List Bytes} {values : List ℕ}
    (h : List.Forall₂ (Numeral 16 4) pieces values) : ∀ piece ∈ pieces, piece ≠ [] := by
  intro piece hpiece
  obtain ⟨x, hx⟩ := exists_numeral_of_mem h piece hpiece
  exact hx.ne_nil

theorem takeWhile_contracted :
    (padded left ++ [] :: padded right).takeWhile (· ≠ []) = left ∧
      ((padded left ++ [] :: padded right).reverse.takeWhile (· ≠ [])).reverse = right := by
  refine ⟨takeWhile_padded (ne_nil_of_forall₂ hleft) _, ?_⟩
  have hreverse : (padded left ++ [] :: padded right).reverse =
      padded right.reverse ++ [] :: (padded left).reverse := by
    rw [List.reverse_append, List.reverse_cons, reverse_padded, List.append_assoc,
      List.singleton_append]
  have hne : ∀ piece ∈ right.reverse, piece ≠ [] := fun piece hpiece =>
    ne_nil_of_forall₂ hright piece (List.mem_reverse.mp hpiece)
  rw [hreverse, takeWhile_padded hne, List.reverse_reverse]

end

/-- The groups in terms of the pieces between colons: without an empty piece they are all there, else
those before the first empty piece and those behind the last one. -/
theorem DenotesGroups.pieces {text : Bytes} {ns : List ℕ} (h : DenotesGroups text ns) :
    let pieces := text.splitOn IPV6_DELIM
    ([] ∉ pieces ∧ List.Forall₂ (Numeral 16 4) pieces ns) ∨
      ([] ∈ pieces ∧ ∃ groups groups',
        List.Forall₂ (Numeral 16 4) (pieces.takeWhile (· ≠ [])) groups ∧
        List.Forall₂ (Numeral 16 4) (pieces.reverse.takeWhile (· ≠ [])).reverse groups' ∧
        ns = groups ++ List.replicate (8 - (groups.length + groups'.length)) 0 ++ groups') := by
  intro pieces
  cases h with
  | @full whole _ hwhole hlength =>
      left
      have hne : whole ≠ [] := List.ne_nil_of_length_pos (by rw [hwhole.length_eq]; omega)
      have hsplit : pieces = whole := splitOn_numerals (by decide) hwhole hne
      rw [hsplit]
      exact ⟨fun hnil => ne_nil_of_forall₂ hwhole [] hnil rfl, hwhole⟩
  | @contracted left right groups groups' hleft hright _ =>
      right
      have hsplit : pieces = padded left ++ [] :: padded right := splitOn_contracted hleft hright
      obtain ⟨htake, htake'⟩ := takeWhile_contracted hleft hright
      rw [hsplit, htake, htake']
      exact ⟨by simp, groups, groups', hleft, hright, rfl⟩

theorem denotesGroups_unique {text : Bytes} {ns ns' : List ℕ} (h : DenotesGroups text ns)
    (h' : DenotesGroups text ns') : ns = ns' := by
  have hunique {pieces : List Bytes} {gs gs' : List ℕ} :=
    @List.right_unique_forall₂' _ _ _ (numeral_rightUnique 16 4) pieces gs gs'
  rcases h.pieces with ⟨hfull, hns⟩ | ⟨hnil, groups, groups', hleft, hright, rfl⟩ <;>
    rcases h'.pieces with ⟨hfull', hns'⟩ | ⟨hnil', gs, gs', hleft', hright', rfl⟩
  · exact hunique hns hns'
  · exact absurd hnil' hfull
  · exact absurd hnil hfull'
  · rw [hunique hleft hleft', hunique hright hright']

theorem denotesIPv6_unique {text : Bytes} {bytes bytes' : Vector UInt8 16}
    (h : DenotesIPv6 text bytes) (h' : DenotesIPv6 text bytes') : bytes = bytes' := by
  obtain ⟨groups, hgroups, hbytes⟩ := h
  obtain ⟨groups', hgroups', hbytes'⟩ := h'
  apply Vector.toList_inj.mp
  rw [hbytes, hbytes', denotesGroups_unique hgroups hgroups']

/-! ### What the source writes -/

theorem toIPv4Address_denotes (bytes : Vector UInt8 4) :
    DenotesIPv4 (toIPv4Address bytes) bytes := by
  have hfn : bytes.toList = List.ofFn fun i : Fin 4 => bytes[i] := by
    apply List.ext_getElem
    · rw [Vector.length_toList, List.length_ofFn]
    · intro i hi hi'
      rw [Vector.getElem_toList, List.getElem_ofFn]
      rfl
  have hbytes : bytes.toList = [bytes[0], bytes[1], bytes[2], bytes[3]] := hfn
  have htext : toIPv4Address bytes =
      [decimal bytes[0].toNat ++ [IPV4_DELIM], decimal bytes[1].toNat ++ [IPV4_DELIM],
        decimal bytes[2].toNat ++ [IPV4_DELIM], decimal bytes[3].toNat ++ []].flatten := rfl
  refine ⟨bytes.toList.map fun b => decimal b.toNat, ?_, ?_⟩
  · rw [htext, hbytes]
    simp
  · rw [List.forall₂_map_left_iff, List.forall₂_map_right_iff, List.forall₂_same]
    exact fun b _ => numeral_decimal b

section

variable (bytes : Vector UInt8 16)

/-- The `k`-th group. -/
def groupAt (k : ℕ) : ℕ := 256 * (byteAt bytes (2 * k)).toNat + (byteAt bytes (2 * k + 1)).toNat

/-- `n` groups from the `k`-th one on, as they are written. -/
def piecesFrom (k n : ℕ) : List Bytes := (List.range' k n).map fun j => hexadecimal (groupAt bytes j)

theorem groupAt_lt (k : ℕ) : groupAt bytes k < 65536 := by
  have h := (byteAt bytes (2 * k)).toNat_lt
  have h' := (byteAt bytes (2 * k + 1)).toNat_lt
  rw [groupAt]
  omega

theorem piecesFrom_numeral (k n : ℕ) :
    List.Forall₂ (Numeral 16 4) (piecesFrom bytes k n) ((List.range' k n).map (groupAt bytes)) := by
  rw [piecesFrom, List.forall₂_map_left_iff, List.forall₂_map_right_iff, List.forall₂_same]
  exact fun j _ => numeral_hexadecimal (groupAt_lt bytes j)

theorem toList_eq_flatMap :
    bytes.toList = ((List.range' 0 8).map (groupAt bytes)).flatMap groupBytes := by
  have hbytes : bytes.toList = (List.range 16).map (byteAt bytes) := by
    apply List.ext_getElem
    · rw [Vector.length_toList, List.length_map, List.length_range]
    · intro i hi hi'
      rw [Vector.length_toList] at hi
      rw [Vector.getElem_toList, List.getElem_map, List.getElem_range, byteAt,
        Vector.getElem?_eq_getElem hi, Option.getD_some]
  have hgroup : ∀ k, groupBytes (groupAt bytes k) = [byteAt bytes (2 * k), byteAt bytes (2 * k + 1)] := by
    intro k
    have h' := (byteAt bytes (2 * k + 1)).toNat_lt
    have hdiv : groupAt bytes k / 256 = (byteAt bytes (2 * k)).toNat := by
      rw [groupAt]
      omega
    have hmod : groupAt bytes k % 256 = (byteAt bytes (2 * k + 1)).toNat := by
      rw [groupAt]
      omega
    rw [groupBytes, hdiv, hmod, UInt8.ofNat_toNat, UInt8.ofNat_toNat]
  rw [hbytes, List.flatMap_map, List.flatMap_congr fun k _ => hgroup k]
  rfl

variable {bytes} {range : Range} {k : ℕ}

/-- A group that is not where the contraction begins. -/
theorem groupsFrom_of_ne (hk : k < 8) (hne : ¬(((2 * k : ℕ) : ℤ) = range.1 ∧ range.2 > 0)) :
    groupsFrom bytes range (2 * k) = hexadecimal (groupAt bytes k) ++
      (if k + 1 < 8 then [IPV6_DELIM] else []) ++ groupsFrom bytes range (2 * (k + 1)) := by
  have hx : (byteAt bytes (2 * k)).toNat <<< 8 ||| (byteAt bytes (2 * k + 1)).toNat =
      groupAt bytes k := by
    rw [← Nat.shiftLeft_add_eq_or_of_lt (byteAt bytes (2 * k + 1)).toNat_lt, Nat.shiftLeft_eq, groupAt,
      Nat.mul_comm]
  have hlast : 2 * k + 2 < 16 ↔ k + 1 < 8 := by omega
  rw [groupsFrom, if_pos (by omega), if_neg hne]
  simp only [hx, hlast]
  rfl

theorem groupsFrom_of_eq (hk : k < 8) (heq : ((2 * k : ℕ) : ℤ) = range.1 ∧ range.2 > 0) :
    groupsFrom bytes range (2 * k) = (if k = 0 then [IPV6_DELIM] else []) ++
      IPV6_DELIM :: groupsFrom bytes range (range.1 + range.2).toNat := by
  have hzero : 2 * k = 0 ↔ k = 0 := by omega
  rw [groupsFrom, if_pos (by omega), if_pos heq]
  simp only [hzero]

theorem groupsFrom_end : groupsFrom bytes range 16 = [] := by
  rw [groupsFrom, if_neg (by decide)]

theorem length_piecesFrom (n : ℕ) : (piecesFrom bytes k n).length = n := by
  rw [piecesFrom, List.length_map, List.length_range']

/-- From a group on behind which no contraction begins, all groups are written. -/
theorem groupsFrom_tail (n : ℕ) (hn : k + n = 8)
    (hne : ∀ j, k ≤ j → ¬(((2 * j : ℕ) : ℤ) = range.1 ∧ range.2 > 0)) :
    groupsFrom bytes range (2 * k) = [IPV6_DELIM].intercalate (piecesFrom bytes k n) := by
  induction n generalizing k with
  | zero =>
      rw [show k = 8 from hn]
      exact groupsFrom_end
  | succ n ih =>
      rw [groupsFrom_of_ne (by omega) (hne k (Nat.le_refl k)),
        ih (by omega) fun j hj => hne j (by omega)]
      have hpieces : piecesFrom bytes k (n + 1) =
          hexadecimal (groupAt bytes k) :: piecesFrom bytes (k + 1) n := rfl
      rw [hpieces]
      by_cases hlast : n = 0
      · rw [hlast, if_neg (by omega), piecesFrom, List.range'_zero, List.map_nil,
          List.intercalate_nil, List.intercalate_singleton, List.append_nil, List.append_nil]
      · have hrest : piecesFrom bytes (k + 1) n ≠ [] := by
          apply List.ne_nil_of_length_pos
          rw [length_piecesFrom]
          omega
        rw [if_pos (by omega), List.intercalate_cons_of_ne_nil hrest]

/-- The groups before the contraction, each with a colon, and the contraction. -/
theorem groupsFrom_head {b l : ℕ} (hl : 0 < l) (hb : b < 8) (n : ℕ) (hn : k + n = b) :
    groupsFrom bytes (2 * (b : ℤ), 2 * (l : ℤ)) (2 * k) =
      (piecesFrom bytes k n).flatMap (· ++ [IPV6_DELIM]) ++ (if b = 0 then [IPV6_DELIM] else []) ++
        IPV6_DELIM :: groupsFrom bytes (2 * (b : ℤ), 2 * (l : ℤ)) (2 * (b + l)) := by
  induction n generalizing k with
  | zero =>
      have hk : k = b := hn
      have hjump : (2 * (b : ℤ) + 2 * (l : ℤ)).toNat = 2 * (b + l) := by omega
      rw [hk, groupsFrom_of_eq hb ⟨by push_cast; rfl, by simp only; omega⟩]
      simp only [hjump]
      rfl
  | succ n ih =>
      have hpieces : piecesFrom bytes k (n + 1) =
          hexadecimal (groupAt bytes k) :: piecesFrom bytes (k + 1) n := rfl
      rw [groupsFrom_of_ne (by omega) (by simp only; omega), ih (by omega), if_pos (by omega),
        hpieces, List.flatMap_cons]
      simp only [List.append_assoc]

theorem groupAt_of_zeroGroup (h : ZeroGroup bytes k) : groupAt bytes k = 0 := by
  rw [groupAt, h.1, h.2]
  rfl

/-- What is written around a contraction that ends with the groups or before. -/
theorem groupsFrom_contracted {b l : ℕ} (hl : 0 < l) (hle : b + l ≤ 8) :
    groupsFrom bytes (2 * (b : ℤ), 2 * (l : ℤ)) 0 =
      [IPV6_DELIM].intercalate (piecesFrom bytes 0 b) ++ [IPV6_DELIM, IPV6_DELIM] ++
        [IPV6_DELIM].intercalate (piecesFrom bytes (b + l) (8 - (b + l))) := by
  have htail : groupsFrom bytes (2 * (b : ℤ), 2 * (l : ℤ)) (2 * (b + l)) =
      [IPV6_DELIM].intercalate (piecesFrom bytes (b + l) (8 - (b + l))) := by
    apply groupsFrom_tail _ (by omega)
    intro j hj hbegin
    simp only at hbegin
    omega
  have hhead := @groupsFrom_head bytes 0 b l hl (by omega) b (Nat.zero_add b)
  rw [htail] at hhead
  apply hhead.trans
  by_cases hzero : b = 0
  · rw [if_pos hzero, hzero]
    rfl
  · have hne : piecesFrom bytes 0 b ≠ [] := by
      apply List.ne_nil_of_length_pos
      rw [length_piecesFrom]
      omega
    rw [if_neg hzero, flatMap_delim hne, List.append_nil, List.append_assoc, List.append_assoc]
    rfl

/-- The groups with a run of zero groups among them. -/
theorem groups_of_run {b l : ℕ} (h : MaximalRun (ZeroGroup bytes) 8 b l) :
    (List.range' 0 8).map (groupAt bytes) =
      (List.range' 0 b).map (groupAt bytes) ++ List.replicate l 0 ++
        (List.range' (b + l) (8 - (b + l))).map (groupAt bytes) := by
  have hzeros : (List.range' b l).map (groupAt bytes) = List.replicate l 0 := by
    rw [List.eq_replicate_iff]
    refine ⟨by rw [List.length_map, List.length_range'], fun x hx => ?_⟩
    obtain ⟨j, hj, rfl⟩ := List.mem_map.mp hx
    obtain ⟨hlow, hhigh⟩ := List.mem_range'_1.mp hj
    exact groupAt_of_zeroGroup (h.all j hlow hhigh)
  have hfirst := List.range'_append_1 (s := 0) (m := b) (n := l)
  have hall := List.range'_append_1 (s := 0) (m := b + l) (n := 8 - (b + l))
  rw [Nat.zero_add] at hfirst hall
  rw [← hzeros, ← List.map_append, ← List.map_append, hfirst, hall, Nat.add_sub_of_le h.le]

/-- Two colons stand for the zero groups of a run. -/
theorem denotes_contracted {b l : ℕ} (h : MaximalRun (ZeroGroup bytes) 8 b l) :
    DenotesGroups (groupsFrom bytes (2 * (b : ℤ), 2 * (l : ℤ)) 0)
      ((List.range' 0 8).map (groupAt bytes)) := by
  have hpos := h.pos
  have hle := h.le
  have hmissing : 8 - (((List.range' 0 b).map (groupAt bytes)).length +
      ((List.range' (b + l) (8 - (b + l))).map (groupAt bytes)).length) = l := by
    rw [List.length_map, List.length_map, List.length_range', List.length_range']
    omega
  have hdenotes := DenotesGroups.contracted (piecesFrom_numeral bytes 0 b)
    (piecesFrom_numeral bytes (b + l) (8 - (b + l))) (by omega)
  rw [hmissing] at hdenotes
  rw [groupsFrom_contracted hpos hle, groups_of_run h]
  exact hdenotes

/-- The text between the brackets denotes the address. -/
theorem groupsFrom_denotes (bytes : Vector UInt8 16) :
    DenotesIPv6 (groupsFrom bytes (chooseIPv6ContractionRange bytes) 0) bytes := by
  refine ⟨_, ?_, toList_eq_flatMap bytes⟩
  have hbest : Best (MaximalRun (ZeroGroup bytes) 8) 2 (scan (ZeroGroup bytes) 8 2 8).best :=
    scan_best Nat.two_pos
  rw [chooseIPv6ContractionRange_eq]
  cases hs : (scan (ZeroGroup bytes) 8 2 8).best with
  | none =>
      have htext : groupsFrom bytes (rangeOf none) 0 =
          [IPV6_DELIM].intercalate (piecesFrom bytes 0 8) :=
        groupsFrom_tail (k := 0) 8 rfl fun j _ hbegin => absurd hbegin.2 (by decide)
      rw [htext]
      exact DenotesGroups.full (piecesFrom_numeral bytes 0 8) (by simp)
  | some run =>
      rw [hs] at hbest
      exact denotes_contracted hbest.2.1

end

/-! ### The comparison -/

/-- The bytes that count for the family. -/
def InetAddress.significant (x : InetAddress) : List UInt8 :=
  match x.family with
  | .kIPAny => []
  | .kIPv4 => (x.bytes.take 4).toList
  | .kIPv6 => x.bytes.toList

theorem toIPv4Address_injective : Function.Injective toIPv4Address := by
  intro bytes bytes' h
  exact denotesIPv4_unique (toIPv4Address_denotes bytes) (h ▸ toIPv4Address_denotes bytes')

theorem toIPv6Address_injective : Function.Injective toIPv6Address := by
  intro bytes bytes' h
  have htext : groupsFrom bytes (chooseIPv6ContractionRange bytes) 0 =
      groupsFrom bytes' (chooseIPv6ContractionRange bytes') 0 :=
    List.append_cancel_right (List.cons_inj_right _ |>.mp h)
  exact denotesIPv6_unique (groupsFrom_denotes bytes) (htext ▸ groupsFrom_denotes bytes')

theorem InetAddress.equal_iff (x y : InetAddress) :
    x.equal y = true ↔ x.port = y.port ∧ x.family = y.family ∧ x.significant = y.significant := by
  rw [equal, decide_eq_true_iff]
  constructor
  · rintro ⟨hip, hport, hfamily⟩
    refine ⟨hport, hfamily, ?_⟩
    rw [ip, ip, ← hfamily] at hip
    rw [significant, significant, ← hfamily]
    cases hx : x.family with
    | kIPAny => rfl
    | kIPv4 =>
        rw [hx] at hip
        exact congrArg Vector.toList (toIPv4Address_injective hip)
    | kIPv6 =>
        rw [hx] at hip
        exact congrArg Vector.toList (toIPv6Address_injective hip)
  · rintro ⟨hport, hfamily, hbytes⟩
    refine ⟨?_, hport, hfamily⟩
    rw [significant, significant, ← hfamily] at hbytes
    rw [ip, ip, ← hfamily]
    cases hx : x.family with
    | kIPAny => rfl
    | kIPv4 =>
        rw [hx] at hbytes
        exact congrArg toIPv4Address (Vector.toList_inj.mp hbytes)
    | kIPv6 =>
        rw [hx] at hbytes
        exact congrArg toIPv6Address (Vector.toList_inj.mp hbytes)

/-- The text of an address denotes the address and no other, so that two addresses are equal as the
source compares them just when their ports, families and significant bytes are. -/
theorem text_denotes_address :
    (∀ bytes : Vector UInt8 16, ∃ text, toIPv6Address bytes = byteOf '[' :: text ++ [byteOf ']'] ∧
      ∀ bytes', DenotesIPv6 text bytes' ↔ bytes' = bytes) ∧
    (∀ bytes bytes' : Vector UInt8 4, DenotesIPv4 (toIPv4Address bytes) bytes' ↔ bytes' = bytes) ∧
    ∀ x y : InetAddress, x.equal y = true ↔
      x.port = y.port ∧ x.family = y.family ∧ x.significant = y.significant := by
  refine ⟨fun bytes => ⟨_, rfl, fun bytes' => ⟨fun h => ?_, ?_⟩⟩, fun bytes bytes' => ⟨fun h => ?_, ?_⟩,
    InetAddress.equal_iff⟩
  · exact denotesIPv6_unique h (groupsFrom_denotes bytes)
  · rintro rfl
    exact groupsFrom_denotes bytes'
  · exact denotesIPv4_unique h (toIPv4Address_denotes bytes)
  · rintro rfl
    exact toIPv4Address_denotes bytes'

end Iomgr
