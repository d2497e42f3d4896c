import Iomgr.URI

/-!
Sets of characters by their members, and percent encoding. What is encoded is made of unreserved
characters and escapes, and decodes to what it was, as long as the percent sign is not unreserved.
-/

namespace Iomgr

/-- What holds of the bytes of all small numbers holds of all small bytes. -/
theorem byte_of_ofNat {bound : Nat} {P : UInt8 → Prop} (h : ∀ n < bound, P (UInt8.ofNat n)) :
    ∀ b : UInt8, b.toNat < bound → P b := by
  intro b hb
  have hnat := h b.toNat hb
  rwa [UInt8.ofNat_toNat] at hnat

theorem forall_mem_of_all {l : Bytes} {P : UInt8 → Prop} [DecidablePred P]
    (h : l.all (fun b => decide (P b)) = true) : ∀ b ∈ l, P b := by
  intro b hb
  exact of_decide_eq_true (List.all_eq_true.mp h b hb)

/-! ### Sets of characters -/

namespace ASCIISet

/-- The word that holds the bit of a character. -/
def word (s : ASCIISet) (c : UInt8) : BitVec 64 := if c &&& 64 ≠ 0 then s.bitvec1 else s.bitvec0

theorem test_eq (s : ASCIISet) {c : UInt8} (hc : c < 128) :
    s.test c = (s.word c).getLsbD (c &&& 63).toNat := by
  have hshift : ∀ (w : BitVec 64) (n : Nat), decide (w >>> n &&& 1#64 ≠ 0) = w.getLsbD n := by
    intro w n
    rw [BitVec.and_one_eq_setWidth_ofBool_getLsbD, BitVec.getLsbD_ushiftRight, Nat.add_zero]
    cases w.getLsbD n <;> rfl
  rw [test, if_neg (UInt8.not_le.mpr hc)]
  exact hshift _ _

theorem test_of_le (s : ASCIISet) {c : UInt8} (hc : 128 ≤ c) : s.test c = false := by
  rw [test, if_pos hc]

/-- The word and the position of the bit tell the characters apart. -/
theorem bit_injective {c d : UInt8} (hc : c < 128) (hd : d < 128)
    (hword : c &&& 64 ≠ 0 ↔ d &&& 64 ≠ 0) (hbit : (c &&& 63).toNat = (d &&& 63).toNat) : c = d := by
  have hclt : c.toNat < 128 := UInt8.lt_iff_toNat_lt.mp hc
  have hdlt : d.toNat < 128 := UInt8.lt_iff_toNat_lt.mp hd
  have hbits : ∀ b : UInt8, b.toNat < 128 →
      (b &&& 63).toNat = b.toNat % 64 ∧ (b &&& 64 ≠ 0 ↔ 64 ≤ b.toNat) := by
    apply byte_of_ofNat
    decide +kernel
  obtain ⟨hcbit, hcword⟩ := hbits c hclt
  obtain ⟨hdbit, hdword⟩ := hbits d hdlt
  apply UInt8.toNat_inj.mp
  rw [hcword, hdword] at hword
  omega

theorem test_set (s : ASCIISet) {d : UInt8} (hd : d < 128) (c : UInt8) :
    (s.set d).test c = (decide (c = d) || s.test c) := by
  by_cases hc : 128 ≤ c
  · have hne : c ≠ d := fun h => absurd hd (UInt8.not_lt.mpr (h ▸ hc))
    rw [test_of_le _ hc, test_of_le _ hc, decide_eq_false hne]
    rfl
  · have hc : c < 128 := UInt8.not_le.mp hc
    have hlt : (c &&& 63).toNat < 64 := by
      rw [UInt8.toNat_and]
      exact Nat.lt_of_le_of_lt Nat.and_le_right (by decide)
    rw [test_eq _ hc, test_eq _ hc]
    by_cases hsame : c &&& 64 ≠ 0 ↔ d &&& 64 ≠ 0
    -- the word that was set: the bit is the new one or an old one
    · have hword : (s.set d).word c = s.word c ||| 1#64 <<< (d &&& 63).toNat := by
        by_cases h : d &&& 64 ≠ 0
        · rw [set, if_pos h, word, word, if_pos (hsame.mpr h), if_pos (hsame.mpr h)]
        · rw [set, if_neg h, word, word, if_neg (fun h' => h (hsame.mp h')),
            if_neg (fun h' => h (hsame.mp h'))]
      have hbit : (1#64 <<< (d &&& 63).toNat).getLsbD (c &&& 63).toNat = decide (c = d) := by
        rw [← BitVec.twoPow_eq, BitVec.getLsbD_twoPow]
        by_cases h : c = d
        · rw [h] at hlt ⊢
          rw [decide_eq_true hlt, decide_eq_true rfl, decide_eq_true rfl]
          rfl
        · have hne : (d &&& 63).toNat ≠ (c &&& 63).toNat :=
            fun h' => h (bit_injective hc hd hsame h'.symm)
          rw [decide_eq_false hne, decide_eq_false h, Bool.and_false]
      rw [hword, BitVec.getLsbD_or, hbit, Bool.or_comm]
    -- the other word is as it was
    · have hword : (s.set d).word c = s.word c := by
        by_cases h : d &&& 64 ≠ 0
        · rw [set, if_pos h, word, word, if_neg (fun h' => hsame ⟨fun _ => h, fun _ => h'⟩),
            if_neg (fun h' => hsame ⟨fun _ => h, fun _ => h'⟩)]
        · have hcword : c &&& 64 ≠ 0 := by
            intro h'
            exact hsame ⟨fun h'' => absurd h' h'', fun h'' => absurd h'' h⟩
          rw [set, if_neg h, word, word, if_pos hcword, if_pos hcword]
      have hne : c ≠ d := fun h => hsame (by rw [h])
      rw [hword, decide_eq_false hne, Bool.false_or]

theorem test_empty (c : UInt8) : empty.test c = false := by
  by_cases hc : 128 ≤ c
  · exact test_of_le _ hc
  · rw [test_eq _ (UInt8.not_le.mp hc), word, empty]
    split <;> exact BitVec.getLsbD_zero

theorem test_foldl (c : UInt8) (chars : Bytes) (s : ASCIISet) (hascii : ∀ b ∈ chars, b < 128) :
    (chars.foldl set s).test c = (decide (c ∈ chars) || s.test c) := by
  induction chars generalizing s with
  | nil => rfl
  | cons d chars ih =>
    rw [List.foldl_cons, ih _ fun b hb => hascii b (List.mem_cons_of_mem d hb),
      test_set _ (hascii d List.mem_cons_self)]
    simp only [List.mem_cons, Bool.decide_or]
    cases decide (c = d) <;> cases decide (c ∈ chars) <;> rfl

/-- A set made of a string has the characters of the string. -/
theorem test_ofString {text : String} (hascii : ∀ b ∈ bytesOf text.toList, b < 128) (c : UInt8) :
    (ofString text).test c = decide (c ∈ bytesOf text.toList) := by
  rw [ofString, test_foldl c _ _ hascii, test_empty, Bool.or_false]

end ASCIISet

/-! ### The sets of the components as words -/

theorem unreservedChars_eq :
    kURIPathUnreservedChars = ⟨0x2fffffd200000000#64, 0x47fffffe87ffffff#64⟩ ∧
      kURIAuthUnreservedChars = ⟨0x2fff7fd200000000#64, 0x47fffffeafffffff#64⟩ ∧
      kURISchemeUnreseredChars = ⟨0x03ff680000000000#64, 0x07fffffe07fffffe#64⟩ ∧
      kURIQueryKVUnreseredChars = ⟨0x8fffff9200000000#64, 0x47fffffe87ffffff#64⟩ ∧
      kURIFragmentUnreseredChars = ⟨0xafffffd200000000#64, 0x47fffffe87ffffff#64⟩ := by
  decide +kernel

theorem kURIPathUnreservedChars_eq :
    kURIPathUnreservedChars = ⟨0x2fffffd200000000#64, 0x47fffffe87ffffff#64⟩ := unreservedChars_eq.1

theorem kURIAuthUnreservedChars_eq :
    kURIAuthUnreservedChars = ⟨0x2fff7fd200000000#64, 0x47fffffeafffffff#64⟩ := unreservedChars_eq.2.1

theorem kURISchemeUnreseredChars_eq :
    kURISchemeUnreseredChars = ⟨0x03ff680000000000#64, 0x07fffffe07fffffe#64⟩ := unreservedChars_eq.2.2.1

theorem kURIQueryKVUnreseredChars_eq :
    kURIQueryKVUnreseredChars = ⟨0x8fffff9200000000#64, 0x47fffffe87ffffff#64⟩ :=
  unreservedChars_eq.2.2.2.1

theorem kURIFragmentUnreseredChars_eq :
    kURIFragmentUnreseredChars = ⟨0xafffffd200000000#64, 0x47fffffe87ffffff#64⟩ :=
  unreservedChars_eq.2.2.2.2

/-! ### Escapes -/

/-- What a byte is written as. -/
def escape (unreserved : ASCIISet) (b : UInt8) : Bytes :=
  if unreserved.test b then [b]
  else [byteOf '%', intToHexDigit (b.toNat / 16), intToHexDigit (b.toNat % 16)]

theorem percentEncode_eq_flatMap (str : Bytes) (unreserved : ASCIISet) :
    percentEncode str unreserved = str.flatMap (escape unreserved) := by
  rw [percentEncode]
  split
  case isTrue hcount =>
    rw [List.countP_eq_zero] at hcount
    induction str with
    | nil => rfl
    | cons b str ih =>
      have hb : unreserved.test b = true := by simpa using hcount b List.mem_cons_self
      rw [List.flatMap_cons, ← ih fun c hc => hcount c (List.mem_cons_of_mem b hc), escape, if_pos hb]
      rfl
  case isFalse => rfl

@[simp]
theorem percentEncode_nil (unreserved : ASCIISet) : percentEncode [] unreserved = [] := rfl

theorem percentEncode_cons (b : UInt8) (str : Bytes) (unreserved : ASCIISet) :
    percentEncode (b :: str) unreserved = escape unreserved b ++ percentEncode str unreserved := by
  rw [percentEncode_eq_flatMap, percentEncode_eq_flatMap, List.flatMap_cons]

theorem percentEncode_append (left right : Bytes) (unreserved : ASCIISet) :
    percentEncode (left ++ right) unreserved =
      percentEncode left unreserved ++ percentEncode right unreserved := by
  simp only [percentEncode_eq_flatMap, List.flatMap_append]

theorem escape_ne_nil (unreserved : ASCIISet) (b : UInt8) : escape unreserved b ≠ [] := by
  rw [escape]
  split <;> exact List.cons_ne_nil _ _

theorem percentEncode_eq_nil {str : Bytes} {unreserved : ASCIISet} :
    percentEncode str unreserved = [] ↔ str = [] := by
  cases str with
  | nil => simp
  | cons b str => simp [percentEncode_cons, escape_ne_nil]

theorem percentEncode_of_unreserved {str : Bytes} {unreserved : ASCIISet}
    (h : ∀ b ∈ str, unreserved.test b = true) : percentEncode str unreserved = str := by
  have hcount : str.countP (fun b => !unreserved.test b) = 0 := by
    rw [List.countP_eq_zero]
    intro b hb
    simp [h b hb]
  rw [percentEncode, if_pos hcount]

theorem intToHexDigit_mem {n : Nat} (hn : n < 16) :
    intToHexDigit n ∈ bytesOf "0123456789ABCDEF".toList := by
  have hdigit : ∀ n < 16, intToHexDigit n ∈ bytesOf "0123456789ABCDEF".toList := by decide
  exact hdigit n hn

/-- The bytes of an encoded string. -/
theorem mem_percentEncode {str : Bytes} {unreserved : ASCIISet} {b : UInt8}
    (h : b ∈ percentEncode str unreserved) :
    unreserved.test b = true ∨ b = byteOf '%' ∨ b ∈ bytesOf "0123456789ABCDEF".toList := by
  rw [percentEncode_eq_flatMap, List.mem_flatMap] at h
  obtain ⟨c, -, hb⟩ := h
  have hc : c.toNat < 256 := c.toNat_lt
  rw [escape] at hb
  split at hb
  case isTrue htest =>
    left
    rwa [List.mem_singleton.mp hb]
  case isFalse =>
    right
    simp only [List.mem_cons, List.not_mem_nil, or_false] at hb
    rcases hb with rfl | rfl | rfl
    · exact .inl rfl
    · exact .inr (intToHexDigit_mem (by omega))
    · exact .inr (intToHexDigit_mem (by omega))

theorem notMem_percentEncode {unreserved : ASCIISet} {b : UInt8} (str : Bytes)
    (htest : unreserved.test b = false) (hpercent : b ≠ byteOf '%')
    (hdigit : b ∉ bytesOf "0123456789ABCDEF".toList) : b ∉ percentEncode str unreserved := by
  intro h
  rcases mem_percentEncode h with h | h | h
  · rw [htest] at h
    cases h
  · exact hpercent h
  · exact hdigit h

/-! ### Decoding -/

theorem percentDecode_cons_of_ne {c : UInt8} (hc : c ≠ byteOf '%') (str : Bytes) :
    percentDecode (c :: str) = c :: percentDecode str := by
  match str with
  | [] => rfl
  | [x] => rfl
  | x :: y :: rest => rw [percentDecode, if_neg fun h => hc h.1]

theorem percentDecode_escape {x y : UInt8} (hx : isXDigit x = true) (hy : isXDigit y = true)
    (rest : Bytes) :
    percentDecode (byteOf '%' :: x :: y :: rest) =
      UInt8.ofNat (hexDigitToInt x * 16 + hexDigitToInt y) :: percentDecode rest := by
  rw [percentDecode, if_pos ⟨rfl, hx, hy⟩]

/-- The two ways to read the first byte of a text. -/
theorem percentDecode_cons_cases (c : UInt8) (str : Bytes) :
    percentDecode (c :: str) = c :: percentDecode str ∨
      ∃ x y rest, c = byteOf '%' ∧ str = x :: y :: rest ∧ isXDigit x = true ∧ isXDigit y = true ∧
        percentDecode (c :: str) =
          UInt8.ofNat (hexDigitToInt x * 16 + hexDigitToInt y) :: percentDecode rest := by
  match str with
  | [] => exact .inl rfl
  | [x] => exact .inl rfl
  | x :: y :: rest =>
    by_cases h : c = byteOf '%' ∧ isXDigit x = true ∧ isXDigit y = true
    · obtain ⟨rfl, hx, hy⟩ := h
      exact .inr ⟨x, y, rest, rfl, rfl, hx, hy, percentDecode_escape hx hy rest⟩
    · left
      rw [percentDecode, if_neg h]

theorem percentDecode_eq_nil {str : Bytes} : percentDecode str = [] ↔ str = [] := by
  cases str with
  | nil => simp [percentDecode]
  | cons c str =>
    rcases percentDecode_cons_cases c str with h | ⟨x, y, rest, -, -, -, -, h⟩ <;> simp [h]

/-- The two digits that are written for a byte are read as that byte. -/
theorem escape_digits (b : UInt8) :
    isXDigit (intToHexDigit (b.toNat / 16)) = true ∧ isXDigit (intToHexDigit (b.toNat % 16)) = true ∧
      UInt8.ofNat (hexDigitToInt (intToHexDigit (b.toNat / 16)) * 16 +
        hexDigitToInt (intToHexDigit (b.toNat % 16))) = b := by
  have hdigit : ∀ n < 16, isXDigit (intToHexDigit n) = true ∧ hexDigitToInt (intToHexDigit n) = n := by
    decide
  have hb : b.toNat < 256 := b.toNat_lt
  obtain ⟨hhigh, hhighValue⟩ := hdigit (b.toNat / 16) (by omega)
  obtain ⟨hlow, hlowValue⟩ := hdigit (b.toNat % 16) (by omega)
  refine ⟨hhigh, hlow, ?_⟩
  rw [hhighValue, hlowValue, Nat.div_add_mod']
  exact UInt8.ofNat_toNat

theorem percentDecode_percentEncode (str : Bytes) {unreserved : ASCIISet}
    (hpercent : unreserved.test (byteOf '%') = false) :
    percentDecode (percentEncode str unreserved) = str := by
  induction str with
  | nil => rfl
  | cons b str ih =>
    rw [percentEncode_cons, escape]
    split
    case isTrue htest =>
      have hb : b ≠ byteOf '%' := by
        rintro rfl
        rw [hpercent] at htest
        cases htest
      rw [List.singleton_append, percentDecode_cons_of_ne hb, ih]
    case isFalse =>
      obtain ⟨hhigh, hlow, hvalue⟩ := escape_digits b
      rw [List.cons_append, List.cons_append, List.singleton_append, percentDecode_escape hhigh hlow,
        hvalue, ih]

/-! ### The components of a URI -/

/-- The components that are escaped, each with a set of its own. -/
inductive Component
  | scheme
  | authority
  | path
  | queryKeyOrValue
  | fragment
  deriving DecidableEq, Repr

def Component.unreserved : Component → ASCIISet
  | .scheme => kURISchemeUnreseredChars
  | .authority => kURIAuthUnreservedChars
  | .path => kURIPathUnreservedChars
  | .queryKeyOrValue => kURIQueryKVUnreseredChars
  | .fragment => kURIFragmentUnreseredChars

/-- No component leaves the percent sign as it is. -/
theorem Component.test_percent (c : Component) : c.unreserved.test (byteOf '%') = false := by
  cases c with
  | scheme => rw [unreserved, kURISchemeUnreseredChars_eq]; decide
  | authority => rw [unreserved, kURIAuthUnreservedChars_eq]; decide
  | path => rw [unreserved, kURIPathUnreservedChars_eq]; decide
  | queryKeyOrValue => rw [unreserved, kURIQueryKVUnreseredChars_eq]; decide
  | fragment => rw [unreserved, kURIFragmentUnreseredChars_eq]; decide

/-- Characters of the set, and percent signs with two upper-case digits behind each. -/
inductive Encoded (unreserved : ASCIISet) : Bytes → Prop
  | nil : Encoded unreserved []
  | char {b : UInt8} {str : Bytes} (hb : unreserved.test b = true) (h : Encoded unreserved str) :
      Encoded unreserved (b :: str)
  | escape {x y : UInt8} {str : Bytes} (hx : x ∈ bytesOf "0123456789ABCDEF".toList)
      (hy : y ∈ bytesOf "0123456789ABCDEF".toList) (h : Encoded unreserved str) :
      Encoded unreserved (byteOf '%' :: x :: y :: str)

theorem encoded_percentEncode (unreserved : ASCIISet) (str : Bytes) :
    Encoded unreserved (percentEncode str unreserved) := by
  induction str with
  | nil => exact .nil
  | cons b str ih =>
    have hb : b.toNat < 256 := b.toNat_lt
    rw [percentEncode_cons, escape]
    split
    case isTrue htest => exact .char htest ih
    case isFalse => exact .escape (intToHexDigit_mem (by omega)) (intToHexDigit_mem (by omega)) ih

end Iomgr
