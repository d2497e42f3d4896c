import Iomgr.URIGrammar

/-!
What a parsed URI is written as, and what the parser reads there. Two texts are not read back: a path
that starts with two slashes and is written without an authority before it, and an ampersand at the
end of a path or an authority, which is taken off as if it stood behind a query parameter.
-/

namespace Iomgr

namespace URI

/-! ### The escapes of a slash and of an ampersand -/

/-- A slash as it may stand in a text. -/
def slashTexts : List Bytes := [bytesOf "/".toList, bytesOf "%2F".toList, bytesOf "%2f".toList]

/-- The text starts with two slashes, each as itself or escaped. -/
def OpensWithSlashes (str : Bytes) : Prop := ∃ x ∈ slashTexts, ∃ y ∈ slashTexts, x ++ y <+: str

/-- The text ends with an ampersand, as itself or escaped. -/
def EndsWithAmpersand (str : Bytes) : Prop :=
  bytesOf "&".toList <:+ str ∨ bytesOf "%26".toList <:+ str

instance (str : Bytes) : Decidable (OpensWithSlashes str) :=
  inferInstanceAs (Decidable (∃ x ∈ slashTexts, ∃ y ∈ slashTexts, x ++ y <+: str))

instance (str : Bytes) : Decidable (EndsWithAmpersand str) :=
  inferInstanceAs (Decidable (bytesOf "&".toList <:+ str ∨ bytesOf "%26".toList <:+ str))

/-- The digits of an escape are those of the byte it stands for. -/
theorem hexDigits_of_value {x y v : UInt8}
    (h : UInt8.ofNat (hexDigitToInt x * 16 + hexDigitToInt y) = v) :
    hexDigitToInt x = v.toNat / 16 ∧ hexDigitToInt y = v.toNat % 16 := by
  have hlt : ∀ c, hexDigitToInt c < 16 := fun c => Nat.mod_lt _ (by decide)
  have hx := hlt x
  have hy := hlt y
  have hvalue : v.toNat = hexDigitToInt x * 16 + hexDigitToInt y := by
    rw [← h, UInt8.toNat_ofNat_of_lt']
    change _ < 256
    omega
  omega

theorem mem_of_isXDigit : ∀ c : UInt8, c.toNat < 256 → isXDigit c = true →
    c ∈ bytesOf "0123456789abcdefABCDEF".toList := by
  apply byte_of_ofNat
  decide +kernel

/-- Both bytes have a first digit of one spelling. -/
theorem digit_two {x : UInt8} (hx : isXDigit x = true) (h : hexDigitToInt x = 2) : x = byteOf '2' := by
  have htwo : ∀ c ∈ bytesOf "0123456789abcdefABCDEF".toList, hexDigitToInt c = 2 → c = byteOf '2' :=
    forall_mem_of_all (by decide)
  exact htwo x (mem_of_isXDigit x x.toNat_lt hx) h

theorem escape_slash {x y : UInt8} (hx : isXDigit x = true) (hy : isXDigit y = true)
    (h : UInt8.ofNat (hexDigitToInt x * 16 + hexDigitToInt y) = byteOf '/') :
    [byteOf '%', x, y] ∈ slashTexts := by
  obtain ⟨hxvalue, hyvalue⟩ := hexDigits_of_value h
  have hfifteen : ∀ c ∈ bytesOf "0123456789abcdefABCDEF".toList, hexDigitToInt c = 15 →
      c = byteOf 'F' ∨ c = byteOf 'f' :=
    forall_mem_of_all (by decide)
  rw [digit_two hx hxvalue]
  rcases hfifteen y (mem_of_isXDigit y y.toNat_lt hy) hyvalue with rfl | rfl <;> decide

theorem escape_ampersand {x y : UInt8} (hx : isXDigit x = true) (hy : isXDigit y = true)
    (h : UInt8.ofNat (hexDigitToInt x * 16 + hexDigitToInt y) = byteOf '&') :
    x = byteOf '2' ∧ y = byteOf '6' := by
  obtain ⟨hxvalue, hyvalue⟩ := hexDigits_of_value h
  have hsix : ∀ c ∈ bytesOf "0123456789abcdefABCDEF".toList, hexDigitToInt c = 6 → c = byteOf '6' :=
    forall_mem_of_all (by decide)
  exact ⟨digit_two hx hxvalue, hsix y (mem_of_isXDigit y y.toNat_lt hy) hyvalue⟩

theorem percentDecode_eq_slash_cons {str r : Bytes} :
    percentDecode str = byteOf '/' :: r ↔
      ∃ x ∈ slashTexts, ∃ rest, str = x ++ rest ∧ percentDecode rest = r := by
  constructor
  · intro h
    cases str with
    | nil => cases h
    | cons c str =>
      rcases percentDecode_cons_cases c str with hstep | ⟨x, y, rest, rfl, rfl, hx, hy, hstep⟩
      · obtain ⟨rfl, hr⟩ := List.cons.inj (hstep.symm.trans h)
        exact ⟨bytesOf "/".toList, by decide, str, rfl, hr⟩
      · obtain ⟨hvalue, hr⟩ := List.cons.inj (hstep.symm.trans h)
        exact ⟨_, escape_slash hx hy hvalue, rest, rfl, hr⟩
  · rintro ⟨x, hx, rest, rfl, rfl⟩
    simp only [slashTexts, List.mem_cons, List.not_mem_nil, or_false] at hx
    rcases hx with rfl | rfl | rfl
    · exact percentDecode_cons_of_ne (by decide) rest
    · exact percentDecode_escape (by decide) (by decide) rest
    · exact percentDecode_escape (by decide) (by decide) rest

theorem slashes_prefix_percentDecode {str : Bytes} :
    bytesOf ['/', '/'] <+: percentDecode str ↔ OpensWithSlashes str := by
  constructor
  · rintro ⟨r, hr⟩
    obtain ⟨x, hx, rest, rfl, hrest⟩ := percentDecode_eq_slash_cons.mp hr.symm
    obtain ⟨y, hy, rest, rfl, -⟩ := percentDecode_eq_slash_cons.mp hrest
    exact ⟨x, hx, y, hy, rest, List.append_assoc x y rest⟩
  · rintro ⟨x, hx, y, hy, rest, rfl⟩
    refine ⟨percentDecode rest, Eq.symm ?_⟩
    rw [List.append_assoc]
    exact percentDecode_eq_slash_cons.mpr
      ⟨x, hx, y ++ rest, rfl, percentDecode_eq_slash_cons.mpr ⟨y, hy, rest, rfl, rfl⟩⟩

theorem endsWithAmpersand_cons {c : UInt8} {str : Bytes} (hne : str ≠ [])
    (hescape : bytesOf "%26".toList ≠ c :: str) :
    EndsWithAmpersand (c :: str) ↔ EndsWithAmpersand str := by
  have hsingle : bytesOf "&".toList ≠ c :: str := by
    intro h
    exact hne (List.cons.inj h).2.symm
  simp only [EndsWithAmpersand, List.suffix_cons_iff, hsingle, hescape, false_or]

theorem endsWithAmpersand_singleton (c : UInt8) : EndsWithAmpersand [c] ↔ c = byteOf '&' := by
  have hescape : ¬bytesOf "%26".toList <:+ [c] := by
    intro h
    exact absurd h.length_le (by simp [bytesOf])
  have hsingle : bytesOf "&".toList <:+ [c] ↔ c = byteOf '&' := by
    rw [List.suffix_cons_iff, List.suffix_nil]
    simp [bytesOf, eq_comm]
  rw [EndsWithAmpersand, hsingle]
  exact or_iff_left hescape

/-- No digit of an escape is an ampersand or a percent sign. -/
theorem digit_ne {x : UInt8} (hx : isXDigit x = true) : x ≠ byteOf '&' ∧ x ≠ byteOf '%' := by
  constructor <;> rintro rfl <;> cases hx

theorem getLast?_percentDecode (str : Bytes) :
    (percentDecode str).getLast? = some (byteOf '&') ↔ EndsWithAmpersand str := by
  induction hn : str.length using Nat.strong_induction_on generalizing str with
  | _ n ih =>
    subst hn
    cases str with
    | nil => decide
    | cons c str =>
      rcases percentDecode_cons_cases c str with hstep | ⟨x, y, rest, rfl, rfl, hx, hy, hstep⟩
      -- a byte that stands for itself
      · rw [hstep]
        by_cases hne : str = []
        · subst hne
          rw [endsWithAmpersand_singleton]
          exact Option.some_inj
        · have hescape : bytesOf "%26".toList ≠ c :: str := by
            rintro h
            rw [← h] at hstep
            obtain ⟨rfl, rfl⟩ := List.cons.inj h
            exact absurd hstep (by decide)
          rw [endsWithAmpersand_cons hne hescape, ← ih str.length (Nat.lt_succ_self _) str rfl,
            List.getLast?_cons_of_ne_nil (mt percentDecode_eq_nil.mp hne)]
      -- an escape, which is read as a whole
      · have hyrest : bytesOf "%26".toList ≠ y :: rest :=
          fun h => (digit_ne hy).2 (List.cons.inj h).1.symm
        have hxrest : bytesOf "%26".toList ≠ x :: y :: rest :=
          fun h => (digit_ne hx).2 (List.cons.inj h).1.symm
        rw [hstep]
        by_cases hne : rest = []
        · subst hne
          rw [percentDecode, List.getLast?_singleton, Option.some_inj]
          constructor
          · intro h
            obtain ⟨rfl, rfl⟩ := escape_ampersand hx hy h
            decide
          · rintro (h | h)
            · obtain ⟨left, h⟩ := h
              have hlast : y = byteOf '&' := by simpa [bytesOf] using (congrArg List.getLast? h).symm
              exact absurd hlast (digit_ne hy).1
            · have hdigits : byteOf '2' = x ∧ byteOf '6' = y := by
                simpa [bytesOf] using h.eq_of_length rfl
              rw [← hdigits.1, ← hdigits.2]
              rfl
        · have hescape : bytesOf "%26".toList ≠ byteOf '%' :: x :: y :: rest := by
            intro h
            have hlength := congrArg List.length h
            exact hne (List.length_eq_zero_iff.mp (by simpa [bytesOf] using hlength))
          rw [endsWithAmpersand_cons (List.cons_ne_nil _ _) hescape,
            endsWithAmpersand_cons (List.cons_ne_nil _ _) hxrest, endsWithAmpersand_cons hne hyrest,
            ← ih rest.length (by simp only [List.length_cons]; omega) rest rfl,
            List.getLast?_cons_of_ne_nil (mt percentDecode_eq_nil.mp hne)]

/-! ### The ampersand at the end -/

theorem popAmpersand_of_ne {str : Bytes} (h : str.getLast? ≠ some (byteOf '&')) :
    popAmpersand str = str := by
  rw [popAmpersand, if_neg h]

theorem popAmpersand_append_singleton (str : Bytes) : popAmpersand (str ++ [byteOf '&']) = str := by
  rw [popAmpersand, if_pos List.getLast?_concat, List.dropLast_concat]

theorem popAmpersand_append (left : Bytes) {right : Bytes} (hright : right ≠ []) :
    popAmpersand (left ++ right) = left ++ popAmpersand right := by
  rw [popAmpersand, popAmpersand, List.getLast?_append_of_ne_nil _ hright,
    List.dropLast_append_of_ne_nil hright]
  split <;> rfl

theorem popAmpersand_eq_self {str : Bytes} :
    popAmpersand str = str ↔ str.getLast? ≠ some (byteOf '&') := by
  constructor
  · intro h hlast
    rw [popAmpersand, if_pos hlast] at h
    have hlength := congrArg List.length h
    rw [List.length_dropLast] at hlength
    have hne : str ≠ [] := by
      rintro rfl
      cases hlast
    have hpos := List.length_pos_iff.mpr hne
    omega
  · exact popAmpersand_of_ne

/-- The ampersand is unreserved in a path and in an authority: it may be taken off before or after the
encoding. -/
theorem popAmpersand_percentEncode {unreserved : ASCIISet} (htest : unreserved.test (byteOf '&') = true)
    (str : Bytes) :
    popAmpersand (percentEncode str unreserved) = percentEncode (popAmpersand str) unreserved := by
  rcases List.eq_nil_or_concat str with rfl | ⟨str, b, rfl⟩
  · rfl
  · have hsingle : percentEncode [b] unreserved = escape unreserved b := by
      rw [percentEncode_cons, percentEncode_nil, List.append_nil]
    rw [List.concat_eq_append, percentEncode_append, hsingle, popAmpersand_append _ (escape_ne_nil _ _)]
    by_cases hb : b = byteOf '&'
    · rw [hb, popAmpersand_append_singleton, escape, if_pos htest]
      exact List.append_nil _
    · have hdigit : ∀ n < 16, intToHexDigit n ≠ byteOf '&' := by decide
      have hescape : (escape unreserved b).getLast? ≠ some (byteOf '&') := by
        rw [escape]
        split
        · simpa using hb
        · simpa using hdigit (b.toNat % 16) (Nat.mod_lt _ (by decide))
      rw [popAmpersand_of_ne hescape, popAmpersand_of_ne (by simpa using hb), percentEncode_append,
        hsingle]

/-! ### The parts that are written -/

/-- The components without the ampersand that is taken off. -/
def popped (u : URI) : URI :=
  if u.queryParameterPairs ≠ [] then u
  else if u.path ≠ [] then { u with path := popAmpersand u.path }
  else { u with authority := popAmpersand u.authority }

def queryPair (query : Query) : Bytes :=
  percentEncode query.key kURIQueryKVUnreseredChars ++
    byteOf '=' :: percentEncode query.value kURIQueryKVUnreseredChars

/-- What is written, as the parts of a text. -/
def written (u : URI) : Parts where
  scheme := u.scheme
  authority :=
    if u.authority ≠ [] then some (percentEncode u.popped.authority kURIAuthUnreservedChars) else none
  path := percentEncode u.popped.path kURIPathUnreservedChars
  query :=
    if u.queryParameterPairs ≠ [] then some ([byteOf '&'].intercalate (u.queryParameterPairs.map queryPair))
    else none
  fragment :=
    if u.fragment ≠ [] then some (percentEncode u.fragment kURIFragmentUnreseredChars) else none

theorem flatMap_queryPair {pairs : List Query} (hne : pairs ≠ []) :
    (pairs.flatMap fun query =>
        percentEncode query.key kURIQueryKVUnreseredChars ++ [byteOf '='] ++
          percentEncode query.value kURIQueryKVUnreseredChars ++ [byteOf '&']) =
      [byteOf '&'].intercalate (pairs.map queryPair) ++ [byteOf '&'] := by
  have hmap : pairs.map queryPair ≠ [] := fun h => hne (List.map_eq_nil_iff.mp h)
  rw [← Delimited.flatMap_delim hmap, List.flatMap_map]
  simp only [queryPair, List.append_assoc, List.cons_append]
  rfl

theorem IsScheme.percentEncode_eq {s : Bytes} (hs : IsScheme s) :
    percentEncode s kURISchemeUnreseredChars = s := by
  apply percentEncode_of_unreserved
  intro b hb
  exact (test_kURIScheme_iff b b.toNat_lt).mpr (hs.chars b hb)

/-- The text behind the colon and up to the fragment, with the ampersand of the last parameter. -/
def unpopped (u : URI) : Bytes :=
  authorityText
      (if u.authority ≠ [] then some (percentEncode u.authority kURIAuthUnreservedChars) else none) ++
    (percentEncode u.path kURIPathUnreservedChars ++
      if u.queryParameterPairs ≠ [] then
        byteOf '?' :: [byteOf '&'].intercalate (u.queryParameterPairs.map queryPair) ++ [byteOf '&']
      else [])

theorem toString_eq_unpopped {u : URI} (hscheme : IsScheme u.scheme) :
    u.toString =
      popAmpersand (u.scheme ++ byteOf ':' :: u.unpopped) ++ fragmentText u.written.fragment := by
  have hauthority : (if u.authority ≠ [] then
        u.scheme ++ [byteOf ':'] ++ bytesOf ['/', '/'] ++ percentEncode u.authority kURIAuthUnreservedChars
      else u.scheme ++ [byteOf ':']) = u.scheme ++ byteOf ':' :: authorityText
        (if u.authority ≠ [] then some (percentEncode u.authority kURIAuthUnreservedChars) else none) := by
    split <;> simp [authorityText, bytesOf]
  have hpath : ∀ ret : Bytes, (if u.path ≠ [] then ret ++ percentEncode u.path kURIPathUnreservedChars
      else ret) = ret ++ percentEncode u.path kURIPathUnreservedChars := by
    intro ret
    split
    · rfl
    case isFalse h => rw [not_not.mp h, percentEncode_nil, List.append_nil]
  have hquery : ∀ ret : Bytes,
      (if u.queryParameterPairs ≠ [] then
        ret ++ [byteOf '?'] ++ u.queryParameterPairs.flatMap fun query =>
          percentEncode query.key kURIQueryKVUnreseredChars ++ [byteOf '='] ++
            percentEncode query.value kURIQueryKVUnreseredChars ++ [byteOf '&']
      else ret) =
        ret ++ if u.queryParameterPairs ≠ [] then
          byteOf '?' :: [byteOf '&'].intercalate (u.queryParameterPairs.map queryPair) ++ [byteOf '&']
        else [] := by
    intro ret
    split
    case isTrue h =>
      rw [flatMap_queryPair h, List.append_assoc]
      rfl
    case isFalse => rw [List.append_nil]
  have hfragment : ∀ ret : Bytes,
      (if u.fragment ≠ [] then
        ret ++ [byteOf '#'] ++ percentEncode u.fragment kURIFragmentUnreseredChars
      else ret) = ret ++ fragmentText u.written.fragment := by
    intro ret
    rw [written]
    split <;> simp [fragmentText]
  simp only [toString, hscheme.percentEncode_eq, hauthority, hpath, hquery, hfragment]
  rw [unpopped, List.append_assoc, List.append_assoc, List.cons_append]

theorem popAmpersand_unpopped (u : URI) :
    popAmpersand (byteOf ':' :: u.unpopped) =
      byteOf ':' ::
        (authorityText u.written.authority ++ (u.written.path ++ queryText u.written.query)) := by
  by_cases hpairs : u.queryParameterPairs ≠ []
  · have hpopped : u.popped = u := if_pos hpairs
    simp only [unpopped, written, hpopped, if_pos hpairs, ← List.append_assoc, ← List.cons_append,
      popAmpersand_append_singleton]
    simp [queryText]
  · by_cases hpath : u.path ≠ []
    · have hpopped : u.popped = { u with path := popAmpersand u.path } := by
        rw [popped, if_neg hpairs, if_pos hpath]
      simp only [unpopped, written, if_neg hpairs, hpopped, List.append_nil, queryText]
      rw [← List.cons_append, popAmpersand_append _ (mt percentEncode_eq_nil.mp hpath),
        popAmpersand_percentEncode (by rw [kURIPathUnreservedChars_eq]; decide)]
      rfl
    · have hpopped : u.popped = { u with authority := popAmpersand u.authority } := by
        rw [popped, if_neg hpairs, if_neg hpath]
      simp only [unpopped, written, if_neg hpairs, hpopped, not_not.mp hpath, percentEncode_nil,
        List.append_nil, queryText]
      by_cases hauthority : u.authority ≠ []
      · have hencode : percentEncode u.authority kURIAuthUnreservedChars ≠ [] :=
          mt percentEncode_eq_nil.mp hauthority
        have hpop := popAmpersand_append [byteOf ':', byteOf '/', byteOf '/'] hencode
        rw [popAmpersand_percentEncode (by rw [kURIAuthUnreservedChars_eq]; decide)] at hpop
        simp only [if_pos hauthority, authorityText]
        exact hpop
      · simp only [if_neg hauthority, authorityText]
        rfl

theorem toString_eq_text {u : URI} (hscheme : IsScheme u.scheme) : u.toString = u.written.text := by
  rw [toString_eq_unpopped hscheme, popAmpersand_append _ (List.cons_ne_nil _ _), popAmpersand_unpopped]
  simp [Parts.text, Parts.rest, written]

/-! ### The written parts are parts of the grammar -/

theorem free_percentEncode {chars : String} {unreserved : ASCIISet}
    (h : ∀ b ∈ bytesOf chars.toList, unreserved.test b = false ∧ b ≠ byteOf '%' ∧
      b ∉ bytesOf "0123456789ABCDEF".toList) (str : Bytes) :
    Free chars (percentEncode str unreserved) := by
  intro b hb hmem
  obtain ⟨htest, hpercent, hdigit⟩ := h b hmem
  exact notMem_percentEncode str htest hpercent hdigit hb

/-- What is encoded with unreserved characters of the fragment is made of the characters of the
fragment. -/
theorem isFragment_percentEncode {unreserved : ASCIISet}
    (h : ∀ b : UInt8, b.toNat < 256 → unreserved.test b = true → kURIFragmentUnreseredChars.test b = true)
    (str : Bytes) : IsFragment (percentEncode str unreserved) := by
  have hdigit : ∀ b ∈ bytesOf "0123456789ABCDEF".toList, kURIFragmentUnreseredChars.test b = true := by
    rw [kURIFragmentUnreseredChars_eq]
    exact forall_mem_of_all (by decide)
  intro b hb
  rcases mem_percentEncode hb with hb | hb | hb
  · exact .inl (h b b.toNat_lt hb)
  · exact .inr hb
  · exact .inl (hdigit b hb)

theorem test_fragment_of_test_queryKV : ∀ b : UInt8, b.toNat < 256 →
    kURIQueryKVUnreseredChars.test b = true → kURIFragmentUnreseredChars.test b = true := by
  rw [kURIQueryKVUnreseredChars_eq, kURIFragmentUnreseredChars_eq]
  apply byte_of_ofNat
  decide +kernel

theorem IsFragment.append {left right : Bytes} (hleft : IsFragment left) (hright : IsFragment right) :
    IsFragment (left ++ right) := by
  intro b hb
  rcases List.mem_append.mp hb with hb | hb
  · exact hleft b hb
  · exact hright b hb

theorem isFragment_singleton {c : UInt8} (hc : kURIFragmentUnreseredChars.test c = true) :
    IsFragment [c] := by
  intro b hb
  rw [List.mem_singleton.mp hb]
  exact .inl hc

theorem isFragment_queryPair (query : Query) : IsFragment (queryPair query) := by
  have hencode := isFragment_percentEncode test_fragment_of_test_queryKV
  exact (hencode query.key).append
    ((isFragment_singleton (by rw [kURIFragmentUnreseredChars_eq]; decide)).append (hencode query.value))

theorem ampersand_notMem_queryPair (query : Query) : byteOf '&' ∉ queryPair query := by
  have hencode : ∀ str, byteOf '&' ∉ percentEncode str kURIQueryKVUnreseredChars := fun str =>
    notMem_percentEncode str (by rw [kURIQueryKVUnreseredChars_eq]; decide) (by decide) (by decide)
  simp only [queryPair, List.mem_append, List.mem_cons, not_or]
  exact ⟨hencode _, by decide, hencode _⟩

theorem isFragment_intercalate {pieces : List Bytes} (h : ∀ piece ∈ pieces, IsFragment piece) :
    IsFragment ([byteOf '&'].intercalate pieces) := by
  induction pieces with
  | nil => exact nofun
  | cons piece pieces ih =>
    have hpiece := h piece List.mem_cons_self
    have hrest := ih fun x hx => h x (List.mem_cons_of_mem piece hx)
    cases pieces with
    | nil => simpa using hpiece
    | cons piece' pieces =>
      rw [List.intercalate_cons_cons]
      have hampersand : IsFragment [byteOf '&'] :=
        isFragment_singleton (by rw [kURIFragmentUnreseredChars_eq]; decide)
      exact (hpiece.append hampersand).append hrest

theorem intercalate_ne_nil {piece : Bytes} (hpiece : piece ≠ []) (pieces : List Bytes) :
    [byteOf '&'].intercalate (piece :: pieces) ≠ [] := by
  cases pieces with
  | nil => simpa using hpiece
  | cons piece' pieces => simp [List.intercalate_cons_cons]

/-- Nothing that may stand in a query is a hash sign. -/
theorem IsFragment.free {str : Bytes} (h : IsFragment str) : Free "#" str := by
  have hmark : ∀ b ∈ bytesOf "#".toList,
      ¬(kURIFragmentUnreseredChars.test b = true ∨ b = byteOf '%') := by
    rw [kURIFragmentUnreseredChars_eq]
    exact forall_mem_of_all (by decide)
  exact fun b hb hmem => hmark b hmem (h b hb)

theorem queryPair_ne_nil (query : Query) : queryPair query ≠ [] :=
  List.append_ne_nil_of_right_ne_nil _ (List.cons_ne_nil _ _)

theorem isQuery_intercalate {pairs : List Query} (hne : pairs ≠ []) :
    IsQuery ([byteOf '&'].intercalate (pairs.map queryPair)) := by
  have hchars : IsFragment ([byteOf '&'].intercalate (pairs.map queryPair)) := by
    apply isFragment_intercalate
    simp only [List.mem_map]
    rintro _ ⟨query, -, rfl⟩
    exact isFragment_queryPair query
  refine ⟨?_, hchars.free, hchars⟩
  cases pairs with
  | nil => exact absurd rfl hne
  | cons query pairs => exact intercalate_ne_nil (queryPair_ne_nil query) _

/-- The parameters are read back from what is written for them. -/
theorem queryOf_queryPair (query : Query) : queryOf (queryPair query) = query := by
  have hpercent : kURIQueryKVUnreseredChars.test (byteOf '%') = false := by
    rw [kURIQueryKVUnreseredChars_eq]
    decide
  have hequals : byteOf '=' ∉ percentEncode query.key kURIQueryKVUnreseredChars :=
    notMem_percentEncode _ (by rw [kURIQueryKVUnreseredChars_eq]; decide) (by decide) (by decide)
  rw [queryPair, queryOf_append hequals, percentDecode_percentEncode _ hpercent,
    percentDecode_percentEncode _ hpercent]

theorem queryPieces_intercalate {pairs : List Query} (hne : pairs ≠ []) :
    queryPieces ([byteOf '&'].intercalate (pairs.map queryPair)) = pairs.map queryPair := by
  have hsplit : ([byteOf '&'].intercalate (pairs.map queryPair)).splitOn (byteOf '&') =
      pairs.map queryPair := by
    apply List.splitOn_intercalate _ _ (by simpa using hne)
    simp only [List.mem_map]
    rintro _ ⟨query, -, rfl⟩
    exact ampersand_notMem_queryPair query
  have hlast : (pairs.map queryPair).getLast? ≠ some [] := by
    intro h
    obtain ⟨query, -, hquery⟩ := List.mem_map.mp (List.mem_of_getLast? h)
    exact queryPair_ne_nil query hquery
  rw [queryPieces, hsplit, if_neg hlast]

/-! ### What is read back -/

theorem popAmpersand_prefix (str : Bytes) : popAmpersand str <+: str := by
  rw [popAmpersand]
  split
  · exact List.dropLast_prefix str
  · exact List.prefix_refl str

theorem popped_path_prefix (u : URI) : u.popped.path <+: u.path := by
  rw [popped]
  split
  · exact List.prefix_refl _
  · split
    · exact popAmpersand_prefix u.path
    · exact List.prefix_refl _

theorem popped_path_of_slashes {u : URI} (h : bytesOf ['/', '/'] <+: u.path) :
    bytesOf ['/', '/'] <+: u.popped.path := by
  obtain ⟨x, hx⟩ := h
  have hpop : bytesOf ['/', '/'] <+: popAmpersand (bytesOf ['/', '/'] ++ x) := by
    by_cases hne : x = []
    · rw [hne]
      decide
    · rw [popAmpersand_append _ hne]
      exact List.prefix_append _ _
  rw [popped]
  split
  · exact ⟨x, hx⟩
  · split
    · rwa [hx] at hpop
    · exact ⟨x, hx⟩

theorem popped_authority_of_nil {u : URI} (h : u.authority = []) : u.popped.authority = [] := by
  rw [popped]
  split
  · exact h
  · split
    · exact h
    · change popAmpersand u.authority = []
      rw [h]
      rfl

/-- The components that the ampersand does not belong to stay. -/
theorem popped_others (u : URI) :
    u.popped.scheme = u.scheme ∧ u.popped.queryParameterPairs = u.queryParameterPairs ∧
      u.popped.fragment = u.fragment := by
  rw [popped]
  split
  · exact ⟨rfl, rfl, rfl⟩
  · split <;> exact ⟨rfl, rfl, rfl⟩

theorem Stops.mono {chars : String} {str str' : Bytes} (h : Stops chars str') (hle : str <+: str') :
    Stops chars str := by
  obtain ⟨rest, rfl⟩ := hle
  cases str with
  | nil => exact stops_nil
  | cons b str => exact stops_cons.mpr (stops_cons.mp h)

/-- A path is written with its slashes, and decodes to itself. -/
theorem percentEncode_path_cons_slash (str : Bytes) :
    percentEncode (byteOf '/' :: str) kURIPathUnreservedChars =
      byteOf '/' :: percentEncode str kURIPathUnreservedChars := by
  have htest : kURIPathUnreservedChars.test (byteOf '/') = true := by
    rw [kURIPathUnreservedChars_eq]
    decide
  rw [percentEncode_cons, escape, if_pos htest]
  rfl

theorem percentDecode_path (str : Bytes) :
    percentDecode (percentEncode str kURIPathUnreservedChars) = str :=
  percentDecode_percentEncode str (by rw [kURIPathUnreservedChars_eq]; decide)

theorem free_path (str : Bytes) : Free "?#" (percentEncode str kURIPathUnreservedChars) :=
  free_percentEncode (by rw [kURIPathUnreservedChars_eq]; exact forall_mem_of_all (by decide)) str

theorem stops_slash_percentEncode {str : Bytes} (h : Stops "/" str) :
    Stops "/" (percentEncode str kURIPathUnreservedChars) := by
  cases str with
  | nil => exact stops_nil
  | cons b str =>
    have hb : b = byteOf '/' := List.mem_singleton.mp (stops_cons.mp h)
    rw [hb, percentEncode_path_cons_slash]
    exact stops_cons.mpr (by decide)

/-- Two slashes at the start of an encoded path were there before. -/
theorem slashes_prefix_of_percentEncode {str : Bytes}
    (h : bytesOf ['/', '/'] <+: percentEncode str kURIPathUnreservedChars) : bytesOf ['/', '/'] <+: str := by
  obtain ⟨rest, hrest⟩ := h
  refine ⟨percentDecode rest, ?_⟩
  calc bytesOf ['/', '/'] ++ percentDecode rest
      = percentDecode (bytesOf ['/', '/'] ++ rest) := by
        change byteOf '/' :: byteOf '/' :: percentDecode rest =
          percentDecode (byteOf '/' :: byteOf '/' :: rest)
        rw [percentDecode_cons_of_ne (by decide), percentDecode_cons_of_ne (by decide)]
    _ = percentDecode (percentEncode str kURIPathUnreservedChars) := by rw [hrest]
    _ = str := percentDecode_path str

/-- The marks of the query and the fragment are not slashes. -/
theorem slashes_prefix_of_append {str tail : Bytes} (htail : Stops "?#" tail)
    (h : bytesOf ['/', '/'] <+: str ++ tail) : bytesOf ['/', '/'] <+: str := by
  have hslash : ∀ rest, tail ≠ byteOf '/' :: rest := by
    rintro rest rfl
    exact absurd (stops_cons.mp htail) (by decide)
  obtain ⟨rest, hrest⟩ := h
  match str with
  | [] => exact absurd hrest.symm (hslash _)
  | [b] => exact absurd (List.cons.inj hrest).2.symm (hslash _)
  | b :: c :: str =>
    have hb := (List.cons.inj hrest).1
    have hc := (List.cons.inj (List.cons.inj hrest).2).1
    exact ⟨str, by rw [← hb, ← hc]; rfl⟩

theorem free_authority_written (u : URI) : ∀ a ∈ u.written.authority, Free "/?#" a := by
  intro a ha
  simp only [written, Option.mem_def, Option.ite_none_right_eq_some, Option.some.injEq] at ha
  obtain ⟨-, rfl⟩ := ha
  apply free_percentEncode
  rw [kURIAuthUnreservedChars_eq]
  exact forall_mem_of_all (by decide)

theorem isQuery_written (u : URI) : ∀ q ∈ u.written.query, IsQuery q := by
  intro q hq
  simp only [written, Option.mem_def, Option.ite_none_right_eq_some, Option.some.injEq] at hq
  obtain ⟨hne, rfl⟩ := hq
  exact isQuery_intercalate hne

theorem isFragment_written (u : URI) : ∀ f ∈ u.written.fragment, IsFragment f := by
  intro f hf
  simp only [written, Option.mem_def, Option.ite_none_right_eq_some, Option.some.injEq] at hf
  obtain ⟨-, rfl⟩ := hf
  exact isFragment_percentEncode (fun _ _ h => h) _

/-- The parameters of the query that is written. -/
theorem pairs_written (u : URI) :
    (queryPieces (u.written.query.getD [])).map queryOf = u.queryParameterPairs := by
  by_cases hne : u.queryParameterPairs ≠ []
  · rw [written, if_pos hne, Option.getD_some, queryPieces_intercalate hne, List.map_map]
    exact List.map_id'' queryOf_queryPair _
  · rw [written, if_neg hne, not_not.mp hne]
    rfl

theorem written_wellFormed {u : URI} (hscheme : IsScheme u.scheme)
    (hslashes : u.authority = [] → ¬bytesOf ['/', '/'] <+: u.path) : u.written.WellFormed where
  scheme := hscheme
  authority_isSome := by
    by_cases hauthority : u.authority ≠ []
    · have hsome : u.written.authority =
          some (percentEncode u.popped.authority kURIAuthUnreservedChars) := if_pos hauthority
      rw [Parts.rest, hsome]
      exact iff_of_true rfl (slashes_prefix_authorityText _ _)
    · have hnone : u.written.authority = none := if_neg hauthority
      rw [Parts.rest, hnone]
      refine iff_of_false Bool.false_ne_true fun h => hslashes (not_not.mp hauthority) ?_
      have hpath := slashes_prefix_of_append (stops_queryText _ _) h
      exact (slashes_prefix_of_percentEncode hpath).trans u.popped_path_prefix
  authority := u.free_authority_written
  path := free_path _
  query := u.isQuery_written
  fragment := u.isFragment_written

theorem uri_written (u : URI) : u.written.uri = u.popped := by
  obtain ⟨hscheme, hpairs, hfragment⟩ := u.popped_others
  have hauthorityDecoded : percentDecode (u.written.authority.getD []) = u.popped.authority := by
    by_cases hauthority : u.authority ≠ []
    · rw [written, if_pos hauthority]
      exact percentDecode_percentEncode _ (by rw [kURIAuthUnreservedChars_eq]; decide)
    · rw [written, if_neg hauthority, popped_authority_of_nil (not_not.mp hauthority)]
      rfl
  have hfragmentDecoded : percentDecode (u.written.fragment.getD []) = u.fragment := by
    by_cases hne : u.fragment ≠ []
    · rw [written, if_pos hne]
      exact percentDecode_percentEncode _ (by rw [kURIFragmentUnreseredChars_eq]; decide)
    · rw [written, if_neg hne, not_not.mp hne]
      rfl
  have hpathDecoded : percentDecode u.written.path = u.popped.path := percentDecode_path _
  rw [Parts.uri, hauthorityDecoded, hpathDecoded, u.pairs_written, hfragmentDecoded, ← hpairs, ← hfragment]
  change URI.mk u.scheme _ _ _ _ = _
  rw [← hscheme]

/-- Where the path is not taken for an authority, the components are read back without the ampersand. -/
theorem parse_toString_eq_popped {u : URI} (hscheme : IsScheme u.scheme)
    (hpath : u.authority ≠ [] → Stops "/" u.path)
    (hslashes : u.authority = [] → ¬bytesOf ['/', '/'] <+: u.path) :
    parse u.toString = .ok u.popped := by
  have hdelimited : u.written.PathDelimited := by
    intro hsome
    have hauthority : u.authority ≠ [] := by
      rintro h
      rw [written, if_neg (not_not.mpr h)] at hsome
      cases hsome
    exact stops_slash_percentEncode ((hpath hauthority).mono u.popped_path_prefix)
  rw [toString_eq_text hscheme, parse_text (written_wellFormed hscheme hslashes) hdelimited, uri_written]

/-- A path that starts with two slashes is taken for an authority where none stands before it. -/
theorem parse_toString_ne {u : URI} (hscheme : IsScheme u.scheme) (hauthority : u.authority = [])
    (hslashes : bytesOf ['/', '/'] <+: u.path) : parse u.toString ≠ .ok u := by
  intro h
  obtain ⟨d, ⟨htext, hd⟩, -, huri⟩ := exists_of_parse h
  rw [toString_eq_text hscheme] at htext
  obtain ⟨-, hrest⟩ := Parts.text_inj hscheme hd.scheme htext
  obtain ⟨y, hy⟩ := popped_path_of_slashes hslashes
  have hwritten : u.written.rest =
      byteOf '/' :: byteOf '/' :: (percentEncode y kURIPathUnreservedChars ++ u.written.tail) := by
    have hpath : u.written.path =
        byteOf '/' :: byteOf '/' :: percentEncode y kURIPathUnreservedChars := by
      have hencode := percentEncode_path_cons_slash (byteOf '/' :: y)
      rw [percentEncode_path_cons_slash y] at hencode
      rw [written, ← hy]
      exact hencode
    have hnone : u.written.authority = none := if_neg (not_not.mpr hauthority)
    rw [Parts.rest, hnone, hpath]
    rfl
  -- the authority that is read is empty, and the path is the rest behind the slashes
  obtain ⟨a, ha⟩ := Option.isSome_iff_exists.mp (hd.authority_isSome.mpr ⟨_, (hwritten.symm.trans hrest)⟩)
  have hnil : a = [] := by
    apply percentDecode_eq_nil.mp
    rw [← hauthority, ← huri, Parts.uri, ha]
    rfl
  have hd_rest : d.rest = byteOf '/' :: byteOf '/' :: (d.path ++ d.tail) := by
    rw [Parts.rest, ha, hnil]
    rfl
  rw [hwritten, hd_rest] at hrest
  obtain ⟨hpath, -⟩ := cut_unique (by decide) (free_path y) hd.path
    u.written.stops_tail d.stops_tail (List.cons.inj (List.cons.inj hrest).2).2
  have hread : u.path = y := by
    calc u.path = percentDecode d.path := by rw [← huri]; rfl
      _ = percentDecode (percentEncode y kURIPathUnreservedChars) := by rw [hpath]
      _ = y := percentDecode_path y
  have hlength := u.popped_path_prefix.length_le
  rw [← hy, hread, List.length_append] at hlength
  simp only [bytesOf, List.map_cons, List.map_nil, List.length_cons, List.length_nil] at hlength
  omega

theorem popped_eq_self (u : URI) :
    u.popped = u ↔ ¬(u.queryParameterPairs = [] ∧ (u.path.getLast? = some (byteOf '&') ∨
      u.path = [] ∧ u.authority.getLast? = some (byteOf '&'))) := by
  rw [popped]
  by_cases hpairs : u.queryParameterPairs ≠ []
  · rw [if_pos hpairs]
    exact iff_of_true rfl fun h => hpairs h.1
  rw [if_neg hpairs]
  have hpairs := not_not.mp hpairs
  by_cases hpath : u.path ≠ []
  · rw [if_pos hpath]
    have hself : ({ u with path := popAmpersand u.path } : URI) = u ↔ popAmpersand u.path = u.path :=
      ⟨fun h => congrArg URI.path h, fun h => by rw [h]⟩
    rw [hself, popAmpersand_eq_self]
    simp [hpairs, hpath]
  · rw [if_neg hpath]
    have hpath := not_not.mp hpath
    have hself : ({ u with authority := popAmpersand u.authority } : URI) = u ↔
        popAmpersand u.authority = u.authority :=
      ⟨fun h => congrArg URI.authority h, fun h => by rw [h]⟩
    rw [hself, popAmpersand_eq_self]
    simp [hpairs, hpath]

/-! ### The round trip -/

theorem queryPieces_eq_nil {q : Bytes} : queryPieces q = [] ↔ q = [] := by
  constructor
  · intro h
    by_contra hq
    obtain ⟨rest, hcut, hfree, hstop⟩ := findFirstOf_cut (show IsASCII "&" by decide) q
    generalize findFirstOf q "&" = piece at *
    subst hcut
    rw [free_singleton '&' rfl] at hfree
    cases rest with
    | nil =>
      rw [List.append_nil] at hq h
      rw [queryPieces_singleton hq hfree] at h
      cases h
    | cons b rest =>
      rw [List.mem_singleton.mp (stops_cons.mp hstop)] at h
      exact absurd ((queryPieces_cons hfree rest).symm.trans h) (List.cons_ne_nil _ _)
  · rintro rfl
    exact queryPieces_nil

namespace Parts

variable {d : Parts}

theorem WellFormed.pairs_eq_nil (hd : d.WellFormed) : d.uri.queryParameterPairs = [] ↔ d.query = none := by
  rw [uri, List.map_eq_nil_iff, queryPieces_eq_nil]
  cases hq : d.query with
  | none => simp
  | some q => simpa using (hd.query q hq).ne_nil

theorem stops_uri_path (hdelimited : d.PathDelimited) (hauthority : d.uri.authority ≠ []) :
    Stops "/" d.uri.path := by
  have hsome : d.authority.isSome := by
    cases ha : d.authority with
    | none =>
      rw [uri, ha] at hauthority
      exact absurd rfl hauthority
    | some a => rfl
  have hpath := hdelimited hsome
  rw [uri]
  cases hp : d.path with
  | nil => exact stops_nil
  | cons b p =>
    rw [hp] at hpath
    rw [List.mem_singleton.mp (stops_cons.mp hpath), percentDecode_cons_of_ne (by decide)]
    exact stops_cons.mpr (by decide)

/-- A URI that was read from a text is read back from its own unless its path is taken for an
authority or an ampersand is taken off. -/
theorem parse_uri_toString_iff (hd : d.WellFormed) (hdelimited : d.PathDelimited) :
    parse d.uri.toString = .ok d.uri ↔
      ¬(d.authority.getD [] = [] ∧ OpensWithSlashes d.path) ∧
        ¬(d.query = none ∧
          (EndsWithAmpersand d.path ∨ d.path = [] ∧ EndsWithAmpersand (d.authority.getD []))) := by
  have hauthority : d.uri.authority = [] ↔ d.authority.getD [] = [] := percentDecode_eq_nil
  have hpath : d.uri.path = [] ↔ d.path = [] := percentDecode_eq_nil
  rw [← hauthority, ← hpath, ← hd.pairs_eq_nil, ← slashes_prefix_percentDecode, ← getLast?_percentDecode,
    ← getLast?_percentDecode]
  by_cases hslashes : d.uri.authority = [] ∧ bytesOf ['/', '/'] <+: d.uri.path
  · exact iff_of_false (parse_toString_ne hd.scheme hslashes.1 hslashes.2) fun h => h.1 hslashes
  · have hparse := parse_toString_eq_popped hd.scheme (stops_uri_path hdelimited)
      fun h h' => hslashes ⟨h, h'⟩
    rw [hparse, Except.ok.injEq, popped_eq_self]
    exact (and_iff_right hslashes).symm

end Parts

/-- A text with a scheme, bytes without marks, a query and a fragment is accepted with the
parameters of the query. -/
theorem parse_marks {s front : Bytes} {q f : Option Bytes} (hs : IsScheme s)
    (hfront : Free "?#" front) (hq : ∀ x ∈ q, IsQuery x) (hf : ∀ x ∈ f, IsFragment x) :
    ∃ w, parse (s ++ byteOf ':' :: (front ++ (queryText q ++ fragmentText f))) = .ok w ∧
      w.queryParameterPairs = (queryPieces (q.getD [])).map queryOf := by
  obtain ⟨d, rfl, hrest, hd⟩ := exists_cut s (front ++ (queryText q ++ fragmentText f))
  obtain ⟨rfl, rfl⟩ := hd.marks_eq hfront (fun x hx => (hq x hx).free) hrest.symm
  refine ⟨d.uri, ?_, rfl⟩
  rw [← hrest]
  exact (parse_text_of_cut hs hd d.uri).mpr ⟨hq, hf, rfl⟩

/-- A scheme that the parser has read is one. -/
theorem isScheme_of_parse {t : Bytes} {u : URI} (h : parse t = .ok u) : IsScheme u.scheme := by
  obtain ⟨d, ⟨-, hd⟩, -, rfl⟩ := exists_of_parse h
  exact hd.scheme

end URI

end Iomgr
