import Iomgr.URIPercent
import Mathlib.Data.List.TakeWhile

/-!
The grammar of a URI, and the parser against it. A text is a scheme, a colon, and the rest; the rest is
an authority behind two slashes, a path, a query behind a question mark and a fragment behind a
hash sign, where all but the path may be absent. The authority goes on to the next slash: a text has
one decomposition whose path, behind an authority, is empty or starts with a slash.
-/

namespace Iomgr

namespace URI

/-! ### Cuts at the first of some characters -/

/-- None of the characters is in the string. -/
def Free (chars : String) (str : Bytes) : Prop := ∀ b ∈ str, b ∉ bytesOf chars.toList

instance (chars : String) (str : Bytes) : Decidable (Free chars str) :=
  List.decidableBAll (fun b => b ∉ bytesOf chars.toList) str

/-- The string is empty, or starts with one of the characters. -/
def Stops (chars : String) (str : Bytes) : Prop := ∀ b ∈ str.head?, b ∈ bytesOf chars.toList

def IsASCII (chars : String) : Prop := ∀ b ∈ bytesOf chars.toList, b < 128

instance (chars : String) : Decidable (IsASCII chars) :=
  List.decidableBAll (fun b => b < 128) (bytesOf chars.toList)

section

variable {chars : String}

@[simp]
theorem stops_nil : Stops chars [] := fun _ h => nomatch h

theorem stops_cons {b : UInt8} {str : Bytes} : Stops chars (b :: str) ↔ b ∈ bytesOf chars.toList := by
  simp [Stops]

theorem free_singleton (c : Char) (hchars : chars.toList = [c]) {s : Bytes} :
    Free chars s ↔ byteOf c ∉ s := by
  rw [Free, hchars]
  constructor
  · intro h hmem
    exact h _ hmem (List.mem_singleton.mpr rfl)
  · intro h b hb hc
    rw [List.mem_singleton.mp hc] at hb
    exact h hb

theorem findFirstOf_eq_takeWhile (hascii : IsASCII chars) (slice : Bytes) :
    findFirstOf slice chars = slice.takeWhile fun b => decide (b ∉ bytesOf chars.toList) := by
  rw [findFirstOf]
  congr 1
  funext b
  rw [ASCIISet.test_ofString hascii, decide_not]

/-- What is cut off is what stands before the first of the characters. -/
theorem findFirstOf_append (hascii : IsASCII chars) {a rest : Bytes} (ha : Free chars a)
    (hrest : Stops chars rest) : findFirstOf (a ++ rest) chars = a := by
  rw [findFirstOf_eq_takeWhile hascii]
  rw [List.takeWhile_append_of_pos fun b hb => decide_eq_true (ha b hb)]
  cases rest with
  | nil => exact List.append_nil a
  | cons b rest =>
    rw [List.takeWhile_cons_of_neg, List.append_nil]
    simpa using stops_cons.mp hrest

theorem findFirstOf_cut (hascii : IsASCII chars) (slice : Bytes) :
    ∃ rest, slice = findFirstOf slice chars ++ rest ∧ Free chars (findFirstOf slice chars) ∧
      Stops chars rest := by
  rw [findFirstOf_eq_takeWhile hascii]
  refine ⟨_, List.takeWhile_append_dropWhile.symm, ?_, ?_⟩
  · intro b hb
    simpa using List.mem_takeWhile_imp hb
  · intro b hb
    have h := List.head?_dropWhile_not (fun b => decide (b ∉ bytesOf chars.toList)) slice
    rw [Option.mem_def.mp hb] at h
    simpa using h

/-- There is one cut. -/
theorem cut_unique (hascii : IsASCII chars) {a a' rest rest' : Bytes} (ha : Free chars a)
    (ha' : Free chars a') (hrest : Stops chars rest) (hrest' : Stops chars rest')
    (h : a ++ rest = a' ++ rest') : a = a' ∧ rest = rest' := by
  have heq : a = a' := by
    calc a = findFirstOf (a ++ rest) chars := (findFirstOf_append hascii ha hrest).symm
      _ = findFirstOf (a' ++ rest') chars := by rw [h]
      _ = a' := findFirstOf_append hascii ha' hrest'
  subst heq
  exact ⟨rfl, List.append_cancel_left h⟩

end

/-! ### The grammar -/

/-- The parts of a text as they stand in it. -/
structure Parts where
  scheme : Bytes
  authority : Option Bytes
  path : Bytes
  query : Option Bytes
  fragment : Option Bytes
  deriving DecidableEq, Repr

def authorityText : Option Bytes → Bytes
  | none => []
  | some a => byteOf '/' :: byteOf '/' :: a

theorem slashes_prefix_authorityText (a rest : Bytes) :
    bytesOf ['/', '/'] <+: authorityText (some a) ++ rest := ⟨a ++ rest, rfl⟩

def queryText : Option Bytes → Bytes
  | none => []
  | some q => byteOf '?' :: q

def fragmentText : Option Bytes → Bytes
  | none => []
  | some f => byteOf '#' :: f

/-- A scheme starts with a letter and is made of letters, digits, `+`, `-` and `.`. -/
structure IsScheme (s : Bytes) : Prop where
  ne_nil : s ≠ []
  free : byteOf ':' ∉ s
  head : ∀ b ∈ s.head?, isAlpha b = true
  chars : ∀ b ∈ s, isAlpha b = true ∨ isDigit b = true ∨ b ∈ bytesOf "+-.".toList

/-- A query is not empty, and has no hash sign. -/
structure IsQuery (q : Bytes) : Prop where
  ne_nil : q ≠ []
  free : Free "#" q
  chars : ∀ b ∈ q, kURIFragmentUnreseredChars.test b = true ∨ b = byteOf '%'

def IsFragment (f : Bytes) : Prop :=
  ∀ b ∈ f, kURIFragmentUnreseredChars.test b = true ∨ b = byteOf '%'

namespace Parts

/-- What stands behind the colon of the scheme. -/
def rest (d : Parts) : Bytes :=
  authorityText d.authority ++ (d.path ++ (queryText d.query ++ fragmentText d.fragment))

def text (d : Parts) : Bytes := d.scheme ++ byteOf ':' :: d.rest

structure WellFormed (d : Parts) : Prop where
  scheme : IsScheme d.scheme
  authority_isSome : d.authority.isSome ↔ bytesOf ['/', '/'] <+: d.rest
  authority : ∀ a ∈ d.authority, Free "/?#" a
  path : Free "?#" d.path
  query : ∀ q ∈ d.query, IsQuery q
  fragment : ∀ f ∈ d.fragment, IsFragment f

/-- Behind an authority the path is empty or starts with a slash. -/
def PathDelimited (d : Parts) : Prop := d.authority.isSome → Stops "/" d.path

end Parts

/-- The decompositions of a text that the grammar allows. -/
def Decomposes (t : Bytes) (d : Parts) : Prop := t = d.text ∧ d.WellFormed

/-! ### The components -/

/-- A query string split at every `&`, without an empty last piece. -/
def queryPieces (q : Bytes) : List Bytes :=
  if (q.splitOn (byteOf '&')).getLast? = some [] then (q.splitOn (byteOf '&')).dropLast
  else q.splitOn (byteOf '&')

/-- A piece of a query string split at its first `=`. -/
def queryOf (piece : Bytes) : Query where
  key := percentDecode (piece.takeWhile (· != byteOf '='))
  value := percentDecode ((piece.dropWhile (· != byteOf '=')).drop 1)

/-- The components of a decomposition. -/
def Parts.uri (d : Parts) : URI where
  scheme := d.scheme
  authority := percentDecode (d.authority.getD [])
  path := percentDecode d.path
  queryParameterPairs := (queryPieces (d.query.getD [])).map queryOf
  fragment := percentDecode (d.fragment.getD [])

/-! ### One stage of the parser -/

theorem startsWith_iff {slice : Bytes} {text : String} :
    startsWith slice text = true ↔ bytesOf text.toList <+: slice := List.isPrefixOf_iff_prefix

theorem startsWith_singleton {text : String} (c : Char) (htext : text.toList = [c]) {slice : Bytes} :
    startsWith slice text = true ↔ slice.head? = some (byteOf c) := by
  rw [startsWith_iff, htext]
  cases slice with
  | nil => simp [bytesOf]
  | cons b slice => simp [bytesOf, eq_comm]

theorem test_kURIScheme_iff : ∀ b : UInt8, b.toNat < 256 →
    (kURISchemeUnreseredChars.test b = true ↔
      isAlpha b = true ∨ isDigit b = true ∨ b ∈ bytesOf "+-.".toList) := by
  rw [kURISchemeUnreseredChars_eq]
  apply byte_of_ofNat
  decide +kernel

theorem contains_kSchemeChars (b : UInt8) :
    kSchemeChars.contains b = true ↔
      isAlpha b = true ∨ isDigit b = true ∨ b ∈ bytesOf "+-.".toList := by
  have htest : kURISchemeUnreseredChars.test b = decide (b ∈ kSchemeChars) :=
    ASCIISet.test_ofString (forall_mem_of_all (by decide)) b
  rw [← test_kURIScheme_iff b b.toNat_lt, htest, decide_eq_true_iff]
  exact List.contains_iff_mem

theorem parseScheme_append {s : Bytes} (hs : IsScheme s) (rest : Bytes) :
    parseScheme (s ++ byteOf ':' :: rest) = .ok (s, rest) := by
  have hcut : findFirstOf (s ++ byteOf ':' :: rest) ":" = s :=
    findFirstOf_append (by decide) ((free_singleton ':' rfl).mpr hs.free) (stops_cons.mpr (by decide))
  have hlength : ¬(s = [] ∨ s.length = (s ++ byteOf ':' :: rest).length) := by
    simp [hs.ne_nil]
  have hchars : ¬(s.any fun b => !kSchemeChars.contains b) = true := by
    simp only [List.any_eq_true, Bool.not_eq_true', not_exists, not_and, Bool.not_eq_false]
    intro b hb
    exact (contains_kSchemeChars b).mpr (hs.chars b hb)
  have hhead : ¬(!s.head?.any isAlpha) = true := by
    obtain ⟨b, hb⟩ := Option.ne_none_iff_exists'.mp (mt List.head?_eq_none_iff.mp hs.ne_nil)
    simp [hb, hs.head b hb]
  rw [parseScheme, hcut, if_neg hlength, if_neg hchars, if_neg hhead]
  simp

theorem of_parseScheme {t s rest : Bytes} (h : parseScheme t = .ok (s, rest)) :
    t = s ++ byteOf ':' :: rest ∧ IsScheme s := by
  obtain ⟨tail, ht, hfree, hstop⟩ := findFirstOf_cut (show IsASCII ":" by decide) t
  simp only [parseScheme] at h
  generalize findFirstOf t ":" = name at *
  subst ht
  split at h
  · cases h
  case isFalse hfound =>
    rw [not_or] at hfound
    split at h
    · cases h
    case isFalse hchars =>
      split at h
      · cases h
      case isFalse hhead =>
        cases tail with
        | nil => exact absurd (by rw [List.append_nil]) hfound.2
        | cons b tail =>
          have hb : b = byteOf ':' := List.mem_singleton.mp (stops_cons.mp hstop)
          simp only [Except.ok.injEq, Prod.mk.injEq, List.drop_length_add_append,
            List.drop_succ_cons, List.drop_zero] at h
          obtain ⟨rfl, rfl⟩ := h
          refine ⟨by rw [hb], hfound.1, (free_singleton ':' rfl).mp hfree, ?_, ?_⟩
          · intro b hb
            simpa [Option.mem_def.mp hb] using hhead
          · intro b hb
            apply (contains_kSchemeChars b).mp
            simp only [List.any_eq_true, Bool.not_eq_true', not_exists, not_and,
              Bool.not_eq_false] at hchars
            exact hchars b hb

theorem parseAuthority_text {a : Option Bytes} {rest : Bytes}
    (hsome : a.isSome ↔ bytesOf ['/', '/'] <+: authorityText a ++ rest) (hfree : ∀ x ∈ a, Free "/?#" x)
    (hstop : a.isSome → Stops "/?#" rest) :
    parseAuthority (authorityText a ++ rest) = (percentDecode (a.getD []), rest) := by
  cases a with
  | none =>
    have hstart : ¬startsWith rest "//" = true := by
      rw [startsWith_iff]
      exact fun h => Bool.false_ne_true (hsome.mpr h)
    rw [authorityText, List.nil_append, parseAuthority, if_neg hstart]
    rfl
  | some a =>
    have hstart : startsWith (authorityText (some a) ++ rest) "//" = true :=
      startsWith_iff.mpr (hsome.mp rfl)
    have hdrop : (authorityText (some a) ++ rest).drop 2 = a ++ rest := rfl
    have hcut := findFirstOf_append (show IsASCII "/?#" by decide) (hfree a rfl) (hstop rfl)
    simp only [parseAuthority, if_pos hstart, hdrop, hcut, List.drop_left, Option.getD_some]

theorem parsePath_append {p rest : Bytes} (hfree : Free "?#" p) (hstop : Stops "?#" rest) :
    parsePath (p ++ rest) = (percentDecode p, rest) := by
  rw [parsePath]
  split
  case isTrue hempty =>
    obtain ⟨rfl, rfl⟩ := List.append_eq_nil_iff.mp hempty
    rfl
  case isFalse =>
    simp only [findFirstOf_append (show IsASCII "?#" by decide) hfree hstop, List.drop_left]

theorem isQueryOrFragmentString_iff {str : Bytes} :
    isQueryOrFragmentString str = true ↔ IsFragment str := by
  simp [isQueryOrFragmentString, IsFragment]

/-! ### The loop over the query -/

theorem queryPieces_nil : queryPieces [] = [] := rfl

theorem queryPieces_singleton {piece : Bytes} (hne : piece ≠ []) (hfree : byteOf '&' ∉ piece) :
    queryPieces piece = [piece] := by
  rw [queryPieces, List.splitOn_eq_singleton hfree]
  simp [hne]

theorem queryPieces_cons {piece : Bytes} (hfree : byteOf '&' ∉ piece) (q : Bytes) :
    queryPieces (piece ++ byteOf '&' :: q) = piece :: queryPieces q := by
  have hne := List.splitOn_ne_nil (byteOf '&') q
  rw [queryPieces, queryPieces, List.splitOn_append_cons_self_of_not_mem hfree,
    List.getLast?_cons_of_ne_nil hne, List.dropLast_cons_of_ne_nil hne]
  split <;> rfl

theorem queryOf_append {key : Bytes} (hfree : byteOf '=' ∉ key) (value : Bytes) :
    queryOf (key ++ byteOf '=' :: value) = ⟨percentDecode key, percentDecode value⟩ := by
  have hpos : ∀ b ∈ key, (b != byteOf '=') = true := by
    intro b hb
    exact bne_iff_ne.mpr fun h => hfree (h ▸ hb)
  rw [queryOf, List.takeWhile_append_of_pos hpos, List.dropWhile_append_of_pos hpos,
    List.takeWhile_cons_of_neg (by simp), List.dropWhile_cons_of_neg (by simp), List.append_nil,
    List.drop_one, List.tail_cons]

theorem queryOf_of_notMem {piece : Bytes} (hfree : byteOf '=' ∉ piece) :
    queryOf piece = ⟨percentDecode piece, []⟩ := by
  have hpos : ∀ b ∈ piece, (b != byteOf '=') = true := by
    intro b hb
    exact bne_iff_ne.mpr fun h => hfree (h ▸ hb)
  rw [queryOf, List.takeWhile_eq_self_iff.mpr hpos, List.dropWhile_eq_nil_iff.mpr hpos]
  rfl

/-- The key and the value that a round of the loop takes from its piece. -/
theorem query_eq_queryOf (piece : Bytes) :
    (⟨percentDecode (findFirstOf piece "="),
      percentDecode
        (if startsWith (piece.drop (findFirstOf piece "=").length) "=" then
          (piece.drop (findFirstOf piece "=").length).drop 1
        else piece.drop (findFirstOf piece "=").length)⟩ : Query) = queryOf piece := by
  obtain ⟨rest, hpiece, hfree, hstop⟩ := findFirstOf_cut (show IsASCII "=" by decide) piece
  generalize findFirstOf piece "=" = key at *
  subst hpiece
  rw [free_singleton '=' rfl] at hfree
  rw [List.drop_left]
  cases rest with
  | nil =>
    rw [List.append_nil, queryOf_of_notMem hfree]
    rfl
  | cons b rest =>
    have hb : b = byteOf '=' := List.mem_singleton.mp (stops_cons.mp hstop)
    have hstart : startsWith (b :: rest) "=" = true := (startsWith_singleton '=' rfl).mpr (congrArg some hb)
    rw [if_pos hstart, hb, queryOf_append hfree]
    rfl

/-- A round for each piece. -/
theorem queryPairs_eq (n : Nat) (q : Bytes) (hn : q.length ≤ n) :
    queryPairs n q = (queryPieces q).map queryOf := by
  induction n generalizing q with
  | zero =>
    rw [List.length_eq_zero_iff.mp (Nat.le_zero.mp hn)]
    rfl
  | succ n ih =>
    by_cases hq : q = []
    · subst hq
      rfl
    obtain ⟨rest, hcut, hfree, hstop⟩ := findFirstOf_cut (show IsASCII "&" by decide) q
    simp only [queryPairs, if_neg hq, query_eq_queryOf]
    generalize findFirstOf q "&" = piece at *
    subst hcut
    rw [free_singleton '&' rfl] at hfree
    rw [List.drop_left]
    cases rest with
    | nil =>
      rw [List.append_nil] at hq ⊢
      rw [queryPieces_singleton hq hfree, if_neg (by decide), ih [] (Nat.zero_le n)]
      rfl
    | cons b rest =>
      have hb : b = byteOf '&' := List.mem_singleton.mp (stops_cons.mp hstop)
      have hstart : startsWith (b :: rest) "&" = true :=
        (startsWith_singleton '&' rfl).mpr (congrArg some hb)
      have hlength : rest.length ≤ n := by
        simp only [List.length_append, List.length_cons] at hn
        omega
      rw [if_pos hstart, hb, queryPieces_cons hfree, List.drop_one, List.tail_cons, ih rest hlength,
        List.map_cons]

/-! ### The parser on a cut -/

theorem bind_eq_ok {ε α β : Type} {x : Except ε α} {f : α → Except ε β} {b : β} :
    x.bind f = .ok b ↔ ∃ a, x = .ok a ∧ f a = .ok b := by
  cases x with
  | error e => simp [Except.bind]
  | ok a => simp [Except.bind]

/-- The cuts of the parser. -/
structure Parts.Cut (d : Parts) : Prop where
  authority_isSome : d.authority.isSome ↔ bytesOf ['/', '/'] <+: d.rest
  authority : ∀ a ∈ d.authority, Free "/?#" a
  path : Free "?#" d.path
  delimited : d.PathDelimited
  query : ∀ q ∈ d.query, Free "#" q

theorem stops_fragmentText (f : Option Bytes) : Stops "#" (fragmentText f) := by
  cases f with
  | none => exact stops_nil
  | some f => exact stops_cons.mpr (by decide)

theorem stops_queryText (q f : Option Bytes) : Stops "?#" (queryText q ++ fragmentText f) := by
  cases q with
  | none =>
    cases f with
    | none => exact stops_nil
    | some f => exact stops_cons.mpr (by decide)
  | some q => exact stops_cons.mpr (by decide)

theorem parseQuery_text (t : Bytes) {q : Option Bytes} (f : Option Bytes)
    (hfree : ∀ x ∈ q, Free "#" x) (pairs : List Query) (rest : Bytes) :
    parseQuery t (queryText q ++ fragmentText f) = .ok (pairs, rest) ↔
      (∀ x ∈ q, IsQuery x) ∧ (queryPieces (q.getD [])).map queryOf = pairs ∧ fragmentText f = rest := by
  cases q with
  | none =>
    have hstart : ¬startsWith (fragmentText f) "?" = true := by
      rw [startsWith_singleton '?' rfl]
      cases f <;> simp [fragmentText, byteOf]
    rw [queryText, List.nil_append, parseQuery, if_neg hstart]
    simp [queryPieces_nil]
  | some q =>
    have hstart : startsWith (queryText (some q) ++ fragmentText f) "?" = true :=
      (startsWith_singleton '?' rfl).mpr rfl
    have hdrop : (queryText (some q) ++ fragmentText f).drop 1 = q ++ fragmentText f := rfl
    have hcut := findFirstOf_append (show IsASCII "#" by decide) (hfree q rfl) (stops_fragmentText f)
    simp only [parseQuery, if_pos hstart, hdrop, hcut, List.drop_left, Option.mem_some_iff,
      forall_eq', Option.getD_some]
    split
    case isTrue hempty =>
      constructor
      · intro h
        cases h
      · intro h
        exact absurd hempty h.1.ne_nil
    case isFalse hne =>
      split
      case isTrue hchars =>
        constructor
        · intro h
          cases h
        · intro h
          rw [isQueryOrFragmentString_iff.mpr h.1.chars] at hchars
          cases hchars
      case isFalse hchars =>
        have hchars : IsFragment q := isQueryOrFragmentString_iff.mp (by simpa using hchars)
        have hquery : IsQuery q := ⟨hne, hfree q rfl, hchars⟩
        rw [queryPairs_eq q.length q (Nat.le_refl _)]
        simp [hquery]

theorem parseFragment_text (t : Bytes) (f : Option Bytes) (fragment : Bytes) :
    parseFragment t (fragmentText f) = .ok fragment ↔
      (∀ x ∈ f, IsFragment x) ∧ percentDecode (f.getD []) = fragment := by
  cases f with
  | none => simp [parseFragment, fragmentText, startsWith, percentDecode, bytesOf]
  | some f =>
    have hstart : startsWith (fragmentText (some f)) "#" = true := (startsWith_singleton '#' rfl).mpr rfl
    have hdrop : (fragmentText (some f)).drop 1 = f := rfl
    simp only [parseFragment, if_pos hstart, hdrop, Option.mem_some_iff, forall_eq', Option.getD_some,
      ← isQueryOrFragmentString_iff]
    cases isQueryOrFragmentString f <;> simp

theorem stops_path {p tail : Bytes} (hp : Stops "/" p) (htail : Stops "?#" tail) :
    Stops "/?#" (p ++ tail) := by
  have hslash : bytesOf "/".toList ⊆ bytesOf "/?#".toList := by decide
  have hmarks : bytesOf "?#".toList ⊆ bytesOf "/?#".toList := by decide
  cases p with
  | nil => exact fun b hb => hmarks (htail b hb)
  | cons c p => exact stops_cons.mpr (hslash (stops_cons.mp hp))

/-- Where a text is cut as the parser cuts it, the parser accepts it if the query and the fragment
are ones. -/
theorem parse_text_of_cut {d : Parts} (hs : IsScheme d.scheme) (hd : d.Cut) (u : URI) :
    parse d.text = .ok u ↔
      (∀ q ∈ d.query, IsQuery q) ∧ (∀ f ∈ d.fragment, IsFragment f) ∧ d.uri = u := by
  have htail := stops_queryText d.query d.fragment
  have hauthority := parseAuthority_text hd.authority_isSome hd.authority
    fun h => stops_path (hd.delimited h) htail
  have hquery := parseQuery_text d.text d.fragment hd.query
  have hfragment := parseFragment_text d.text d.fragment
  have hparse : parse d.text =
      (parseQuery d.text (queryText d.query ++ fragmentText d.fragment)).bind fun x =>
        (parseFragment d.text x.2).bind fun fragment =>
          .ok ⟨d.scheme, d.uri.authority, d.uri.path, x.1, fragment⟩ := by
    have hscheme : parseScheme d.text = .ok (d.scheme, d.rest) := parseScheme_append hs d.rest
    have hrest : parseAuthority d.rest = (d.uri.authority, _) := hauthority
    simp only [parse, hscheme, bind, Except.bind, hrest, parsePath_append hd.path htail]
    rfl
  rw [hparse]
  constructor
  · intro h
    obtain ⟨⟨pairs, rest⟩, hpairs, h⟩ := bind_eq_ok.mp h
    obtain ⟨hq, rfl, rfl⟩ := (hquery _ _).mp hpairs
    obtain ⟨fragment, hdecoded, h⟩ := bind_eq_ok.mp h
    obtain ⟨hf, rfl⟩ := (hfragment _).mp hdecoded
    exact ⟨hq, hf, Except.ok.inj h⟩
  · rintro ⟨hq, hf, rfl⟩
    exact bind_eq_ok.mpr ⟨(d.uri.queryParameterPairs, fragmentText d.fragment),
      (hquery _ _).mpr ⟨hq, rfl, rfl⟩,
      bind_eq_ok.mpr ⟨d.uri.fragment, (hfragment _).mpr ⟨hf, rfl⟩, rfl⟩⟩

/-! ### The cut of a text -/

theorem fragment_cut {r : Bytes} (hr : Stops "#" r) : ∃ f, r = fragmentText f := by
  cases r with
  | nil => exact ⟨none, rfl⟩
  | cons b r =>
    have hb : b = byteOf '#' := List.mem_singleton.mp (stops_cons.mp hr)
    exact ⟨some r, by rw [hb]; rfl⟩

theorem tail_cut {r : Bytes} (hr : Stops "?#" r) :
    ∃ q f, r = queryText q ++ fragmentText f ∧ ∀ x ∈ q, Free "#" x := by
  cases r with
  | nil => exact ⟨none, none, rfl, nofun⟩
  | cons b r =>
    have hb : b = byteOf '?' ∨ b = byteOf '#' := by simpa [bytesOf] using stops_cons.mp hr
    rcases hb with rfl | rfl
    · obtain ⟨rest, hcut, hfree, hstop⟩ := findFirstOf_cut (show IsASCII "#" by decide) r
      generalize findFirstOf r "#" = q at *
      obtain ⟨f, rfl⟩ := fragment_cut hstop
      refine ⟨some q, f, by rw [hcut]; rfl, ?_⟩
      rintro _ ⟨⟩
      exact hfree
    · exact ⟨none, some r, rfl, nofun⟩

/-- What remains behind the authority. -/
theorem path_cut (r : Bytes) :
    ∃ p q f, r = p ++ (queryText q ++ fragmentText f) ∧ Free "?#" p ∧ ∀ x ∈ q, Free "#" x := by
  obtain ⟨tail, hcut, hfree, hstop⟩ := findFirstOf_cut (show IsASCII "?#" by decide) r
  obtain ⟨q, f, rfl, hq⟩ := tail_cut hstop
  exact ⟨_, q, f, hcut, hfree, hq⟩

/-- Every text behind a scheme has a cut. -/
theorem exists_cut (scheme r : Bytes) : ∃ d : Parts, d.scheme = scheme ∧ d.rest = r ∧ d.Cut := by
  by_cases hslashes : bytesOf ['/', '/'] <+: r
  · obtain ⟨r, rfl⟩ := hslashes
    obtain ⟨rest, hcut, hfree, hstop⟩ := findFirstOf_cut (show IsASCII "/?#" by decide) r
    generalize findFirstOf r "/?#" = a at *
    obtain ⟨p, q, f, rfl, hp, hq⟩ := path_cut rest
    have hrest : (Parts.mk scheme (some a) p q f).rest = bytesOf ['/', '/'] ++ r := by
      rw [hcut]
      rfl
    refine ⟨⟨scheme, some a, p, q, f⟩, rfl, hrest, ?_, ?_, hp, ?_, hq⟩
    · rw [hrest]
      exact iff_of_true rfl (List.prefix_append _ _)
    · rintro _ ⟨⟩
      exact hfree
    -- the path starts where the authority stopped, and not at a mark
    · intro _ b hb
      have hmem : b ∈ bytesOf "/?#".toList := hstop b (by simp [Option.mem_def.mp hb])
      have hmark := hp b (List.mem_of_mem_head? hb)
      simp only [bytesOf] at hmem hmark ⊢
      grind
  · obtain ⟨p, q, f, rfl, hp, hq⟩ := path_cut r
    refine ⟨⟨scheme, none, p, q, f⟩, rfl, rfl, ?_, nofun, hp, nofun, hq⟩
    exact iff_of_false nofun hslashes

theorem fragmentText_injective : Function.Injective fragmentText := by
  intro f f' h
  cases f <;> cases f' <;> simp_all [fragmentText]

theorem tail_unique {q q' f f' : Option Bytes} (hq : ∀ x ∈ q, Free "#" x) (hq' : ∀ x ∈ q', Free "#" x)
    (h : queryText q ++ fragmentText f = queryText q' ++ fragmentText f') : q = q' ∧ f = f' := by
  have hmark : ∀ (f : Option Bytes) (x : Bytes), fragmentText f ≠ byteOf '?' :: x := by
    intro f x
    cases f <;> simp [fragmentText, byteOf]
  cases q with
  | none =>
    cases q' with
    | none => exact ⟨rfl, fragmentText_injective h⟩
    | some q' => exact absurd h (hmark f _)
  | some q =>
    cases q' with
    | none => exact absurd h.symm (hmark f' _)
    | some q' =>
      obtain ⟨rfl, hf⟩ := cut_unique (by decide) (hq q rfl) (hq' q' rfl) (stops_fragmentText f)
        (stops_fragmentText f') (List.cons.inj h).2
      exact ⟨rfl, fragmentText_injective hf⟩

namespace Parts

/-- The query and the fragment with their marks. -/
def tail (d : Parts) : Bytes := queryText d.query ++ fragmentText d.fragment

theorem stops_tail (d : Parts) : Stops "?#" d.tail := stops_queryText d.query d.fragment

/-- Without the slashes of the authority, which both texts have or both have not. -/
theorem behind_eq {d d' : Parts} (hsome : d.authority.isSome = d'.authority.isSome)
    (hrest : d.rest = d'.rest) :
    d.authority.getD [] ++ (d.path ++ d.tail) = d'.authority.getD [] ++ (d'.path ++ d'.tail) := by
  rw [rest, rest] at hrest
  rcases hd : d.authority with _ | a <;> rcases hd' : d'.authority with _ | a' <;>
    simp only [hd, hd', authorityText, Option.isSome_none, Option.isSome_some, reduceCtorEq] at hsome hrest
  · exact hrest
  · exact (List.cons.inj (List.cons.inj hrest).2).2

theorem Cut.unique {d d' : Parts} (hd : d.Cut) (hd' : d'.Cut) (hscheme : d.scheme = d'.scheme)
    (hrest : d.rest = d'.rest) : d = d' := by
  have hsome : d.authority.isSome = d'.authority.isSome := by
    rw [Bool.eq_iff_iff, hd.authority_isSome, hd'.authority_isSome, hrest]
  have hbehind := behind_eq hsome hrest
  have hauthority : d.authority = d'.authority ∧ d.path ++ d.tail = d'.path ++ d'.tail := by
    have hstop := fun h => stops_path (hd.delimited h) d.stops_tail
    have hstop' := fun h => stops_path (hd'.delimited h) d'.stops_tail
    have hfree := hd.authority
    have hfree' := hd'.authority
    rcases ha : d.authority with _ | a <;> rcases ha' : d'.authority with _ | a' <;>
      simp only [ha, ha', Option.isSome_none, Option.isSome_some, reduceCtorEq, Option.getD_none,
        Option.getD_some, List.nil_append] at hsome hbehind hstop hstop' hfree hfree'
    · exact ⟨rfl, hbehind⟩
    · obtain ⟨rfl, h⟩ := cut_unique (by decide) (hfree a rfl) (hfree' a' rfl) (hstop trivial)
        (hstop' trivial)
        hbehind
      exact ⟨rfl, h⟩
  obtain ⟨hpath, htail⟩ := cut_unique (by decide) hd.path hd'.path d.stops_tail d'.stops_tail
    hauthority.2
  obtain ⟨hquery, hfragment⟩ := tail_unique hd.query hd'.query htail
  cases d
  cases d'
  simp only [Parts.mk.injEq]
  exact ⟨hscheme, hauthority.1, hpath, hquery, hfragment⟩

/-- What stands before the query and the fragment has none of their marks. -/
theorem free_front {a : Option Bytes} {p : Bytes} (ha : ∀ x ∈ a, Free "/?#" x) (hp : Free "?#" p) :
    Free "?#" (authorityText a ++ p) := by
  have hmarks : bytesOf "?#".toList ⊆ bytesOf "/?#".toList := by decide
  have hslashes : Free "?#" (bytesOf ['/', '/']) := by decide
  intro b hb
  rcases List.mem_append.mp hb with hb | hb
  · cases a with
    | none => cases hb
    | some a =>
      have hsplit : b ∈ bytesOf ['/', '/'] ++ a := hb
      rcases List.mem_append.mp hsplit with hb | hb
      · exact hslashes b hb
      · exact fun h => ha a rfl b hb (hmarks h)
  · exact hp b hb

/-- The query and the fragment of a cut start at the first marks. -/
theorem Cut.marks_eq {d : Parts} (hd : d.Cut) {front : Bytes} {q f : Option Bytes}
    (hfront : Free "?#" front) (hq : ∀ x ∈ q, Free "#" x)
    (hrest : front ++ (queryText q ++ fragmentText f) = d.rest) : q = d.query ∧ f = d.fragment := by
  have hsplit : d.rest = (authorityText d.authority ++ d.path) ++ d.tail := by
    rw [List.append_assoc]
    rfl
  obtain ⟨-, htail⟩ := cut_unique (by decide) hfront (free_front hd.authority hd.path)
    (stops_queryText q f) d.stops_tail (hrest.trans hsplit)
  exact tail_unique hq hd.query htail

/-- Wherever the authority ends, the query and the fragment are those of the cut. -/
theorem WellFormed.tail_eq {d d' : Parts} (hd : d.WellFormed) (hd' : d'.Cut) (hrest : d.rest = d'.rest) :
    d.query = d'.query ∧ d.fragment = d'.fragment := by
  rw [rest, ← List.append_assoc] at hrest
  exact hd'.marks_eq (free_front hd.authority hd.path) (fun x hx => (hd.query x hx).free) hrest

theorem WellFormed.cut {d : Parts} (hd : d.WellFormed) (hdelimited : d.PathDelimited) : d.Cut :=
  ⟨hd.authority_isSome, hd.authority, hd.path, hdelimited, fun x hx => (hd.query x hx).free⟩

end Parts

/-! ### The parser and the grammar -/

theorem parse_text {d : Parts} (hd : d.WellFormed) (hdelimited : d.PathDelimited) :
    parse d.text = .ok d.uri :=
  (parse_text_of_cut hd.scheme (hd.cut hdelimited) d.uri).mpr ⟨hd.query, hd.fragment, rfl⟩

theorem exists_of_parse {t : Bytes} {u : URI} (h : parse t = .ok u) :
    ∃ d, Decomposes t d ∧ d.PathDelimited ∧ d.uri = u := by
  obtain ⟨⟨scheme, rest⟩, hscheme, -⟩ := bind_eq_ok.mp h
  obtain ⟨ht, hs⟩ := of_parseScheme hscheme
  obtain ⟨d, rfl, rfl, hd⟩ := exists_cut scheme rest
  have htext : t = d.text := ht
  rw [htext] at h
  obtain ⟨hquery, hfragment, huri⟩ := (parse_text_of_cut hs hd u).mp h
  exact ⟨d, ⟨htext, hs, hd.authority_isSome, hd.authority, hd.path, hquery, hfragment⟩, hd.delimited,
    huri⟩

/-- A decomposition can be moved to one whose authority goes on to the next slash. -/
theorem Decomposes.exists_delimited {t : Bytes} {d : Parts} (h : Decomposes t d) :
    ∃ d', Decomposes t d' ∧ d'.PathDelimited := by
  obtain ⟨rfl, hd⟩ := h
  obtain ⟨d', hscheme, hrest, hd'⟩ := exists_cut d.scheme d.rest
  obtain ⟨hquery, hfragment⟩ := hd.tail_eq hd' hrest.symm
  refine ⟨d', ⟨?_, ?_, hd'.authority_isSome, hd'.authority, hd'.path, ?_, ?_⟩, hd'.delimited⟩
  · rw [Parts.text, Parts.text, hscheme, hrest]
  · rw [hscheme]
    exact hd.scheme
  · rw [← hquery]
    exact hd.query
  · rw [← hfragment]
    exact hd.fragment

/-- The scheme ends at the first colon. -/
theorem Parts.text_inj {d d' : Parts} (hd : IsScheme d.scheme) (hd' : IsScheme d'.scheme)
    (h : d.text = d'.text) : d.scheme = d'.scheme ∧ d.rest = d'.rest := by
  have hcolon : ∀ rest, Stops ":" (byteOf ':' :: rest) := fun _ => stops_cons.mpr (by decide)
  obtain ⟨hscheme, hrest⟩ := cut_unique (by decide) ((free_singleton ':' rfl).mpr hd.free)
    ((free_singleton ':' rfl).mpr hd'.free) (hcolon _) (hcolon _) h
  exact ⟨hscheme, (List.cons.inj hrest).2⟩

theorem Decomposes.unique {t : Bytes} {d d' : Parts} (h : Decomposes t d) (h' : Decomposes t d')
    (hdelimited : d.PathDelimited) (hdelimited' : d'.PathDelimited) : d = d' := by
  obtain ⟨rfl, hd⟩ := h
  obtain ⟨htext, hd'⟩ := h'
  obtain ⟨hscheme, hrest⟩ := Parts.text_inj hd.scheme hd'.scheme htext
  exact (hd.cut hdelimited).unique (hd'.cut hdelimited') hscheme hrest

end URI

end Iomgr
