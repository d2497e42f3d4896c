import Iomgr.URIRoundTrip

/-!
`URI::Create` takes the components one by one and looks at two of them only. Which of the URIs that it
makes have a text that is read, and which are read back as they are.
-/

namespace Iomgr.URI

/-- `URI::Create`, with the message of its status. -/
def create (scheme authority path : Bytes) (queryParameterPairs : List Query) (fragment : Bytes) :
    Except Bytes URI :=
  if authority ≠ [] ∧ path ≠ [] ∧ path.head? ≠ some (byteOf '/') then
    .error (bytesOf "if authority is present, path must start with a '/'".toList)
  else .ok ⟨scheme, authority, path, queryParameterPairs, fragment⟩

variable {u : URI}

/-- What `Create` refuses is a path that would go on where the authority ends. -/
theorem create_eq_ok {scheme authority path : Bytes} {pairs : List Query} {fragment : Bytes} :
    create scheme authority path pairs fragment = .ok u ↔
      u = ⟨scheme, authority, path, pairs, fragment⟩ ∧ (authority ≠ [] → Stops "/" path) := by
  have hstops : (authority ≠ [] → Stops "/" path) ↔
      ¬(authority ≠ [] ∧ path ≠ [] ∧ path.head? ≠ some (byteOf '/')) := by
    have hslash : ∀ b : UInt8, b ∈ bytesOf "/".toList ↔ b = byteOf '/' := fun b => List.mem_singleton
    cases path with
    | nil => simp [stops_nil]
    | cons b path =>
        rw [stops_cons, hslash]
        simp
  rw [create, hstops]
  split
  case isTrue h => exact iff_of_false (fun heq => by cases heq) fun hand => hand.2 h
  case isFalse h => exact ⟨fun heq => ⟨(Except.ok.inj heq).symm, h⟩, fun hand => by rw [hand.1]⟩

/-- What is appended stands behind the colon. -/
theorem append_behind_colon (condition : Prop) [Decidable condition] (front rest text : Bytes) :
    ∃ rest', (if condition then front ++ byteOf ':' :: rest ++ text else front ++ byteOf ':' :: rest) =
      front ++ byteOf ':' :: rest' := by
  split
  · exact ⟨rest ++ text, by rw [List.append_assoc, List.cons_append]⟩
  · exact ⟨rest, rfl⟩

/-- What is taken off too. -/
theorem popAmpersand_behind_colon (front rest : Bytes) :
    ∃ rest', popAmpersand (front ++ byteOf ':' :: rest) = front ++ byteOf ':' :: rest' := by
  rw [popAmpersand_append front (List.cons_ne_nil _ _)]
  by_cases hrest : rest = []
  · refine ⟨[], ?_⟩
    rw [hrest, popAmpersand_of_ne (by decide)]
  · exact ⟨popAmpersand rest, congrArg (front ++ ·) (popAmpersand_append [byteOf ':'] hrest)⟩

/-- The text starts with the scheme, encoded, and a colon, whatever the scheme is. -/
theorem toString_eq_scheme_append (u : URI) :
    ∃ rest, u.toString = percentEncode u.scheme kURISchemeUnreseredChars ++ byteOf ':' :: rest := by
  rw [toString]
  generalize percentEncode u.scheme kURISchemeUnreseredChars = front
  obtain ⟨authority, hauthority⟩ := append_behind_colon (u.authority ≠ []) front []
    (bytesOf ['/', '/'] ++ percentEncode u.authority kURIAuthUnreservedChars)
  obtain ⟨path, hpath⟩ := append_behind_colon (u.path ≠ []) front authority
    (percentEncode u.path kURIPathUnreservedChars)
  obtain ⟨query, hquery⟩ := append_behind_colon (u.queryParameterPairs ≠ []) front path
    ([byteOf '?'] ++ u.queryParameterPairs.flatMap fun query =>
      percentEncode query.key kURIQueryKVUnreseredChars ++ [byteOf '='] ++
        percentEncode query.value kURIQueryKVUnreseredChars ++ [byteOf '&'])
  obtain ⟨popped, hpopped⟩ := popAmpersand_behind_colon front query
  obtain ⟨rest, hrest⟩ := append_behind_colon (u.fragment ≠ []) front popped
    ([byteOf '#'] ++ percentEncode u.fragment kURIFragmentUnreseredChars)
  refine ⟨rest, ?_⟩
  simp only [← List.append_assoc] at hauthority hpath hquery hrest
  rw [hauthority, hpath, hquery, hpopped, hrest]

/-- A text whose scheme is none is not read: what is written for the scheme keeps what is wrong with
it, or has a percent sign. -/
theorem isScheme_of_parse_toString {w : URI} (h : parse u.toString = .ok w) : IsScheme u.scheme := by
  obtain ⟨rest, htext⟩ := u.toString_eq_scheme_append
  obtain ⟨d, ⟨hd, hwell⟩, -, -⟩ := exists_of_parse h
  have hcolon : byteOf ':' ∉ percentEncode u.scheme kURISchemeUnreseredChars :=
    notMem_percentEncode u.scheme (by rw [kURISchemeUnreseredChars_eq]; decide) (by decide)
      (by decide)
  have hstops : ∀ rest, Stops ":" (byteOf ':' :: rest) := fun _ => stops_cons.mpr (by decide)
  obtain ⟨hread, -⟩ := cut_unique (by decide) ((free_singleton ':' rfl).mpr hcolon)
    ((free_singleton ':' rfl).mpr hwell.scheme.free) (hstops _) (hstops _) (htext.symm.trans hd)
  have hscheme : IsScheme (percentEncode u.scheme kURISchemeUnreseredChars) := hread ▸ hwell.scheme
  have hunreserved : ∀ b ∈ u.scheme, kURISchemeUnreseredChars.test b = true := by
    intro b hb
    by_contra htest
    have hpercent : byteOf '%' ∈ percentEncode u.scheme kURISchemeUnreseredChars := by
      rw [percentEncode_eq_flatMap]
      refine List.mem_flatMap.mpr ⟨b, hb, ?_⟩
      rw [escape, if_neg htest]
      exact List.mem_cons_self
    rcases hscheme.chars _ hpercent with h | h | h <;> exact absurd h (by decide)
  rwa [percentEncode_of_unreserved hunreserved] at hscheme

/-- A URI with a scheme is read, and its query and its fragment come back whatever they are. -/
theorem parse_toString_tail (hscheme : IsScheme u.scheme) :
    ∃ w, parse u.toString = .ok w ∧ w.scheme = u.scheme ∧
      w.queryParameterPairs = u.queryParameterPairs ∧ w.fragment = u.fragment := by
  have hfront : Free "?#" (authorityText u.written.authority ++ u.written.path) :=
    Parts.free_front u.free_authority_written (free_path _)
  obtain ⟨d, hdscheme, hrest, hd⟩ := exists_cut u.scheme u.written.rest
  have hmarks : authorityText u.written.authority ++ u.written.path ++
      (queryText u.written.query ++ fragmentText u.written.fragment) = d.rest := by
    rw [hrest, Parts.rest, List.append_assoc]
  obtain ⟨hquery, hfragment⟩ := hd.marks_eq hfront (fun x hx => (u.isQuery_written x hx).free) hmarks
  refine ⟨d.uri, ?_, hdscheme, ?_, ?_⟩
  · have htext : u.toString = d.text := by
      rw [toString_eq_text hscheme, Parts.text, Parts.text, hdscheme, hrest]
      rfl
    rw [htext]
    refine (parse_text_of_cut (hdscheme ▸ hscheme) hd d.uri).mpr ⟨?_, ?_, rfl⟩
    · rw [← hquery]
      exact u.isQuery_written
    · rw [← hfragment]
      exact u.isFragment_written
  · rw [← u.pairs_written, hquery]
    rfl
  · calc d.uri.fragment = percentDecode (d.fragment.getD []) := rfl
      _ = u.written.uri.fragment := by rw [← hfragment]; rfl
      _ = u.fragment := by rw [uri_written, u.popped_others.2.2]

/-- What the parser returns `Create` would have made of its components. -/
theorem create_of_parse {t : Bytes} (h : parse t = .ok u) :
    create u.scheme u.authority u.path u.queryParameterPairs u.fragment = .ok u := by
  obtain ⟨d, -, hdelimited, rfl⟩ := exists_of_parse h
  exact create_eq_ok.mpr ⟨rfl, Parts.stops_uri_path hdelimited⟩

end Iomgr.URI
