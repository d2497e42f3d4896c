import Iomgr.HTTPFirstLine

/-!
The grammar of a first line against what the scanner takes. The scanner skips a byte that is not the
one it expects when the next one is, takes any two bytes for the digits of a version whose number
comes out right, takes any byte for the dot, and does not look behind the version of a request.
-/

namespace Iomgr

/-! ### What the scanner takes -/

/-- The characters one after the other, each with at most one other byte before it. -/
inductive Spells : List Char → Bytes → Bytes → Prop
  | done {rest : Bytes} : Spells [] rest rest
  | next {c : Char} {cs : List Char} {text rest : Bytes} (h : Spells cs text rest) :
      Spells (c :: cs) (byteOf c :: text) rest
  | skip {c : Char} {cs : List Char} {text rest : Bytes} {b : UInt8} (hb : b ≠ byteOf c)
      (h : Spells cs text rest) : Spells (c :: cs) (b :: byteOf c :: text) rest

theorem expect_eq_some_iff {text rest : Bytes} {c : Char} : expect text c = some rest ↔
    text = byteOf c :: rest ∨ ∃ b, b ≠ byteOf c ∧ text = b :: byteOf c :: rest := by
  match text with
  | [] => simp [expect]
  | [a] =>
      by_cases ha : a = byteOf c
      · simp [expect, ha, eq_comm]
      · simp [expect, ha]
  | a :: b :: left =>
      by_cases ha : a = byteOf c
      · simp [expect, ha, eq_comm]
      · by_cases hb : b = byteOf c
        · simp [expect, ha, hb]
        · simp [expect, ha, hb]

theorem foldlM_expect_eq_some_iff {cs : List Char} {text rest : Bytes} :
    cs.foldlM expect text = some rest ↔ Spells cs text rest := by
  constructor
  · intro hfold
    induction cs generalizing text with
    | nil =>
        cases hfold
        exact Spells.done
    | cons c cs ih =>
        rw [List.foldlM_cons] at hfold
        obtain ⟨left, hexpect, hleft⟩ := Option.bind_eq_some_iff.mp hfold
        rcases expect_eq_some_iff.mp hexpect with rfl | ⟨b, hb, rfl⟩
        · exact Spells.next (ih hleft)
        · exact Spells.skip hb (ih hleft)
  · intro hspells
    induction hspells with
    | done => rfl
    | next h ih =>
        rw [List.foldlM_cons, expect_eq_some_iff.mpr (Or.inl rfl)]
        exact ih
    | skip hb h ih =>
        rw [List.foldlM_cons, expect_eq_some_iff.mpr (Or.inr ⟨_, hb, rfl⟩)]
        exact ih

/-- The text starts with `HTTP/`, as the scanner spells it, and two bytes with a third one between
them that make the number of a version; the second one, and what is left, may lie behind the
line. -/
def ScansVersion (behind text : Bytes) (version : HTTPVersion) (rest : Bytes) : Prop :=
  ∃ major minor left, Spells ['H', 'T', 'T', 'P', '/'] text left ∧
    ((∃ dot, left = major :: dot :: minor :: rest) ∨ (left = [major] ∧ behind = minor :: rest)) ∧
    versionOf major minor = some version

theorem readVersion_eq_some_iff {behind text rest : Bytes} {version : HTTPVersion} :
    readVersion behind text = some (version, rest) ↔
      ∃ major minor, ((∃ dot, text = major :: dot :: minor :: rest) ∨
        (text = [major] ∧ behind = minor :: rest)) ∧ versionOf major minor = some version := by
  match text with
  | [] => simp [readVersion]
  | [a] =>
      cases behind with
      | nil => simp [readVersion]
      | cons b left =>
          simp only [readVersion, Option.map_eq_some_iff, Prod.mk.injEq]
          constructor
          · rintro ⟨v, hv, rfl, rfl⟩
            exact ⟨a, b, Or.inr ⟨rfl, rfl⟩, hv⟩
          · rintro ⟨major, minor, ⟨dot, hdot⟩ | ⟨ha, hb⟩, hv⟩
            · cases hdot
            · cases ha
              cases hb
              exact ⟨version, hv, rfl, rfl⟩
  | [a, b] => simp [readVersion]
  | a :: b :: c :: left =>
      simp only [readVersion, Option.map_eq_some_iff, Prod.mk.injEq]
      constructor
      · rintro ⟨v, hv, rfl, rfl⟩
        exact ⟨a, c, Or.inl ⟨b, rfl⟩, hv⟩
      · rintro ⟨major, minor, ⟨dot, hdot⟩ | ⟨ha, _⟩, hv⟩
        · cases hdot
          exact ⟨version, hv, rfl, rfl⟩
        · cases ha

theorem scansVersion_iff {behind text rest : Bytes} {version : HTTPVersion} :
    (expectProtocol text).bind (readVersion behind) = some (version, rest) ↔
      ScansVersion behind text version rest := by
  rw [Option.bind_eq_some_iff]
  constructor
  · rintro ⟨left, hexpect, hread⟩
    obtain ⟨major, minor, hleft, hversion⟩ := readVersion_eq_some_iff.mp hread
    exact ⟨major, minor, left, foldlM_expect_eq_some_iff.mp hexpect, hleft, hversion⟩
  · rintro ⟨major, minor, left, hspells, hleft, hversion⟩
    exact ⟨left, foldlM_expect_eq_some_iff.mpr hspells,
      readVersion_eq_some_iff.mpr ⟨major, minor, hleft, hversion⟩⟩

theorem kMethodMap_eq_some_iff {name : Bytes} {method : HTTPMethod} :
    kMethodMap name = some method ↔ methodName method = some name := by
  constructor
  · intro hmap
    unfold kMethodMap at hmap
    split_ifs at hmap with hget hpost hput hdelete
    · cases hmap
      exact congrArg some hget.symm
    · cases hmap
      exact congrArg some hpost.symm
    · cases hmap
      exact congrArg some hput.symm
    · cases hmap
      exact congrArg some hdelete.symm
  · intro hname
    cases method with
    | kUnknow => cases hname
    | kGet =>
        cases hname
        decide
    | kPost =>
        cases hname
        decide
    | kPut =>
        cases hname
        decide
    | kDelete =>
        cases hname
        decide

theorem SP_notMem_methodName {method : HTTPMethod} {name : Bytes}
    (h : methodName method = some name) : SP ∉ name := by
  cases method with
  | kUnknow => cases h
  | kGet =>
      cases h
      decide
  | kPost =>
      cases h
      decide
  | kPut =>
      cases h
      decide
  | kDelete =>
      cases h
      decide

/-- The name of a version is read as that version, whatever follows it. -/
theorem readVersion_versionName {version : HTTPVersion} {name : Bytes}
    (h : versionName version = some name) (behind rest : Bytes) :
    (expectProtocol (name ++ rest)).bind (readVersion behind) = some (version, rest) := by
  cases version with
  | kUnknow => cases h
  | kHTTP10 =>
      cases h
      rfl
  | kHTTP11 =>
      cases h
      rfl
  | kHTTP20 =>
      cases h
      rfl

/-! ### The grammar -/

/-- `M SP U SP V`. -/
def DenotesRequest (text : Bytes) (method : HTTPMethod) (uri : Bytes) (version : HTTPVersion) :
    Prop :=
  ∃ m v, methodName method = some m ∧ versionName version = some v ∧ SP ∉ uri ∧
    text = m ++ SP :: (uri ++ SP :: v)

/-- `V SP d1d2d3 SP reason`. -/
def DenotesResponse (text : Bytes) (version : HTTPVersion) (status : HTTPStatusCode) : Prop :=
  ∃ v d1 d2 d3 reason, versionName version = some v ∧ isStatus d1 d2 d3 = true ∧
    status = statusOf d1 d2 d3 ∧ text = v ++ SP :: d1 :: d2 :: d3 :: SP :: reason

/-- The line of a request with its method and its URI; what is left is the version. -/
theorem HTTPRequest.readFirstLine_split (r : HTTPRequest) {method : HTTPMethod} {m uri : Bytes}
    (hm : methodName method = some m) (huri : SP ∉ uri) (behind w : Bytes) :
    r.readFirstLine behind (m ++ SP :: (uri ++ SP :: w)) =
      match (expectProtocol w).bind (readVersion behind) with
      | none => (false, { r with method := method, uri := uri })
      | some (version, _) => (true, { r with method := method, uri := uri, version := version }) := by
  rw [HTTPRequest.readFirstLine, splitSpace_append (SP_notMem_methodName hm)]
  dsimp only
  rewrite [kMethodMap_eq_some_iff.mpr hm, splitSpace_append huri]
  rfl

theorem HTTPRequest.readFirstLine_of_denotes (r : HTTPRequest) {text uri : Bytes}
    {method : HTTPMethod} {version : HTTPVersion} (h : DenotesRequest text method uri version)
    (behind : Bytes) : r.readFirstLine behind text =
      (true, { r with method := method, uri := uri, version := version }) := by
  obtain ⟨m, v, hm, hv, huri, rfl⟩ := h
  have hversion := readVersion_versionName hv behind []
  rw [List.append_nil] at hversion
  rw [r.readFirstLine_split hm huri, hversion]

theorem HTTPResponse.readFirstLine_of_denotes (r : HTTPResponse) {text : Bytes}
    {version : HTTPVersion} {status : HTTPStatusCode} (h : DenotesResponse text version status)
    (behind : Bytes) : r.readFirstLine behind text =
      (true, { r with version := version, statusCode := status }) := by
  obtain ⟨v, d1, d2, d3, reason, hv, hdigits, rfl, rfl⟩ := h
  have hexpect : expect (SP :: d1 :: d2 :: d3 :: SP :: reason) ' ' =
      some (d1 :: d2 :: d3 :: SP :: reason) := rfl
  unfold HTTPResponse.readFirstLine
  rw [readVersion_versionName hv]
  dsimp only
  rw [HTTPResponse.readStatus, hexpect]
  dsimp only
  rw [if_pos hdigits]
  rfl

/-- What the scanner of a request takes for a first line. -/
def ScansRequest (behind text : Bytes) : Prop :=
  ∃ method m uri w version rest, methodName method = some m ∧ SP ∉ uri ∧
    text = m ++ SP :: (uri ++ SP :: w) ∧ ScansVersion behind w version rest

theorem HTTPRequest.readFirstLine_true_iff {r : HTTPRequest} {behind text : Bytes} :
    (r.readFirstLine behind text).1 = true ↔ ScansRequest behind text := by
  constructor
  · intro htrue
    unfold HTTPRequest.readFirstLine at htrue
    split at htrue
    · cases htrue
    · next name rest hname =>
        split at htrue
        · cases htrue
        · next method hmethod =>
            split at htrue
            · cases htrue
            · next uri w huri =>
                split at htrue
                · cases htrue
                · next version left hversion =>
                    obtain ⟨_, rfl⟩ := splitSpace_eq_some_iff.mp hname
                    obtain ⟨hspace, rfl⟩ := splitSpace_eq_some_iff.mp huri
                    exact ⟨method, name, uri, w, version, left, kMethodMap_eq_some_iff.mp hmethod,
                      hspace, rfl, scansVersion_iff.mp hversion⟩
  · rintro ⟨method, m, uri, w, version, rest, hm, huri, rfl, hversion⟩
    rw [r.readFirstLine_split hm huri, scansVersion_iff.mpr hversion]

/-- A space, with at most one other byte before it, a status, and a space. -/
def ScansStatus (rest : Bytes) : Prop :=
  ∃ d1 d2 d3 reason, Spells [' '] rest (d1 :: d2 :: d3 :: SP :: reason) ∧ isStatus d1 d2 d3 = true

/-- What the scanner of a response takes for a first line. -/
def ScansResponse (behind text : Bytes) : Prop :=
  ∃ version rest, ScansVersion behind text version rest ∧ ScansStatus rest

theorem expect_space_iff {rest left : Bytes} :
    expect rest ' ' = some left ↔ Spells [' '] rest left := by
  rw [← foldlM_expect_eq_some_iff, List.foldlM_cons]
  simp

theorem HTTPResponse.readStatus_true_iff {r : HTTPResponse} {rest : Bytes} :
    (r.readStatus rest).1 = true ↔ ScansStatus rest := by
  constructor
  · intro htrue
    unfold HTTPResponse.readStatus at htrue
    split at htrue
    · next d1 d2 d3 left hexpect =>
        split_ifs at htrue with hdigits
        · have hhead := of_decide_eq_true htrue
          obtain ⟨reason, rfl⟩ := List.head?_eq_some_iff.mp hhead
          exact ⟨d1, d2, d3, reason, expect_space_iff.mp hexpect, hdigits⟩
    · cases htrue
  · rintro ⟨d1, d2, d3, reason, hrest, hdigits⟩
    rw [HTTPResponse.readStatus, expect_space_iff.mpr hrest]
    dsimp only
    rw [if_pos hdigits]
    rfl

theorem HTTPResponse.readFirstLine_true_iff {r : HTTPResponse} {behind text : Bytes} :
    (r.readFirstLine behind text).1 = true ↔ ScansResponse behind text := by
  unfold HTTPResponse.readFirstLine
  constructor
  · intro htrue
    split at htrue
    · cases htrue
    · next version rest hversion =>
        exact ⟨version, rest, scansVersion_iff.mp hversion, readStatus_true_iff.mp htrue⟩
  · rintro ⟨version, rest, hversion, hstatus⟩
    rw [scansVersion_iff.mpr hversion]
    exact readStatus_true_iff.mpr hstatus

/-! ### A line in the buffer -/

/-- A line as the buffer holds it when it is complete. -/
structure StoredLine where
  text : Bytes
  ending : LineEnd
  oneLine : LF ∉ text
  bare : ending = .lf → text.getLast? ≠ some CR
  fits : text.length + ending.bytes.length ≤ kMaxHeaderLength

namespace StoredLine

def bytes (line : StoredLine) : Bytes := line.text ++ line.ending.bytes

/-- The buffer with the line at its start, over what it held before. -/
def buffer (line : StoredLine) (mem : Nat → UInt8) : Nat → UInt8 := overlay mem 0 line.bytes

/-- What the buffer held before, behind the line. -/
def behind (line : StoredLine) (mem : Nat → UInt8) : Bytes :=
  behindEnd line.ending mem line.bytes.length

theorem remaining (line : StoredLine) (mem : Nat → UInt8) :
    Remaining (line.buffer mem) line.bytes.length 0 (line.text ++ line.ending.bytes) :=
  Remaining.whole mem line.bytes

theorem behind_eq (line : StoredLine) (mem : Nat → UInt8) :
    behindEnd line.ending (line.buffer mem) line.bytes.length = line.behind mem :=
  behindEnd_overlay line.ending mem line.bytes

end StoredLine

/-- A request takes the line exactly when it is one of the grammar, and stores what it denotes. -/
def RequestPerGrammar (r : HTTPRequest) (mem : Nat → UInt8) (line : StoredLine) : Prop :=
  ((r.handleFirstLine (line.buffer mem) line.bytes.length).1 = true ↔
    ∃ method uri version, DenotesRequest line.text method uri version) ∧
  ∀ method uri version, DenotesRequest line.text method uri version →
    (r.handleFirstLine (line.buffer mem) line.bytes.length).2 =
      { r with method := method, uri := uri, version := version }

/-- A response takes the line exactly when it is one of the grammar, and stores what it denotes. -/
def ResponsePerGrammar (r : HTTPResponse) (mem : Nat → UInt8) (line : StoredLine) : Prop :=
  ((r.handleFirstLine (line.buffer mem) line.bytes.length).1 = true ↔
    ∃ version status, DenotesResponse line.text version status) ∧
  ∀ version status, DenotesResponse line.text version status →
    (r.handleFirstLine (line.buffer mem) line.bytes.length).2 =
      { r with version := version, statusCode := status }

/-- Where a method, a URI and something that the scanner takes for a version stand in the line, that
something is the name of a version. -/
def SpellsVersionLast (behind text : Bytes) : Prop :=
  ∀ method m uri w, methodName method = some m → SP ∉ uri → text = m ++ SP :: (uri ++ SP :: w) →
    (∃ version rest, ScansVersion behind w version rest) → ∃ version, versionName version = some w

/-- Where something that the scanner takes for a version and something that it takes for a status
stand in the line, the line starts with the name of a version and a space. -/
def SpellsVersionFirst (behind text : Bytes) : Prop :=
  ∀ version rest, ScansVersion behind text version rest → ScansStatus rest →
    ∃ version v tail, versionName version = some v ∧ text = v ++ SP :: tail

theorem requestPerGrammar_iff (r : HTTPRequest) (mem : Nat → UInt8) (line : StoredLine) :
    RequestPerGrammar r mem line ↔ SpellsVersionLast (line.behind mem) line.text := by
  unfold RequestPerGrammar
  rw [r.handleFirstLine_eq (line.remaining mem), line.behind_eq,
    HTTPRequest.readFirstLine_true_iff]
  constructor
  · rintro ⟨hgrammar, _⟩ method m uri w hm huri htext ⟨version, rest, hversion⟩
    obtain ⟨method', uri', version', m', v, hm', hv, huri', htext'⟩ :=
      hgrammar.mp ⟨method, m, uri, w, version, rest, hm, huri, htext, hversion⟩
    have hfirst := splitSpace_append (SP_notMem_methodName hm) (uri ++ SP :: w)
    rw [← htext, htext', splitSpace_append (SP_notMem_methodName hm')] at hfirst
    have hsecond := splitSpace_append huri w
    rw [← (Prod.mk.inj (Option.some.inj hfirst)).2, splitSpace_append huri'] at hsecond
    exact ⟨version', (Prod.mk.inj (Option.some.inj hsecond)).2 ▸ hv⟩
  · intro hspells
    refine ⟨⟨?_, ?_⟩, fun method uri version h => ?_⟩
    · rintro ⟨method, m, uri, w, version, rest, hm, huri, htext, hversion⟩
      obtain ⟨version', hv⟩ := hspells method m uri w hm huri htext ⟨version, rest, hversion⟩
      exact ⟨method, uri, version', m, w, hm, hv, huri, htext⟩
    · rintro ⟨method, uri, version, h⟩
      have htrue := congrArg Prod.fst (r.readFirstLine_of_denotes h (line.behind mem))
      exact HTTPRequest.readFirstLine_true_iff.mp htrue
    · rw [r.readFirstLine_of_denotes h]

theorem responsePerGrammar_iff (r : HTTPResponse) (mem : Nat → UInt8) (line : StoredLine) :
    ResponsePerGrammar r mem line ↔ SpellsVersionFirst (line.behind mem) line.text := by
  unfold ResponsePerGrammar
  rw [r.handleFirstLine_eq (line.remaining mem), line.behind_eq,
    HTTPResponse.readFirstLine_true_iff]
  constructor
  · rintro ⟨hgrammar, _⟩ version rest hversion hstatus
    obtain ⟨version', status, v, d1, d2, d3, reason, hv, _, _, htext⟩ :=
      hgrammar.mp ⟨version, rest, hversion, hstatus⟩
    exact ⟨version', v, _, hv, htext⟩
  · intro hspells
    refine ⟨⟨?_, ?_⟩, fun version status h => ?_⟩
    · rintro ⟨version, rest, hversion, hstatus⟩
      obtain ⟨version', v, tail, hv, htext⟩ := hspells version rest hversion hstatus
      have hread := scansVersion_iff.mpr hversion
      rw [htext, readVersion_versionName hv] at hread
      obtain ⟨rfl, rfl⟩ := Prod.mk.inj (Option.some.inj hread)
      obtain ⟨d1, d2, d3, reason, hspace, hdigits⟩ := hstatus
      have htail : tail = d1 :: d2 :: d3 :: SP :: reason :=
        Option.some.inj (expect_space_iff.mpr hspace)
      exact ⟨version', _, v, d1, d2, d3, reason, hv, hdigits, rfl, htail ▸ htext⟩
    · rintro ⟨version, status, h⟩
      have htrue := congrArg Prod.fst (r.readFirstLine_of_denotes h (line.behind mem))
      exact HTTPResponse.readFirstLine_true_iff.mp htrue
    · rw [r.readFirstLine_of_denotes h]

/-- First lines are taken per grammar exactly where the version is spelled as it should be. -/
theorem first_lines_per_grammar_iff (line : StoredLine) (mem : Nat → UInt8) (request : HTTPRequest)
    (response : HTTPResponse) :
    (RequestPerGrammar request mem line ↔ SpellsVersionLast (line.behind mem) line.text) ∧
      (ResponsePerGrammar response mem line ↔ SpellsVersionFirst (line.behind mem) line.text) :=
  ⟨requestPerGrammar_iff request mem line, responsePerGrammar_iff response mem line⟩

/-- The line `GET / HTTTP/1x1z` is taken. -/
theorem first_line_misspelled_taken :
    ∃ line : StoredLine,
      line.text = bytesOf "GET / HTTTP/1x1z".toList ∧ line.ending = .crlf ∧
      (HTTPRequest.new.handleFirstLine (line.buffer fun _ => 0) line.bytes.length).1 = true ∧
      ¬RequestPerGrammar HTTPRequest.new (fun _ => 0) line := by
  let line : StoredLine :=
    { text := bytesOf "GET / HTTTP/1x1z".toList
      ending := .crlf
      oneLine := by decide
      bare := nofun
      fits := by decide }
  have htaken : (HTTPRequest.new.handleFirstLine (line.buffer fun _ => 0) line.bytes.length).1 =
      true := by decide
  refine ⟨line, rfl, rfl, htaken, fun hgrammar => ?_⟩
  obtain ⟨method, uri, version, m, v, _, hv, _, htext⟩ := hgrammar.1.mp htaken
  have hsuffix : v <:+ line.text := ⟨m ++ SP :: (uri ++ [SP]), by rw [htext]; simp⟩
  cases version with
  | kUnknow => cases hv
  | kHTTP10 =>
      cases hv
      exact absurd hsuffix (by decide)
  | kHTTP11 =>
      cases hv
      exact absurd hsuffix (by decide)
  | kHTTP20 =>
      cases hv
      exact absurd hsuffix (by decide)

end Iomgr
