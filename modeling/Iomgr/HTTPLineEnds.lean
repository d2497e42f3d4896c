import Iomgr.HTTPCutLine

/-!
One message with different line ends. The parser remembers the length of a line end from line to
line: it becomes 1 with the first bare LF and stays 1. A message whose lines end in CRLF and in LF by
turns is read as the one that ends every line in CRLF exactly when no line that counts ends in CRLF
behind a line that ends in LF.
-/

namespace Iomgr

/-- A text that is one line with either end, and fits in the buffer with it. -/
structure PlainText (text : Bytes) : Prop where
  noCR : CR ∉ text
  noLF : LF ∉ text
  short : text.length ≤ 4094

theorem PlainText.whole {text : Bytes} (h : PlainText text) (ending : LineEnd) :
    HTTPParser.WholeText text ending :=
  ⟨h.noLF, fun _ hlast => h.noCR (List.mem_of_getLast? hlast)⟩

theorem PlainText.fits {text : Bytes} (h : PlainText text) (ending : LineEnd) :
    (text ++ ending.bytes).length ≤ kMaxHeaderLength := by
  have hshort := h.short
  rw [List.length_append, kMaxHeaderLength]
  cases ending with
  | crlf =>
      show text.length + 2 ≤ 4096
      omega
  | lf =>
      show text.length + 1 ≤ 4096
      omega

/-- A message as a first line, header lines and a body; every line comes with its end. -/
structure LinedMessage where
  firstLine : Bytes
  firstEnd : LineEnd
  headerLines : List (Bytes × LineEnd)
  emptyEnd : LineEnd
  body : Bytes
  firstLine_plain : PlainText firstLine
  headerLines_plain : ∀ line ∈ headerLines, PlainText line.1

namespace LinedMessage

/-- The header lines, the empty line and the body. -/
def tailBytes (headerLines : List (Bytes × LineEnd)) (emptyEnd : LineEnd) (body : Bytes) : Bytes :=
  headerLines.flatMap (fun line => line.1 ++ line.2.bytes) ++ (emptyEnd.bytes ++ body)

def bytes (m : LinedMessage) : Bytes :=
  m.firstLine ++ m.firstEnd.bytes ++ tailBytes m.headerLines m.emptyEnd m.body

theorem tailBytes_cons (text : Bytes) (ending : LineEnd) (lines : List (Bytes × LineEnd))
    (emptyEnd : LineEnd) (body : Bytes) :
    tailBytes ((text, ending) :: lines) emptyEnd body =
      text ++ ending.bytes ++ tailBytes lines emptyEnd body := by
  rw [tailBytes, List.flatMap_cons, List.append_assoc, tailBytes]

def toCRLF (line : Bytes × LineEnd) : Bytes × LineEnd := (line.1, .crlf)

/-- The same message with CRLF at every line. -/
def allCRLF (m : LinedMessage) : LinedMessage where
  firstLine := m.firstLine
  firstEnd := .crlf
  headerLines := m.headerLines.map toCRLF
  emptyEnd := .crlf
  body := m.body
  firstLine_plain := m.firstLine_plain
  headerLines_plain := by
    intro line hline
    obtain ⟨line', hline', rfl⟩ := List.mem_map.mp hline
    exact m.headerLines_plain line' hline'

theorem length_flatMap_toCRLF (lines : List (Bytes × LineEnd)) :
    (lines.flatMap fun line => line.1 ++ line.2.bytes).length ≤
        ((lines.map toCRLF).flatMap fun line => line.1 ++ line.2.bytes).length ∧
      ((lines.flatMap fun line => line.1 ++ line.2.bytes).length =
        ((lines.map toCRLF).flatMap fun line => line.1 ++ line.2.bytes).length →
        ∀ line ∈ lines, line.2 = .crlf) := by
  induction lines with
  | nil => exact ⟨Nat.le_refl _, fun _ => nofun⟩
  | cons line lines ih =>
      obtain ⟨text, ending⟩ := line
      obtain ⟨hle, heq⟩ := ih
      rw [List.map_cons, List.flatMap_cons, List.flatMap_cons, List.length_append,
        List.length_append, List.length_append, List.length_append]
      cases ending with
      | crlf =>
          refine ⟨Nat.add_le_add_left hle _, fun h line hline => ?_⟩
          rcases List.mem_cons.mp hline with rfl | hline
          · rfl
          · exact heq (Nat.add_left_cancel h) line hline
      | lf =>
          have hone : LineEnd.lf.bytes.length = 1 := rfl
          have htwo : LineEnd.crlf.bytes.length = 2 := rfl
          simp only [toCRLF, hone, htwo]
          exact ⟨by omega, fun h => absurd h (by omega)⟩

theorem map_toCRLF {lines : List (Bytes × LineEnd)} (h : ∀ line ∈ lines, line.2 = .crlf) :
    lines.map toCRLF = lines := by
  calc lines.map toCRLF = lines.map id :=
        List.map_congr_left fun line hline => Prod.ext rfl (h line hline).symm
    _ = lines := List.map_id lines

/-- The bytes are those with CRLF at every line exactly when every line ends in CRLF. -/
theorem tailBytes_toCRLF_iff {lines : List (Bytes × LineEnd)} {emptyEnd : LineEnd} {body : Bytes} :
    tailBytes lines emptyEnd body = tailBytes (lines.map toCRLF) .crlf body ↔
      (∀ line ∈ lines, line.2 = .crlf) ∧ emptyEnd = .crlf := by
  constructor
  · intro h
    obtain ⟨hle, heq⟩ := length_flatMap_toCRLF lines
    have hlength := congrArg List.length h
    unfold tailBytes at hlength
    rw [List.length_append, List.length_append, List.length_append, List.length_append] at hlength
    have htwo : LineEnd.crlf.bytes.length = 2 := rfl
    cases emptyEnd with
    | crlf => exact ⟨heq (by omega), rfl⟩
    | lf =>
        have hone : LineEnd.lf.bytes.length = 1 := rfl
        omega
  · rintro ⟨hlines, rfl⟩
    rw [map_toCRLF hlines]

end LinedMessage

namespace HTTPParser

open LinedMessage

variable {T First : Type} [HTTPMessage T] [HTTPFields T First]

/-- What a caller sees of a parse: the verdict, the fields of the first line, the headers and the
body. -/
def outcome (result : Bool × Nat × HTTPParser T) : Bool × First × List HTTPHeader × Bytes :=
  (result.1, result.2.2.first, result.2.2.headers, result.2.2.body)

/-- The length of a line end that the parser remembers, with or without a bare LF before. -/
def endLengthAfter (afterLF : Bool) : Nat := if afterLF then 1 else 2

section

variable {p : HTTPParser T} {afterLF : Bool} {ending : LineEnd}

omit [HTTPMessage T] [HTTPFields T First] in
theorem AtHeader.measures_iff (hp : p.AtHeader (endLengthAfter afterLF)) :
    p.Measures ending ↔ (afterLF = true → ending = .lf) := by
  unfold Measures
  rw [hp.endLength_eq, endLengthAfter]
  cases afterLF <;> cases ending <;> decide

omit [HTTPMessage T] [HTTPFields T First] in
theorem AtHeader.spill_eq (hp : p.AtHeader (endLengthAfter afterLF)) :
    p.spill ending = if afterLF = true → ending = .lf then [] else [CR] := by
  unfold spill
  rw [hp.endLength_eq, endLengthAfter]
  cases afterLF <;> cases ending <;> decide

end

namespace AtHeader

variable {p : HTTPParser T} {n : Nat} {ending : LineEnd}

theorem outcome_empty (hp : p.AtHeader n) (h : p.Measures ending) (rest : Bytes) (i start : Nat) :
    outcome (p.parseFrom i (ending.bytes ++ rest) start) =
      (true, p.first, p.headers, p.body ++ rest) := by
  obtain ⟨q, s, hparse, _, hfirst, hheaders, hbody⟩ := hp.parseFrom_empty h rest i start
  rw [hparse, outcome, hfirst, hheaders, hbody]

theorem outcome_none (hp : p.AtHeader n) {text : Bytes} (hplain : PlainText text)
    (h : text ≠ [] ∨ ¬p.Measures ending) (hnone : headerOf text = none) (rest : Bytes)
    (i start : Nat) :
    outcome (p.parseFrom i (text ++ ending.bytes ++ rest) start) =
      (false, p.first, p.headers, p.body) := by
  obtain ⟨q, hparse, hfirst, hheaders, hbody⟩ :=
    hp.parseFrom_none (hplain.whole ending) (hplain.fits ending) h hnone rest i start
  rw [hparse, outcome, hfirst, hheaders, hbody]

theorem plainText_nil : PlainText [] := ⟨List.not_mem_nil, List.not_mem_nil, Nat.zero_le _⟩

/-- The outcome of an empty line. -/
theorem outcome_emptyLine (hp : p.AtHeader n) (ending : LineEnd) (rest : Bytes) (i start : Nat) :
    (p.Measures ending ∧ outcome (p.parseFrom i (ending.bytes ++ rest) start) =
      (true, p.first, p.headers, p.body ++ rest)) ∨
    (¬p.Measures ending ∧ outcome (p.parseFrom i (ending.bytes ++ rest) start) =
      (false, p.first, p.headers, p.body)) := by
  by_cases hmeasures : p.Measures ending
  · exact Or.inl ⟨hmeasures, hp.outcome_empty hmeasures rest i start⟩
  · exact Or.inr ⟨hmeasures, hp.outcome_none plainText_nil (Or.inr hmeasures) rfl rest i start⟩

/-- The rest of a message keeps the fields of the first line and the headers so far. -/
theorem outcome_tail (hp : p.AtHeader n) {lines : List (Bytes × LineEnd)}
    (hlines : ∀ line ∈ lines, PlainText line.1) (emptyEnd : LineEnd) (body : Bytes) (i start : Nat) :
    (outcome (p.parseFrom i (tailBytes lines emptyEnd body) start)).2.1 = p.first ∧
      p.headers <+: (outcome (p.parseFrom i (tailBytes lines emptyEnd body) start)).2.2.1 := by
  induction lines generalizing p n i with
  | nil =>
      rcases hp.outcome_emptyLine emptyEnd body i start with ⟨_, heq⟩ | ⟨_, heq⟩
      · rw [tailBytes, List.flatMap_nil, List.nil_append, heq]
        exact ⟨rfl, List.prefix_rfl⟩
      · rw [tailBytes, List.flatMap_nil, List.nil_append, heq]
        exact ⟨rfl, List.prefix_rfl⟩
  | cons line lines ih =>
      obtain ⟨text, ending⟩ := line
      have hplain : PlainText text := hlines _ List.mem_cons_self
      have hrest : ∀ line ∈ lines, PlainText line.1 :=
        fun line hline => hlines line (List.mem_cons_of_mem _ hline)
      rw [tailBytes_cons]
      by_cases hempty : text = []
      · subst hempty
        rw [List.nil_append]
        rcases hp.outcome_emptyLine ending (tailBytes lines emptyEnd body) i start with
          ⟨_, heq⟩ | ⟨_, heq⟩
        · rw [heq]
          exact ⟨rfl, List.prefix_rfl⟩
        · rw [heq]
          exact ⟨rfl, List.prefix_rfl⟩
      · cases hheader : headerOf text with
        | none =>
            rw [hp.outcome_none hplain (Or.inl hempty) hheader]
            exact ⟨rfl, List.prefix_rfl⟩
        | some header =>
            obtain ⟨q, j, hparse, hq, hfirst, hheaders, _⟩ := hp.parseFrom_header
              (hplain.whole ending) (hplain.fits ending) hheader (tailBytes lines emptyEnd body) i start
            obtain ⟨hfirst', hheaders'⟩ := ih hq hrest j
            rw [hparse]
            refine ⟨hfirst'.trans hfirst, List.IsPrefix.trans ?_ hheaders'⟩
            rw [hheaders]
            exact List.prefix_append _ _

end AtHeader

/-! ### The header lines -/

/-- The ends of the header lines and of the empty line, up to the first line that is rejected: none
is a CRLF behind a bare LF. An empty line among the header lines ends the headers, and the ends behind
it are bytes of the body, which must be CRLF. -/
def HeaderEndsAgree : Bool → List (Bytes × LineEnd) → LineEnd → Prop
  | afterLF, [], emptyEnd => afterLF = true → emptyEnd = .lf
  | afterLF, (text, ending) :: lines, emptyEnd =>
      if text = [] then
        (afterLF = true → ending = .lf) ∧ (∀ line ∈ lines, line.2 = .crlf) ∧ emptyEnd = .crlf
      else
        match headerOf text with
        | none => True
        | some _ =>
            (afterLF = true → ending = .lf) ∧
              HeaderEndsAgree (afterLF || decide (ending = .lf)) lines emptyEnd

/-- Two parsers at the same header line, with the same message so far; the second one has seen only
CRLF. -/
structure Abreast (p p' : HTTPParser T) (afterLF : Bool) : Prop where
  left : p.AtHeader (endLengthAfter afterLF)
  right : p'.AtHeader 2
  first : p.first = p'.first
  headers : p.headers = p'.headers
  body : p.body = p'.body

namespace Abreast

variable {p p' : HTTPParser T} {afterLF : Bool}

/-- An empty line: the outcomes agree when its end is measured right and the rest is the same. -/
theorem emptyLine_iff (h : Abreast p p' afterLF) (ending : LineEnd) (rest rest' : Bytes)
    (i i' start start' : Nat) :
    outcome (p.parseFrom i (ending.bytes ++ rest) start) =
        outcome (p'.parseFrom i' (LineEnd.crlf.bytes ++ rest') start') ↔
      (afterLF = true → ending = .lf) ∧ rest = rest' := by
  have hright : p'.Measures .crlf := fun _ => h.right.endLength_eq
  rw [h.right.outcome_empty hright, ← h.left.measures_iff]
  rcases h.left.outcome_emptyLine ending rest i start with ⟨hm, heq⟩ | ⟨hm, heq⟩
  · rw [heq, h.first, h.headers, h.body]
    simp [hm]
  · rw [heq]
    simp [hm]

theorem tail_iff (h : Abreast p p' afterLF) {lines : List (Bytes × LineEnd)}
    (hlines : ∀ line ∈ lines, PlainText line.1) (emptyEnd : LineEnd) (body : Bytes)
    (i i' start start' : Nat) :
    outcome (p.parseFrom i (tailBytes lines emptyEnd body) start) =
        outcome (p'.parseFrom i' (tailBytes (lines.map toCRLF) .crlf body) start') ↔
      HeaderEndsAgree afterLF lines emptyEnd := by
  induction lines generalizing p p' afterLF i i' with
  | nil =>
      rw [List.map_nil, tailBytes, tailBytes, List.flatMap_nil, List.nil_append, List.nil_append,
        h.emptyLine_iff]
      exact and_iff_left rfl
  | cons line lines ih =>
      obtain ⟨text, ending⟩ := line
      have hplain : PlainText text := hlines _ List.mem_cons_self
      have hrest : ∀ line ∈ lines, PlainText line.1 :=
        fun line hline => hlines line (List.mem_cons_of_mem _ hline)
      have hrest' : ∀ line ∈ lines.map toCRLF, PlainText line.1 := by
        intro line hline
        obtain ⟨line', hline', rfl⟩ := List.mem_map.mp hline
        exact hrest line' hline'
      rw [List.map_cons, toCRLF, tailBytes_cons, tailBytes_cons, HeaderEndsAgree]
      by_cases hempty : text = []
      · subst hempty
        rw [List.nil_append, List.nil_append, h.emptyLine_iff, tailBytes_toCRLF_iff, if_pos rfl]
      · rw [if_neg hempty]
        cases hheader : headerOf text with
        | none =>
            rw [h.left.outcome_none hplain (Or.inl hempty) hheader,
              h.right.outcome_none hplain (Or.inl hempty) hheader, h.first, h.headers, h.body]
            exact iff_of_true rfl trivial
        | some header =>
            obtain ⟨q, j, hparse, hq, hfirst, hheaders, hbody⟩ := h.left.parseFrom_header
              (hplain.whole ending) (hplain.fits ending) hheader (tailBytes lines emptyEnd body)
              i start
            obtain ⟨q', j', hparse', hq', hfirst', hheaders', hbody'⟩ := h.right.parseFrom_header
              (hplain.whole .crlf) (hplain.fits .crlf) hheader
              (tailBytes (lines.map toCRLF) .crlf body) i' start'
            have hspill' : p'.spill .crlf = [] :=
              if_neg (fun h' => absurd (h.right.endLength_eq.symm.trans h'.2) (by decide))
            rw [hspill', List.append_nil] at hheaders'
            rw [h.left.spill_eq] at hheaders
            rw [hparse, hparse']
            dsimp only
            by_cases hend : afterLF = true → ending = .lf
            · rw [if_pos hend, List.append_nil] at hheaders
              have hlength : (if ending = .crlf then endLengthAfter afterLF else 1) =
                  endLengthAfter (afterLF || decide (ending = .lf)) := by
                cases afterLF <;> cases ending <;> rfl
              rw [hlength] at hq
              have hnext : Abreast q q' (afterLF || decide (ending = .lf)) :=
                ⟨hq, hq', by rw [hfirst, hfirst', h.first], by rw [hheaders, hheaders', h.headers],
                  by rw [hbody, hbody', h.body]⟩
              rw [ih hnext hrest]
              exact (and_iff_right hend).symm
            · rw [if_neg hend] at hheaders
              refine iff_of_false (fun heq => ?_) (fun hagree => hend hagree.1)
              -- the header with the CR stays in the list to the end
              have hprefix := (hq.outcome_tail hrest emptyEnd body j start).2
              have hprefix' := (hq'.outcome_tail hrest' .crlf body j' start').2
              rw [heq, hheaders, h.headers] at hprefix
              rw [hheaders'] at hprefix'
              have hsame := List.prefix_of_prefix_length_le hprefix hprefix' (by simp)
              have hheaderEq := List.append_cancel_left (hsame.eq_of_length (by simp))
              simp at hheaderEq

end Abreast

/-! ### The first line -/

section

variable [ScannedFirstLine T First]

/-- What a fresh parser reads of the first line in its buffer. -/
theorem handleFirstLine_withLine (message : T) (mem : Nat → UInt8) (text : Bytes)
    (ending : LineEnd) :
    HTTPMessage.handleFirstLine message ((new message mem).withLine text ending).curLine
        ((new message mem).withLine text ending).curLineLength =
      ScannedFirstLine.readFirstLine message
        (behindEnd ending mem (text ++ ending.bytes).length) text := by
  rw [← behindEnd_overlay ending mem (text ++ ending.bytes)]
  exact ScannedFirstLine.handleFirstLine_eq message (Remaining.whole mem (text ++ ending.bytes))

variable {text : Bytes} {ending : LineEnd} {message message' : T} {mem : Nat → UInt8}

/-- Reading the first line leaves the headers and the body. -/
theorem handleFirstLine_of_read {accepted : Bool}
    (hread : ScannedFirstLine.readFirstLine message
      (behindEnd ending mem (text ++ ending.bytes).length) text = (accepted, message')) :
    HTTPMessage.handleFirstLine message ((new message mem).withLine text ending).curLine
        ((new message mem).withLine text ending).curLineLength = (accepted, message') ∧
      HTTPFields.headers message' = HTTPFields.headers message ∧
      LawfulHTTPMessage.body message' = LawfulHTTPMessage.body message := by
  have hhandle := (handleFirstLine_withLine message mem text ending).trans hread
  have hheaders := HTTPFields.headers_handleFirstLine message
    ((new message mem).withLine text ending).curLine
    ((new message mem).withLine text ending).curLineLength
  have hbody := LawfulHTTPMessage.body_handleFirstLine message
    ((new message mem).withLine text ending).curLine
    ((new message mem).withLine text ending).curLineLength
  rw [hhandle] at hheaders hbody
  exact ⟨hhandle, hheaders, hbody⟩

theorem parse_first_false (hplain : PlainText text)
    (hread : ScannedFirstLine.readFirstLine message
      (behindEnd ending mem (text ++ ending.bytes).length) text = (false, message')) (rest : Bytes) :
    outcome ((new message mem).parse (text ++ ending.bytes ++ rest)) =
      (false, HTTPFields.first message', HTTPFields.headers message,
        LawfulHTTPMessage.body message) := by
  obtain ⟨hhandle, hheaders, hbody⟩ := handleFirstLine_of_read hread
  have hfresh : (new message mem).parseState ≠ .kParseBody := ParseState.noConfusion
  rw [parse, parseFrom_withLine hfresh rfl (hplain.whole ending) (hplain.fits ending),
    finishLine_of_first_false rfl hhandle, ← hheaders, ← hbody]
  rfl

theorem parse_first_true (hplain : PlainText text)
    (hread : ScannedFirstLine.readFirstLine message
      (behindEnd ending mem (text ++ ending.bytes).length) text = (true, message')) (rest : Bytes) :
    ∃ (q : HTTPParser T) (j : Nat), (new message mem).parse (text ++ ending.bytes ++ rest) =
        q.parseFrom j rest 0 ∧ q.AtHeader (endLengthAfter (decide (ending = .lf))) ∧
      q.first = HTTPFields.first message' ∧ q.headers = HTTPFields.headers message ∧
      q.body = LawfulHTTPMessage.body message := by
  obtain ⟨hhandle, hheaders, hbody⟩ := handleFirstLine_of_read hread
  have hfresh : (new message mem).parseState ≠ .kParseBody := ParseState.noConfusion
  rw [parse, parseFrom_withLine hfresh rfl (hplain.whole ending) (hplain.fits ending),
    finishLine_of_first_true rfl hhandle]
  refine ⟨_, _, rfl, ⟨rfl, rfl, ?_, ?_⟩, rfl, hheaders, hbody⟩
  · cases ending <;> rfl
  · cases ending
    · exact Or.inr rfl
    · exact Or.inl rfl

/-- The fields of the first line in the outcome are those that the first line sets. -/
theorem outcome_first (message : T) (mem : Nat → UInt8) (hplain : PlainText text) (ending : LineEnd)
    {lines : List (Bytes × LineEnd)}
    (hlines : ∀ line ∈ lines, PlainText line.1) (emptyEnd : LineEnd) (body : Bytes) :
    (outcome ((new message mem).parse
      (text ++ ending.bytes ++ tailBytes lines emptyEnd body))).2.1 =
      HTTPFields.first (ScannedFirstLine.readFirstLine message
        (behindEnd ending mem (text ++ ending.bytes).length) text).2 := by
  cases hread : ScannedFirstLine.readFirstLine message
      (behindEnd ending mem (text ++ ending.bytes).length) text with
  | mk verdict message' =>
      cases verdict with
      | false => rw [parse_first_false hplain hread]
      | true =>
          obtain ⟨q, j, hparse, hq, hfirst, _, _⟩ :=
            parse_first_true hplain hread (tailBytes lines emptyEnd body)
          rw [hparse, (hq.outcome_tail hlines emptyEnd body j 0).1, hfirst]

end

/-! ### The message -/

section

variable (T) [ScannedFirstLine T First]

/-- A fresh parser, whatever its buffer holds, makes the same of the message as of the message with
CRLF at every line. -/
def EndsInterchange (m : LinedMessage) : Prop :=
  ∀ mem, outcome ((new (ScannedFirstLine.fresh : T) mem).parse m.bytes) =
    outcome ((new (ScannedFirstLine.fresh : T) mem).parse m.allCRLF.bytes)

/-- A first line that ends in LF is not cut, and where the first line is taken the ends of the other
lines agree. -/
def EndsAgree (m : LinedMessage) : Prop :=
  (m.firstEnd = .lf → ¬ScannedFirstLine.Cut T m.firstLine) ∧
    (ScannedFirstLine.Takes T m.firstLine →
      HeaderEndsAgree (decide (m.firstEnd = .lf)) m.headerLines m.emptyEnd)

variable {T} {m : LinedMessage}

/-- A cut line that ends in LF is completed by some byte behind it. -/
theorem EndsInterchange.not_cut (h : EndsInterchange T m) (hend : m.firstEnd = .lf) :
    ¬ScannedFirstLine.Cut T m.firstLine := by
  intro hcut
  obtain ⟨minor, hdiffers⟩ := ScannedFirstLine.read_of_cut hcut
  have hsame := congrArg (fun result => result.2.1) (h fun _ => minor)
  have hleft := outcome_first (ScannedFirstLine.fresh : T) (fun _ => minor) m.firstLine_plain
    m.firstEnd m.headerLines_plain m.emptyEnd m.body
  have hright := outcome_first (ScannedFirstLine.fresh : T) (fun _ => minor) m.firstLine_plain .crlf
    m.allCRLF.headerLines_plain .crlf m.body
  have hbehind : ∀ n, behindEnd m.firstEnd (fun _ => minor) n =
      minor :: bytesFrom (fun _ => minor) 6 (n + 1) := by
    intro n
    rw [hend]
    rfl
  rw [hbehind] at hleft
  exact hdiffers _ (hleft.symm.trans (hsame.trans hright))

/-- With the first line taken in both forms, the outcome is a matter of the other lines. -/
theorem tail_of_first_true (hend : m.firstEnd = .lf → ¬ScannedFirstLine.Cut T m.firstLine)
    {message' : T}
    (hread : ScannedFirstLine.readFirstLine ScannedFirstLine.fresh [] m.firstLine =
      (true, message')) (mem : Nat → UInt8) :
    outcome ((new (ScannedFirstLine.fresh : T) mem).parse m.bytes) =
        outcome ((new (ScannedFirstLine.fresh : T) mem).parse m.allCRLF.bytes) ↔
      HeaderEndsAgree (decide (m.firstEnd = .lf)) m.headerLines m.emptyEnd := by
  have hreadLeft := (ScannedFirstLine.read_behindEnd hend ScannedFirstLine.fresh mem
    (m.firstLine ++ m.firstEnd.bytes).length).trans hread
  have hreadRight : ScannedFirstLine.readFirstLine ScannedFirstLine.fresh
      (behindEnd .crlf mem (m.firstLine ++ LineEnd.crlf.bytes).length) m.firstLine =
      (true, message') := hread
  obtain ⟨q, j, hparse, hq, hfirst, hheaders, hbody⟩ := parse_first_true m.firstLine_plain hreadLeft
    (tailBytes m.headerLines m.emptyEnd m.body)
  obtain ⟨q', j', hparse', hq', hfirst', hheaders', hbody'⟩ := parse_first_true m.firstLine_plain
    hreadRight (tailBytes (m.headerLines.map toCRLF) .crlf m.body)
  have habreast : Abreast q q' (decide (m.firstEnd = .lf)) :=
    ⟨hq, hq', hfirst.trans hfirst'.symm, hheaders.trans hheaders'.symm, hbody.trans hbody'.symm⟩
  rw [← habreast.tail_iff m.headerLines_plain m.emptyEnd m.body j j' 0 0]
  rw [← hparse, ← hparse']
  rfl

theorem endsInterchange_iff : EndsInterchange T m ↔ EndsAgree T m := by
  constructor
  · intro h
    refine ⟨h.not_cut, fun htakes => ?_⟩
    have hverdict := (ScannedFirstLine.takes_iff (ScannedFirstLine.fresh : T) m.firstLine).mpr htakes
    exact (tail_of_first_true h.not_cut (Prod.ext hverdict rfl) fun _ => 0).mp (h _)
  · rintro ⟨hcut, hagree⟩ mem
    cases hread : ScannedFirstLine.readFirstLine (ScannedFirstLine.fresh : T) [] m.firstLine with
    | mk verdict message' =>
        cases verdict with
        | false =>
            have hreadLeft := (ScannedFirstLine.read_behindEnd hcut ScannedFirstLine.fresh mem
              (m.firstLine ++ m.firstEnd.bytes).length).trans hread
            have hreadRight : ScannedFirstLine.readFirstLine ScannedFirstLine.fresh
                (behindEnd .crlf mem (m.firstLine ++ LineEnd.crlf.bytes).length) m.firstLine =
                (false, message') := hread
            exact (parse_first_false m.firstLine_plain hreadLeft _).trans
              (parse_first_false m.firstLine_plain hreadRight _).symm
        | true =>
            have htakes := (ScannedFirstLine.takes_iff (ScannedFirstLine.fresh : T) m.firstLine).mp
              (congrArg Prod.fst hread)
            exact (tail_of_first_true hcut hread mem).mpr (hagree htakes)

end

/-- Line ends are interchangeable in a message exactly when they agree. -/
theorem line_ends_interchange_iff (m : LinedMessage) :
    (EndsInterchange HTTPRequest m ↔ EndsAgree HTTPRequest m) ∧
      (EndsInterchange HTTPResponse m ↔ EndsAgree HTTPResponse m) :=
  ⟨endsInterchange_iff, endsInterchange_iff⟩

/-- A request whose first line ends in LF, with an empty line that ends in CRLF, is rejected. -/
theorem line_ends_mixed_rejected :
    ∃ m : LinedMessage, m.bytes = bytesOf "GET / HTTP/1.1\n\r\n".toList ∧
      ((new HTTPRequest.new fun _ => 0).parse m.bytes).1 = false ∧
      ((new HTTPRequest.new fun _ => 0).parse m.allCRLF.bytes).1 = true ∧
      ¬EndsInterchange HTTPRequest m := by
  let m : LinedMessage :=
    { firstLine := bytesOf "GET / HTTP/1.1".toList
      firstEnd := .lf
      headerLines := []
      emptyEnd := .crlf
      body := []
      firstLine_plain := ⟨by decide, by decide, by decide⟩
      headerLines_plain := nofun }
  have hleft : ((new HTTPRequest.new fun _ => 0).parse m.bytes).1 = false := by decide
  have hright : ((new HTTPRequest.new fun _ => 0).parse m.allCRLF.bytes).1 = true := by decide
  refine ⟨m, by decide, hleft, hright, fun h => ?_⟩
  have hverdict := congrArg Prod.fst (h fun _ => 0)
  exact absurd (hleft.symm.trans (hverdict.trans hright)) Bool.false_ne_true

end HTTPParser

end Iomgr
