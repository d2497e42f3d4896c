import Iomgr.HTTPParserLines
import Iomgr.HTTPResponse
import Mathlib.Data.List.TakeWhile

/-!
The first line of a message, read off its bytes. The scanner runs over the line with its end, but the
bytes that it asks for never are those of a line end, so that what it accepts is a matter of the text
before the end. There is one exception: the version is read without a look at the end of the line,
and for a text that ends with its first digit and a bare LF it is read from behind the line.
-/

namespace Iomgr

/-- The two ends of a line. -/
inductive LineEnd
  | crlf
  | lf
  deriving DecidableEq, Repr

namespace LineEnd

def bytes : LineEnd → Bytes
  | crlf => [CR, LF]
  | lf => [LF]

theorem bytes_ne_nil (ending : LineEnd) : ending.bytes ≠ [] := by
  cases ending with
  | crlf => exact List.cons_ne_nil _ _
  | lf => exact List.cons_ne_nil _ _

theorem mem_bytes {ending : LineEnd} {b : UInt8} (h : b ∈ ending.bytes) : b = CR ∨ b = LF := by
  cases ending with
  | crlf => simpa [bytes] using h
  | lf => exact Or.inr (List.mem_singleton.mp h)

end LineEnd

/-! ### The scanner over the bytes that are left -/

/-- The bytes from a position to the end of the line. -/
structure Remaining (mem : Nat → UInt8) (endPos cur : Nat) (rest : Bytes) : Prop where
  reaches : cur + rest.length = endPos
  read : bytesFrom mem rest.length cur = rest

namespace Remaining

variable {mem : Nat → UInt8} {endPos cur : Nat} {rest : Bytes}

theorem whole (mem : Nat → UInt8) (line : Bytes) :
    Remaining (overlay mem 0 line) line.length 0 line :=
  ⟨Nat.zero_add _, bytesFrom_overlay mem 0 line⟩

theorem nil_iff (h : Remaining mem endPos cur rest) : cur = endPos ↔ rest = [] := by
  rw [← List.length_eq_zero_iff]
  have hreaches := h.reaches
  omega

theorem head {b : UInt8} (h : Remaining mem endPos cur (b :: rest)) : mem cur = b := by
  have hread := h.read
  rw [List.length_cons, bytesFrom] at hread
  exact (List.cons.inj hread).1

theorem tail {b : UInt8} (h : Remaining mem endPos cur (b :: rest)) :
    Remaining mem endPos (cur + 1) rest := by
  have hreaches := h.reaches
  have hread := h.read
  rw [List.length_cons] at hreaches
  rw [List.length_cons, bytesFrom] at hread
  exact ⟨by omega, (List.cons.inj hread).2⟩

theorem drop {as : Bytes} (h : Remaining mem endPos cur (as ++ rest)) :
    Remaining mem endPos (cur + as.length) rest := by
  induction as generalizing cur with
  | nil => exact h
  | cons a as ih =>
      have htail := ih h.tail
      rwa [Nat.add_assoc, Nat.add_comm 1] at htail

theorem take {as : Bytes} (h : Remaining mem endPos cur (as ++ rest)) :
    bytesFrom mem as.length cur = as := by
  induction as generalizing cur with
  | nil => rfl
  | cons a as ih =>
      rw [List.length_cons, bytesFrom, h.head, ih h.tail]

end Remaining

/-- `HELPER` over the bytes that are left. -/
def expect (rest : Bytes) (ch : Char) : Option Bytes :=
  match rest with
  | [] => none
  | b :: rest =>
      if b = byteOf ch then some rest
      else
        match rest with
        | [] => none
        | b :: rest => if b = byteOf ch then some rest else none

/-- `HTTP/` over the bytes that are left. -/
def expectProtocol (rest : Bytes) : Option Bytes := ['H', 'T', 'T', 'P', '/'].foldlM expect rest

theorem helper_rel {mem : Nat → UInt8} {endPos cur : Nat} {rest : Bytes}
    (h : Remaining mem endPos cur rest) (ch : Char) :
    Option.Rel (Remaining mem endPos) (helper mem endPos cur ch) (expect rest ch) := by
  unfold helper expect
  cases rest with
  | nil =>
      rw [if_pos (h.nil_iff.mpr rfl)]
      exact Option.Rel.none
  | cons b rest =>
      rw [if_neg (fun hend => List.cons_ne_nil b rest (h.nil_iff.mp hend)), h.head]
      dsimp only
      by_cases hb : b = byteOf ch
      · rw [if_pos hb, if_pos hb]
        exact Option.Rel.some h.tail
      · rw [if_neg hb, if_neg hb]
        cases rest with
        | nil =>
            rw [if_pos (h.tail.nil_iff.mpr rfl)]
            exact Option.Rel.none
        | cons c rest =>
            rw [if_neg (fun hend => List.cons_ne_nil c rest (h.tail.nil_iff.mp hend)), h.tail.head]
            dsimp only
            split_ifs
            · exact Option.Rel.some h.tail.tail
            · exact Option.Rel.none

theorem rel_cases {α β : Type} {R : α → β → Prop} {x : Option α} {y : Option β}
    (h : Option.Rel R x y) :
    (x = none ∧ y = none) ∨ ∃ a b, x = some a ∧ y = some b ∧ R a b := by
  cases h with
  | none => exact Or.inl ⟨rfl, rfl⟩
  | some hab => exact Or.inr ⟨_, _, rfl, rfl, hab⟩

/-- Two folds that keep step. -/
theorem foldlM_rel {α β γ : Type} {R : α → β → Prop} {f : α → γ → Option α} {g : β → γ → Option β}
    (hstep : ∀ a b c, R a b → Option.Rel R (f a c) (g b c)) (cs : List γ) {a : α} {b : β}
    (h : R a b) : Option.Rel R (cs.foldlM f a) (cs.foldlM g b) := by
  induction cs generalizing a b with
  | nil => exact Option.Rel.some h
  | cons c cs ih =>
      rw [List.foldlM_cons, List.foldlM_cons]
      rcases rel_cases (hstep a b c h) with ⟨hf, hg⟩ | ⟨a', b', hf, hg, hnext⟩
      · rw [hf, hg]
        exact Option.Rel.none
      · rw [hf, hg]
        exact ih hnext

theorem helperProtocol_rel {mem : Nat → UInt8} {endPos cur : Nat} {rest : Bytes}
    (h : Remaining mem endPos cur rest) :
    Option.Rel (Remaining mem endPos) (helperProtocol mem endPos cur) (expectProtocol rest) :=
  foldlM_rel (fun _ _ ch hrest => helper_rel hrest ch) _ h

/-- The bytes before the first space, and those behind it. -/
def splitSpace : Bytes → Option (Bytes × Bytes)
  | [] => none
  | b :: rest =>
      if b = SP then some ([], rest)
      else (splitSpace rest).map fun (before, behind) => (b :: before, behind)

theorem splitSpace_of_notMem {rest : Bytes} (h : SP ∉ rest) : splitSpace rest = none := by
  induction rest with
  | nil => rfl
  | cons b rest ih =>
      rw [List.mem_cons, not_or] at h
      rw [splitSpace, if_neg (Ne.symm h.1), ih h.2]
      rfl

theorem splitSpace_append {before : Bytes} (h : SP ∉ before) (behind : Bytes) :
    splitSpace (before ++ SP :: behind) = some (before, behind) := by
  induction before with
  | nil => exact if_pos rfl
  | cons b before ih =>
      rw [List.mem_cons, not_or] at h
      rw [List.cons_append, splitSpace, if_neg (Ne.symm h.1), ih h.2]
      rfl

/-- A byte string has a first space, or none at all. -/
theorem space_cases (rest : Bytes) :
    SP ∉ rest ∨ ∃ before behind, SP ∉ before ∧ rest = before ++ SP :: behind := by
  by_cases h : SP ∈ rest
  · obtain ⟨before, behind, heq, hnot⟩ := List.eq_append_cons_of_mem h
    exact Or.inr ⟨before, behind, hnot, heq⟩
  · exact Or.inl h

theorem splitSpace_eq_some_iff {rest before behind : Bytes} :
    splitSpace rest = some (before, behind) ↔ SP ∉ before ∧ rest = before ++ SP :: behind := by
  constructor
  · intro hsplit
    rcases space_cases rest with hnone | ⟨before', behind', hbefore, rfl⟩
    · rw [splitSpace_of_notMem hnone] at hsplit
      cases hsplit
    · rw [splitSpace_append hbefore] at hsplit
      cases hsplit
      exact ⟨hbefore, rfl⟩
  · rintro ⟨hbefore, rfl⟩
    exact splitSpace_append hbefore behind

theorem SP_notMem_lineEnd (ending : LineEnd) : SP ∉ ending.bytes := by
  intro h
  rcases LineEnd.mem_bytes h with hcr | hlf
  · exact absurd hcr (by decide)
  · exact absurd hlf (by decide)

theorem Remaining.scanWhile_eq {mem : Nat → UInt8} {endPos cur : Nat} {rest : Bytes}
    (h : Remaining mem endPos cur rest) (p : UInt8 → Bool) :
    scanWhile p mem (endPos - cur) cur = cur + (rest.takeWhile p).length := by
  have hleft : endPos - cur = rest.length := by
    have hreaches := h.reaches
    omega
  rw [Iomgr.scanWhile_eq, hleft, h.read]

theorem takeWhile_of_notMem {rest : Bytes} (h : SP ∉ rest) : rest.takeWhile (· != SP) = rest := by
  rw [List.takeWhile_eq_self_iff]
  intro b hb
  exact bne_iff_ne.mpr (fun heq => h (heq ▸ hb))

theorem skipPastSpace_of_notMem {mem : Nat → UInt8} {endPos cur : Nat} {rest : Bytes}
    (h : Remaining mem endPos cur rest) (hnone : SP ∉ rest) :
    skipPastSpace mem endPos cur = endPos := by
  rw [skipPastSpace, h.scanWhile_eq, takeWhile_of_notMem hnone]
  exact if_pos h.reaches

theorem skipPastSpace_append {mem : Nat → UInt8} {endPos cur : Nat} {before behind : Bytes}
    (h : Remaining mem endPos cur (before ++ SP :: behind)) (hbefore : SP ∉ before) :
    skipPastSpace mem endPos cur = cur + before.length + 1 := by
  have htake : (before ++ SP :: behind).takeWhile (· != SP) = before := by
    rw [List.takeWhile_append_of_pos, List.takeWhile_cons_of_neg (by simp), List.append_nil]
    intro b hb
    exact bne_iff_ne.mpr (fun heq => hbefore (heq ▸ hb))
  have hreaches := h.reaches
  rw [List.length_append, List.length_cons] at hreaches
  rw [skipPastSpace, h.scanWhile_eq, htake]
  exact if_neg (by omega)

/-! ### The version -/

/-- The version that two bytes denote. -/
def versionOf (major minor : UInt8) : Option HTTPVersion :=
  kVersionMap ((charValue major - 48) * 10 + (charValue minor - 48))

/-- The version at the front of the bytes that are left, and the bytes after it. A text that ends
with the first digit is read on in the bytes behind the line. -/
def readVersion (behind : Bytes) : Bytes → Option (HTTPVersion × Bytes)
  | major :: _ :: minor :: rest => (versionOf major minor).map fun version => (version, rest)
  | [major] =>
      match behind with
      | minor :: rest => (versionOf major minor).map fun version => (version, rest)
      | [] => none
  | _ => none

theorem charValue_le (b : UInt8) : charValue b ≤ 127 := Int8.toInt_le _

theorem kVersionMap_eq_none {n : Int} (h10 : n ≠ 10) (h11 : n ≠ 11) (h20 : n ≠ 20) :
    kVersionMap n = none := by
  rw [kVersionMap, if_neg h10, if_neg h11, if_neg h20]

/-- No byte of a line end is a digit of a version. -/
theorem versionOf_lineEnd_major {major : UInt8} (h : major = CR ∨ major = LF) (minor : UInt8) :
    versionOf major minor = none := by
  have hminor := charValue_le minor
  have hmajor : charValue major ≤ 13 := by
    rcases h with rfl | rfl
    · decide
    · decide
  exact kVersionMap_eq_none (by omega) (by omega) (by omega)

theorem versionOf_lineEnd_minor (major : UInt8) {minor : UInt8} (h : minor = CR ∨ minor = LF) :
    versionOf major minor = none := by
  have hminor : charValue minor = 13 ∨ charValue minor = 10 := by
    rcases h with rfl | rfl
    · exact Or.inl (by decide)
    · exact Or.inr (by decide)
  exact kVersionMap_eq_none (by omega) (by omega) (by omega)

/-- The bytes behind the end of a line that its scanner can reach: the second digit of the version,
and six bytes of a status. Behind a CRLF there are none. -/
def behindEnd (ending : LineEnd) (mem : Nat → UInt8) (endPos : Nat) : Bytes :=
  match ending with
  | .crlf => []
  | .lf => bytesFrom mem 7 endPos

theorem overlay_above (mem : Nat → UInt8) (pos : Nat) (bs : Bytes) {i : Nat}
    (h : pos + bs.length ≤ i) : overlay mem pos bs i = mem i := by
  induction bs generalizing mem pos with
  | nil => rfl
  | cons b bs ih =>
      rw [List.length_cons] at h
      rw [overlay, ih _ _ (by omega), Function.update_of_ne (by omega)]

theorem bytesFrom_congr {mem mem' : Nat → UInt8} {n pos : Nat}
    (h : ∀ i, pos ≤ i → mem i = mem' i) : bytesFrom mem n pos = bytesFrom mem' n pos := by
  induction n generalizing pos with
  | zero => rfl
  | succ n ih =>
      rw [bytesFrom, bytesFrom, h pos (Nat.le_refl pos), ih (fun i hi => h i (by omega))]

/-- Behind a line the buffer holds what it held before. -/
theorem behindEnd_overlay (ending : LineEnd) (mem : Nat → UInt8) (line : Bytes) :
    behindEnd ending (overlay mem 0 line) line.length = behindEnd ending mem line.length := by
  cases ending with
  | crlf => rfl
  | lf => exact bytesFrom_congr fun i hi => overlay_above mem 0 line (by omega)

theorem Remaining.versionNumber_eq {mem : Nat → UInt8} {endPos cur : Nat} {rest : Bytes}
    {a b c : UInt8} (h : Remaining mem endPos cur (a :: b :: c :: rest)) :
    kVersionMap (versionNumber mem cur) = versionOf a c := by
  rw [versionNumber, h.head, h.tail.tail.head, versionOf]

/-- The version in the buffer is the version of the text, or of the text and what lies behind. -/
theorem kVersionMap_eq_readVersion {mem : Nat → UInt8} {endPos cur : Nat} {text : Bytes}
    {ending : LineEnd} (h : Remaining mem endPos cur (text ++ ending.bytes)) :
    kVersionMap (versionNumber mem cur) =
      (readVersion (behindEnd ending mem endPos) text).map Prod.fst := by
  match text with
  | [] =>
      have hmajor : mem cur = CR ∨ mem cur = LF := by
        cases ending with
        | crlf => exact Or.inl h.head
        | lf => exact Or.inr h.head
      exact versionOf_lineEnd_major hmajor _
  | [a] =>
      cases ending with
      | crlf =>
          rw [h.versionNumber_eq]
          exact versionOf_lineEnd_minor a (Or.inr rfl)
      | lf =>
          have hbehind : mem (cur + 2) = mem endPos := by
            rw [← h.reaches]
            rfl
          have hread : readVersion (behindEnd .lf mem endPos) [a] =
              (versionOf a (mem endPos)).map fun version =>
                (version, bytesFrom mem 6 (endPos + 1)) := rfl
          rw [versionNumber, h.head, hbehind, hread, Option.map_map]
          exact Option.map_id'.symm
  | [a, b] =>
      have hminor : mem (cur + 2) = CR ∨ mem (cur + 2) = LF := by
        cases ending with
        | crlf => exact Or.inl h.tail.tail.head
        | lf => exact Or.inr h.tail.tail.head
      exact versionOf_lineEnd_minor (mem cur) hminor
  | a :: b :: c :: rest =>
      rw [h.versionNumber_eq, readVersion, Option.map_map]
      exact Option.map_id'.symm

/-! ### The status -/

/-- Three bytes that the scanner takes for a status. -/
def isStatus (d1 d2 d3 : UInt8) : Bool :=
  byteOf '1' ≤ d1 && d1 ≤ byteOf '9' && isDigit d2 && isDigit d3

def statusOf (d1 d2 d3 : UInt8) : HTTPStatusCode :=
  .ofCode (digitValue d1 * 100 + digitValue d2 * 10 + digitValue d3)

/-- `handleStatus` over the bytes that are left. -/
def HTTPResponse.readStatus (r : HTTPResponse) (rest : Bytes) : Bool × HTTPResponse :=
  match expect rest ' ' with
  | some (d1 :: d2 :: d3 :: rest) =>
      if isStatus d1 d2 d3 then
        (decide (rest.head? = some SP), { r with statusCode := statusOf d1 d2 d3 })
      else (false, r)
  | _ => (false, r)

theorem statusDigit_nil {mem : Nat → UInt8} {endPos cur : Nat} (h : Remaining mem endPos cur [])
    (low : UInt8) : statusDigit mem endPos cur low = none :=
  if_pos (h.nil_iff.mpr rfl)

theorem statusDigit_cons {mem : Nat → UInt8} {endPos cur : Nat} {d : UInt8} {rest : Bytes}
    (h : Remaining mem endPos cur (d :: rest)) (low : UInt8) :
    statusDigit mem endPos cur low =
      if low ≤ d && d ≤ byteOf '9' then some (cur + 1) else none := by
  unfold statusDigit
  rw [if_neg (fun hend => List.cons_ne_nil d rest (h.nil_iff.mp hend)), h.head]
  by_cases hlow : d < low
  · rw [if_pos hlow, if_neg]
    simp [UInt8.not_le.mpr hlow]
  · rw [if_neg hlow]
    by_cases hhigh : d > byteOf '9'
    · rw [if_pos hhigh, if_neg]
      simp [UInt8.not_le.mpr hhigh]
    · rw [if_neg hhigh, if_pos]
      simp [UInt8.not_lt.mp hlow, UInt8.not_lt.mp hhigh]

/-- The three digits of a status, one after the other. -/
theorem statusDigits_cons {mem : Nat → UInt8} {endPos cur : Nat} {d1 d2 d3 : UInt8} {rest : Bytes}
    (h : Remaining mem endPos cur (d1 :: d2 :: d3 :: rest)) :
    [byteOf '1', byteOf '0', byteOf '0'].foldlM (statusDigit mem endPos) cur =
      if isStatus d1 d2 d3 then some (cur + 3) else none := by
  have hdigit : ∀ d, (byteOf '0' ≤ d && d ≤ byteOf '9') = isDigit d := fun _ => rfl
  rw [List.foldlM_cons, statusDigit_cons h, isStatus]
  cases byteOf '1' ≤ d1 && d1 ≤ byteOf '9' with
  | false => rfl
  | true =>
      rw [if_pos rfl, Option.bind_eq_bind, Option.bind_some, List.foldlM_cons,
        statusDigit_cons h.tail, hdigit]
      cases isDigit d2 with
      | false => rfl
      | true =>
          rw [if_pos rfl, Option.bind_eq_bind, Option.bind_some, List.foldlM_cons,
            statusDigit_cons h.tail.tail, hdigit]
          cases isDigit d3 with
          | false => rfl
          | true => rfl

/-- Fewer than three bytes are no status. -/
theorem statusDigits_short {mem : Nat → UInt8} {endPos cur : Nat} {rest : Bytes}
    (h : Remaining mem endPos cur rest) (hshort : rest.length < 3) :
    [byteOf '1', byteOf '0', byteOf '0'].foldlM (statusDigit mem endPos) cur = none := by
  match rest with
  | [] =>
      rw [List.foldlM_cons, statusDigit_nil h]
      rfl
  | [d1] =>
      rw [List.foldlM_cons, statusDigit_cons h]
      split_ifs
      · rw [Option.bind_eq_bind, Option.bind_some, List.foldlM_cons, statusDigit_nil h.tail]
        rfl
      · rfl
  | [d1, d2] =>
      rw [List.foldlM_cons, statusDigit_cons h]
      split_ifs
      · rw [Option.bind_eq_bind, Option.bind_some, List.foldlM_cons, statusDigit_cons h.tail]
        split_ifs
        · rw [Option.bind_eq_bind, Option.bind_some, List.foldlM_cons, statusDigit_nil h.tail.tail]
          rfl
        · rfl
      · rfl
  | _ :: _ :: _ :: _ =>
      simp only [List.length_cons] at hshort
      omega

theorem handleStatus_eq_readStatus (r : HTTPResponse) {mem : Nat → UInt8} {endPos cur : Nat}
    {rest : Bytes} (h : Remaining mem endPos cur rest) :
    r.handleStatus mem endPos cur = r.readStatus rest := by
  unfold HTTPResponse.handleStatus HTTPResponse.readStatus
  rcases rel_cases (helper_rel h ' ') with ⟨hhelper, hexpect⟩ | ⟨next, left, hhelper, hexpect, hnext⟩
  · rw [hhelper, hexpect]
  · rw [hhelper, hexpect]
    dsimp only
    match left with
    | [] => rw [statusDigits_short hnext (by decide)]
    | [_] => rw [statusDigits_short hnext (by simp)]
    | [_, _] => rw [statusDigits_short hnext (by simp)]
    | d1 :: d2 :: d3 :: rest =>
        rw [statusDigits_cons hnext]
        dsimp only
        cases isStatus d1 d2 d3 with
        | false => rfl
        | true =>
            have hnumber : statusNumber mem (next + 3) =
                digitValue d1 * 100 + digitValue d2 * 10 + digitValue d3 := by
              rw [← hnext.head, ← hnext.tail.head, ← hnext.tail.tail.head]
              rfl
            have hspace : (next + 3 = endPos ∨ mem (next + 3) ≠ SP) ↔ ¬rest.head? = some SP := by
              have hbehind := hnext.tail.tail.tail
              rw [hbehind.nil_iff]
              cases rest with
              | nil => simp
              | cons b rest => simp [hbehind.head]
            rw [if_pos rfl, if_pos rfl]
            dsimp only
            rw [hnumber]
            by_cases hb : rest.head? = some SP
            · rw [if_neg (fun h => hspace.mp h hb), decide_eq_true hb]
              rfl
            · rw [if_pos (hspace.mpr hb), decide_eq_false hb]
              rfl

theorem statusDigit_eq_some {mem : Nat → UInt8} {endPos cur next : Nat} {low : UInt8}
    (h : statusDigit mem endPos cur low = some next) : next = cur + 1 := by
  unfold statusDigit at h
  split_ifs at h
  exact (Option.some.inj h).symm

/-- Where the end of the line is makes no difference to digits that lie apart from it. -/
theorem statusDigits_apart (mem : Nat → UInt8) {e1 e2 : Nat} (lows : Bytes) {cur : Nat}
    (h1 : e1 < cur) (h2 : cur + lows.length ≤ e2) :
    lows.foldlM (statusDigit mem e1) cur = lows.foldlM (statusDigit mem e2) cur ∧
      ∀ next, lows.foldlM (statusDigit mem e2) cur = some next → next = cur + lows.length := by
  induction lows generalizing cur with
  | nil => exact ⟨rfl, fun next hnext => (Option.some.inj hnext).symm⟩
  | cons low lows ih =>
      rw [List.length_cons] at h2
      have hone : statusDigit mem e1 cur low = statusDigit mem e2 cur low := by
        have hne1 : ¬cur = e1 := by omega
        have hne2 : ¬cur = e2 := by omega
        unfold statusDigit
        rw [if_neg hne1, if_neg hne2]
      rw [List.foldlM_cons, List.foldlM_cons, hone]
      cases hnext : statusDigit mem e2 cur low with
      | none => exact ⟨rfl, nofun⟩
      | some next =>
          rw [statusDigit_eq_some hnext]
          obtain ⟨hfold, hlast⟩ := @ih (cur + 1) (by omega) (by omega)
          refine ⟨hfold, fun last h => ?_⟩
          rw [hlast last h, List.length_cons]
          omega

/-- Behind the end of the line the scanner does not find it any more, and a status takes six bytes at
most. -/
theorem handleStatus_behind (r : HTTPResponse) (mem : Nat → UInt8) (endPos : Nat) :
    r.handleStatus mem endPos (endPos + 1) = r.readStatus (bytesFrom mem 6 (endPos + 1)) := by
  have hrest : Remaining mem (endPos + 7) (endPos + 1) (bytesFrom mem 6 (endPos + 1)) :=
    ⟨by rw [length_bytesFrom], by rw [length_bytesFrom]⟩
  have hhelper : helper mem endPos (endPos + 1) ' ' = helper mem (endPos + 7) (endPos + 1) ' ' := by
    have hnext : ¬endPos + 1 + 1 = endPos := by omega
    simp [helper, hnext]
  have hreach : ∀ next, helper mem (endPos + 7) (endPos + 1) ' ' = some next →
      endPos + 2 ≤ next ∧ next ≤ endPos + 3 := by
    intro next hnext
    unfold helper at hnext
    split_ifs at hnext <;> cases hnext <;> omega
  rw [← handleStatus_eq_readStatus r hrest]
  unfold HTTPResponse.handleStatus
  rw [hhelper]
  cases hnext : helper mem (endPos + 7) (endPos + 1) ' ' with
  | none => rfl
  | some next =>
      obtain ⟨hlow, hhigh⟩ := hreach next hnext
      have hapart : endPos < next := by omega
      have hroom : next + [byteOf '1', byteOf '0', byteOf '0'].length ≤ endPos + 7 := by
        simp only [List.length_cons, List.length_nil]
        omega
      obtain ⟨hdigits, hlast⟩ := statusDigits_apart mem _ hapart hroom
      dsimp only
      rw [hdigits]
      cases hfold : [byteOf '1', byteOf '0', byteOf '0'].foldlM (statusDigit mem (endPos + 7)) next with
      | none => rfl
      | some last =>
          have hposition : last = next + 3 := hlast last hfold
          have h1 : ¬last = endPos := by omega
          have h2 : ¬last = endPos + 7 := by omega
          simp only [h1, h2, false_or]

/-! ### The whole line -/

/-- `HandleFirstLine` for a request, over the text of the line. -/
def HTTPRequest.readFirstLine (r : HTTPRequest) (behind text : Bytes) : Bool × HTTPRequest :=
  match splitSpace text with
  | none => (false, r)
  | some (name, rest) =>
      match kMethodMap name with
      | none => (false, r)
      | some method =>
          match splitSpace rest with
          | none => (false, { r with method := method })
          | some (uri, rest) =>
              match (expectProtocol rest).bind (readVersion behind) with
              | none => (false, { r with method := method, uri := uri })
              | some (version, _) => (true, { r with method := method, uri := uri, version := version })

/-- `HandleFirstLine` for a response, over the text of the line. -/
def HTTPResponse.readFirstLine (r : HTTPResponse) (behind text : Bytes) : Bool × HTTPResponse :=
  match (expectProtocol text).bind (readVersion behind) with
  | none => (false, r)
  | some (version, rest) => { r with version := version }.readStatus rest

/-- The line end is not mistaken for a byte that the scanner expects. -/
theorem expect_line (text : Bytes) (ending : LineEnd) {ch : Char} (hcr : byteOf ch ≠ CR)
    (hlf : byteOf ch ≠ LF) :
    expect (text ++ ending.bytes) ch = (expect text ch).map (· ++ ending.bytes) := by
  match text with
  | [] =>
      cases ending with
      | crlf => simp [expect, LineEnd.bytes, hcr.symm, hlf.symm]
      | lf => simp [expect, LineEnd.bytes, hlf.symm]
  | [b] =>
      by_cases hb : b = byteOf ch
      · simp [expect, hb]
      · cases ending with
        | crlf => simp [expect, LineEnd.bytes, hb, hcr.symm]
        | lf => simp [expect, LineEnd.bytes, hb, hlf.symm]
  | b :: c :: rest =>
      by_cases hb : b = byteOf ch
      · simp [expect, hb]
      · by_cases hc : c = byteOf ch
        · simp [expect, hb, hc]
        · simp [expect, hb, hc]

theorem expectProtocol_line (text : Bytes) (ending : LineEnd) :
    expectProtocol (text ++ ending.bytes) = (expectProtocol text).map (· ++ ending.bytes) := by
  have hfold : ∀ (cs : List Char), (∀ c ∈ cs, byteOf c ≠ CR ∧ byteOf c ≠ LF) → ∀ text : Bytes,
      cs.foldlM expect (text ++ ending.bytes) =
        (cs.foldlM expect text).map (· ++ ending.bytes) := by
    intro cs hcs
    induction cs with
    | nil =>
        intro text
        rfl
    | cons c cs ih =>
        intro text
        obtain ⟨hcr, hlf⟩ := hcs c List.mem_cons_self
        rw [List.foldlM_cons, List.foldlM_cons, expect_line text ending hcr hlf]
        cases expect text c with
        | none => rfl
        | some rest => exact ih (fun c hc => hcs c (List.mem_cons_of_mem _ hc)) rest
  have hprotocol : ∀ c ∈ ['H', 'T', 'T', 'P', '/'], byteOf c ≠ CR ∧ byteOf c ≠ LF := by
    simp only [List.forall_mem_cons, List.not_mem_nil, false_imp_iff, implies_true, and_true]
    decide
  exact hfold _ hprotocol text

/-- A part of the line up to a space, and the position behind it. -/
theorem Remaining.split {mem : Nat → UInt8} {endPos cur : Nat} {before behind : Bytes}
    {ending : LineEnd} (h : Remaining mem endPos cur (before ++ SP :: behind ++ ending.bytes))
    (hbefore : SP ∉ before) :
    skipPastSpace mem endPos cur = cur + before.length + 1 ∧
      cur + before.length + 1 ≠ endPos ∧ bytesFrom mem before.length cur = before ∧
      Remaining mem endPos (cur + before.length + 1) (behind ++ ending.bytes) := by
  rw [List.append_assoc, List.cons_append] at h
  have hrest := h.drop.tail
  refine ⟨skipPastSpace_append h hbefore, fun hend => ?_, h.take, hrest⟩
  exact ending.bytes_ne_nil (List.append_eq_nil_iff.mp (hrest.nil_iff.mp hend)).2

/-- A line without a space. -/
theorem Remaining.skipPastSpace_end {mem : Nat → UInt8} {endPos cur : Nat} {text : Bytes}
    {ending : LineEnd} (h : Remaining mem endPos cur (text ++ ending.bytes)) (hnone : SP ∉ text) :
    skipPastSpace mem endPos cur = endPos := by
  apply skipPastSpace_of_notMem h
  rw [List.mem_append, not_or]
  exact ⟨hnone, SP_notMem_lineEnd ending⟩

/-- `HTTP/` in the buffer, over the text of the line. -/
theorem Remaining.helperProtocol_rel {mem : Nat → UInt8} {endPos cur : Nat} {text : Bytes}
    {ending : LineEnd} (h : Remaining mem endPos cur (text ++ ending.bytes)) :
    Option.Rel (fun next rest => Remaining mem endPos next (rest ++ ending.bytes))
      (helperProtocol mem endPos cur) (expectProtocol text) := by
  have hrel := Iomgr.helperProtocol_rel h
  rw [expectProtocol_line] at hrel
  rcases rel_cases hrel with ⟨hhelper, hexpect⟩ | ⟨next, rest, hhelper, hexpect, hnext⟩
  · rw [hhelper, Option.map_eq_none_iff.mp hexpect]
    exact Option.Rel.none
  · obtain ⟨left, hleft, rfl⟩ := Option.map_eq_some_iff.mp hexpect
    rw [hhelper, hleft]
    exact Option.Rel.some hnext

theorem HTTPRequest.handleFirstLine_eq (r : HTTPRequest) {mem : Nat → UInt8} {endPos : Nat}
    {text : Bytes} {ending : LineEnd} (h : Remaining mem endPos 0 (text ++ ending.bytes)) :
    r.handleFirstLine mem endPos = r.readFirstLine (behindEnd ending mem endPos) text := by
  unfold HTTPRequest.handleFirstLine HTTPRequest.readFirstLine
  dsimp only
  rcases space_cases text with hnone | ⟨name, rest, hname, rfl⟩
  · rw [h.skipPastSpace_end hnone, if_pos rfl, splitSpace_of_notMem hnone]
  · obtain ⟨hcur, hend, hbytes, hrest⟩ := h.split hname
    rw [Nat.zero_add] at hcur hend hrest
    rw [hcur, if_neg hend, splitSpace_append hname, Nat.add_sub_cancel, hbytes]
    dsimp only
    cases kMethodMap name with
    | none => rfl
    | some method =>
        dsimp only
        rcases space_cases rest with hnone | ⟨uri, rest, huri, rfl⟩
        · rw [hrest.skipPastSpace_end hnone, if_pos rfl, splitSpace_of_notMem hnone]
        · obtain ⟨hcur, hend, hbytes, hrest⟩ := hrest.split huri
          have hsize : name.length + 1 + uri.length + 1 - (name.length + 1) - 1 = uri.length := by
            omega
          rw [hcur, if_neg hend, splitSpace_append huri, hsize, hbytes]
          dsimp only
          rcases rel_cases hrest.helperProtocol_rel with
            ⟨hhelper, hexpect⟩ | ⟨next, left, hhelper, hexpect, hnext⟩
          · rw [hhelper, hexpect]
            rfl
          · rw [hhelper, hexpect]
            dsimp only
            rw [kVersionMap_eq_readVersion hnext, Option.bind_some]
            cases readVersion (behindEnd ending mem endPos) left with
            | none => rfl
            | some _ => rfl

/-- The end of the line does not change what is read of a status. -/
theorem HTTPResponse.readStatus_line (r : HTTPResponse) (rest : Bytes) (ending : LineEnd) :
    r.readStatus (rest ++ ending.bytes) = r.readStatus rest := by
  unfold HTTPResponse.readStatus
  rw [expect_line rest ending (by decide) (by decide)]
  have hcr : isDigit CR = false := by decide
  have hlf : isDigit LF = false := by decide
  cases expect rest ' ' with
  | none => rfl
  | some left =>
      rw [Option.map_some]
      match left with
      | [] =>
          cases ending with
          | crlf => rfl
          | lf => rfl
      | [d1] =>
          cases ending with
          | crlf => simp [LineEnd.bytes, isStatus, hcr]
          | lf => rfl
      | [d1, d2] =>
          cases ending with
          | crlf => simp [LineEnd.bytes, isStatus, hcr]
          | lf => simp [LineEnd.bytes, isStatus, hlf]
      | d1 :: d2 :: d3 :: left =>
          have hspace : (left ++ ending.bytes).head? = some SP ↔ left.head? = some SP := by
            cases left with
            | nil =>
                cases ending with
                | crlf => decide
                | lf => decide
            | cons b left => rfl
          simp only [List.cons_append, hspace]

/-- What follows the version in the buffer. -/
theorem handleStatus_readVersion (r : HTTPResponse) {mem : Nat → UInt8} {endPos cur : Nat}
    {text rest : Bytes} {ending : LineEnd} {version : HTTPVersion}
    (h : Remaining mem endPos cur (text ++ ending.bytes))
    (hread : readVersion (behindEnd ending mem endPos) text = some (version, rest)) :
    r.handleStatus mem endPos (cur + 3) = r.readStatus rest := by
  match text with
  | [] => cases hread
  | [a] =>
      cases ending with
      | crlf => cases hread
      | lf =>
          obtain ⟨_, _, hrest⟩ := Option.map_eq_some_iff.mp hread
          have hcur : cur + 3 = endPos + 1 := by
            rw [← h.reaches]
            rfl
          rw [hcur, handleStatus_behind, ← (Prod.mk.inj hrest).2]
  | [a, b] => cases hread
  | a :: b :: c :: left =>
      obtain ⟨_, _, hrest⟩ := Option.map_eq_some_iff.mp hread
      have hleft : Remaining mem endPos (cur + 3) (left ++ ending.bytes) := h.tail.tail.tail
      rw [handleStatus_eq_readStatus r hleft, r.readStatus_line, (Prod.mk.inj hrest).2]

theorem HTTPResponse.handleFirstLine_eq (r : HTTPResponse) {mem : Nat → UInt8} {endPos : Nat}
    {text : Bytes} {ending : LineEnd} (h : Remaining mem endPos 0 (text ++ ending.bytes)) :
    r.handleFirstLine mem endPos = r.readFirstLine (behindEnd ending mem endPos) text := by
  unfold HTTPResponse.handleFirstLine HTTPResponse.readFirstLine
  rcases rel_cases h.helperProtocol_rel with
    ⟨hhelper, hexpect⟩ | ⟨next, left, hhelper, hexpect, hnext⟩
  · rw [hhelper, hexpect]
    rfl
  · rw [hhelper, hexpect, Option.bind_some]
    dsimp only
    rw [kVersionMap_eq_readVersion hnext]
    cases hread : readVersion (behindEnd ending mem endPos) left with
    | none => rfl
    | some read => exact handleStatus_readVersion _ hnext hread

end Iomgr
