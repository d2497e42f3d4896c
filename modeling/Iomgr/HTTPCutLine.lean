import Iomgr.HTTPFirstLineGrammar
import Iomgr.HTTPHeaderLine

/-!
First lines that are cut: the text ends with the first digit of a version. With a bare LF the second
digit is read from behind the line, and some byte there makes a version exactly when the first digit
lies between `*` and `C`. Everywhere else what is read of a first line is a matter of its text.
-/

namespace Iomgr

/-! ### Digits that can be completed -/

/-- The first digits that some second digit completes to a version. -/
def isMajor (b : UInt8) : Bool := 42 ≤ b && b ≤ 67

theorem charValue_eq (b : UInt8) :
    charValue b = if b.toNat < 128 then (b.toNat : Int) else (b.toNat : Int) - 256 := by
  unfold charValue
  rw [← Int8.toInt_toBitVec, BitVec.toInt_eq_toNat_cond]
  show (if 2 * b.toNat < 2 ^ 8 then (b.toNat : Int) else (b.toNat : Int) - (2 ^ 8 : Nat)) = _
  split_ifs <;> omega

theorem versionOf_of_not_isMajor {major : UInt8} (h : isMajor major = false) (minor : UInt8) :
    versionOf major minor = none := by
  have hmajor := charValue_eq major
  have hminor := charValue_eq minor
  have hlt := minor.toNat_lt
  have hlt' := major.toNat_lt
  simp only [isMajor, Bool.and_eq_false_iff, decide_eq_false_iff_not, UInt8.le_iff_toNat_le,
    UInt8.reduceToNat] at h
  apply kVersionMap_eq_none
  · split_ifs at hmajor hminor <;> omega
  · split_ifs at hmajor hminor <;> omega
  · split_ifs at hmajor hminor <;> omega

/-- The byte behind the line that completes the digit to version 1.0 or 2.0. -/
def completing (major : UInt8) : UInt8 := if major = 67 then 134 else 26 - 10 * major

theorem versionOf_completing {major : UInt8} (h : isMajor major = true) :
    ∃ version, version ≠ .kHTTP11 ∧ versionOf major (completing major) = some version := by
  have hall : ∀ n < 68, 42 ≤ n → versionOf (UInt8.ofNat n) (completing (UInt8.ofNat n)) = some .kHTTP10 ∨
      versionOf (UInt8.ofNat n) (completing (UInt8.ofNat n)) = some .kHTTP20 := by decide
  simp only [isMajor, Bool.and_eq_true, decide_eq_true_eq, UInt8.le_iff_toNat_le,
    UInt8.reduceToNat] at h
  have hmajor : UInt8.ofNat major.toNat = major := UInt8.ofNat_toNat
  have hversion := hall major.toNat (by omega) h.1
  rw [hmajor] at hversion
  rcases hversion with h10 | h20
  · exact ⟨.kHTTP10, nofun, h10⟩
  · exact ⟨.kHTTP20, nofun, h20⟩

/-! ### Texts that are cut -/

/-- The text ends with `HTTP/` and a first digit that can be completed. -/
def CutVersion (text : Bytes) : Prop :=
  ∃ major, Spells ['H', 'T', 'T', 'P', '/'] text [major] ∧ isMajor major = true

/-- The text of a request line that is cut. -/
def CutRequest (text : Bytes) : Prop :=
  ∃ method m uri w, methodName method = some m ∧ SP ∉ uri ∧ text = m ++ SP :: (uri ++ SP :: w) ∧
    CutVersion w

theorem readVersion_of_not_cut {text : Bytes} (h : ¬CutVersion text) (behind : Bytes) :
    (expectProtocol text).bind (readVersion behind) =
      (expectProtocol text).bind (readVersion []) := by
  cases hexpect : expectProtocol text with
  | none => rfl
  | some left =>
      rw [Option.bind_some, Option.bind_some]
      match left with
      | [] => rfl
      | [major] =>
          have hmajor : isMajor major = false := by
            rw [Bool.eq_false_iff]
            exact fun hm => h ⟨major, foldlM_expect_eq_some_iff.mp hexpect, hm⟩
          cases behind with
          | nil => rfl
          | cons minor rest =>
              rw [readVersion, versionOf_of_not_isMajor hmajor]
              rfl
      | [_, _] => rfl
      | _ :: _ :: _ :: _ => rfl

theorem readVersion_of_cut {text : Bytes} (h : CutVersion text) :
    (expectProtocol text).bind (readVersion []) = none ∧
      ∃ minor version, version ≠ .kHTTP11 ∧ ∀ rest,
        (expectProtocol text).bind (readVersion (minor :: rest)) = some (version, rest) := by
  obtain ⟨major, hspells, hmajor⟩ := h
  have hexpect : expectProtocol text = some [major] := foldlM_expect_eq_some_iff.mpr hspells
  obtain ⟨version, hne, hversion⟩ := versionOf_completing hmajor
  refine ⟨?_, completing major, version, hne, fun rest => ?_⟩
  · rw [hexpect]
    rfl
  · rw [hexpect, Option.bind_some, readVersion, hversion]
    rfl

/-- An LF behind the line completes no version. -/
theorem readVersion_behind_LF (text rest : Bytes) :
    (expectProtocol text).bind (readVersion (LF :: rest)) =
      (expectProtocol text).bind (readVersion []) := by
  cases expectProtocol text with
  | none => rfl
  | some left =>
      rw [Option.bind_some, Option.bind_some]
      match left with
      | [] => rfl
      | [major] =>
          rw [readVersion, versionOf_lineEnd_minor major (Or.inr rfl)]
          rfl
      | [_, _] => rfl
      | _ :: _ :: _ :: _ => rfl

/-- Only the version is read from behind the line. -/
theorem HTTPRequest.readFirstLine_congr (r : HTTPRequest) {behind behind' text : Bytes}
    (h : ∀ method m uri w, methodName method = some m → SP ∉ uri →
      text = m ++ SP :: (uri ++ SP :: w) →
      (expectProtocol w).bind (readVersion behind) = (expectProtocol w).bind (readVersion behind')) :
    r.readFirstLine behind text = r.readFirstLine behind' text := by
  unfold HTTPRequest.readFirstLine
  split
  · rfl
  · next name rest hname =>
      split
      · rfl
      · next method hmethod =>
          split
          · rfl
          · next uri w huri =>
              obtain ⟨_, rfl⟩ := splitSpace_eq_some_iff.mp hname
              obtain ⟨hspace, rfl⟩ := splitSpace_eq_some_iff.mp huri
              rw [h method name uri w (kMethodMap_eq_some_iff.mp hmethod) hspace rfl]

/-! ### Requests and responses alike -/

/-- A message whose first line is read off its text, and off what lies behind a text that is cut. -/
class ScannedFirstLine (T : Type) (First : outParam Type) [HTTPMessage T] [HTTPFields T First] where
  /-- The message of a fresh parser. -/
  fresh : T
  readFirstLine : T → Bytes → Bytes → Bool × T
  Takes : Bytes → Prop
  Cut : Bytes → Prop
  handleFirstLine_eq : ∀ (m : T) {mem : Nat → UInt8} {endPos : Nat} {text : Bytes}
    {ending : LineEnd}, Remaining mem endPos 0 (text ++ ending.bytes) →
    HTTPMessage.handleFirstLine m mem endPos = readFirstLine m (behindEnd ending mem endPos) text
  takes_iff : ∀ (m : T) (text : Bytes), (readFirstLine m [] text).1 = true ↔ Takes text
  read_of_not_cut : ∀ (m : T) {text : Bytes}, ¬Cut text → ∀ behind,
    readFirstLine m behind text = readFirstLine m [] text
  read_behind_LF : ∀ (m : T) (text rest : Bytes),
    readFirstLine m (LF :: rest) text = readFirstLine m [] text
  read_of_cut : ∀ {text : Bytes}, Cut text → ∃ minor, ∀ rest,
    HTTPFields.first (readFirstLine fresh (minor :: rest) text).2 ≠
      HTTPFields.first (readFirstLine fresh [] text).2

/-- Behind a CRLF, and behind a text that is not cut, nothing is read. -/
theorem ScannedFirstLine.read_behindEnd {T First : Type} [HTTPMessage T] [HTTPFields T First]
    [ScannedFirstLine T First] {text : Bytes} {ending : LineEnd}
    (h : ending = .lf → ¬ScannedFirstLine.Cut T text) (message : T) (mem : Nat → UInt8) (n : Nat) :
    ScannedFirstLine.readFirstLine message (behindEnd ending mem n) text =
      ScannedFirstLine.readFirstLine message [] text := by
  cases ending with
  | crlf => rfl
  | lf => exact ScannedFirstLine.read_of_not_cut message (h rfl) _

instance : ScannedFirstLine HTTPRequest (HTTPMethod × Bytes × HTTPVersion) where
  fresh := HTTPRequest.new
  readFirstLine := HTTPRequest.readFirstLine
  Takes := ScansRequest []
  Cut := CutRequest
  handleFirstLine_eq r _ _ _ _ h := r.handleFirstLine_eq h
  takes_iff _ _ := HTTPRequest.readFirstLine_true_iff
  read_of_not_cut r text h behind := r.readFirstLine_congr fun method m uri w hm huri htext =>
    readVersion_of_not_cut (fun hcut => h ⟨method, m, uri, w, hm, huri, htext, hcut⟩) behind
  read_behind_LF r text rest := r.readFirstLine_congr fun _ _ _ w _ _ _ =>
    readVersion_behind_LF w rest
  read_of_cut := by
    rintro text ⟨method, m, uri, w, hm, huri, rfl, hcut⟩
    obtain ⟨hnone, minor, version, hne, hversion⟩ := readVersion_of_cut hcut
    refine ⟨minor, fun rest heq => hne ?_⟩
    rw [HTTPRequest.new.readFirstLine_split hm huri, hversion,
      HTTPRequest.new.readFirstLine_split hm huri, hnone] at heq
    exact (Prod.mk.inj (Prod.mk.inj heq).2).2

/-- A status leaves the version alone. -/
theorem HTTPResponse.version_readStatus (r : HTTPResponse) (rest : Bytes) :
    (r.readStatus rest).2.version = r.version := by
  unfold HTTPResponse.readStatus
  split
  · split_ifs <;> rfl
  · rfl

instance : ScannedFirstLine HTTPResponse (HTTPStatusCode × HTTPVersion) where
  fresh := HTTPResponse.new
  readFirstLine := HTTPResponse.readFirstLine
  Takes := ScansResponse []
  Cut := CutVersion
  handleFirstLine_eq r _ _ _ _ h := r.handleFirstLine_eq h
  takes_iff _ _ := HTTPResponse.readFirstLine_true_iff
  read_of_not_cut r text h behind := by
    rw [HTTPResponse.readFirstLine, HTTPResponse.readFirstLine, readVersion_of_not_cut h]
  read_behind_LF r text rest := by
    rw [HTTPResponse.readFirstLine, HTTPResponse.readFirstLine, readVersion_behind_LF]
  read_of_cut := by
    intro text hcut
    obtain ⟨hnone, minor, version, hne, hversion⟩ := readVersion_of_cut hcut
    refine ⟨minor, fun rest heq => hne ?_⟩
    rw [HTTPResponse.readFirstLine, hversion, HTTPResponse.readFirstLine, hnone] at heq
    have hread := HTTPResponse.version_readStatus { HTTPResponse.new with version := version } rest
    exact hread.symm.trans (Prod.mk.inj heq).2

end Iomgr
