import Iomgr.HTTPCutLine
import Iomgr.HTTPReads
import Mathlib.Order.Interval.Set.Defs

/-!
Where the functions that handle a line read. Before each byte of a first line the scanner asks whether
the line is at its end, but for the digits of the version; and the number in the value of a header is
read on until a byte is not part of it.
-/

namespace Iomgr

namespace Traced

open Reading

variable {mem : Nat → UInt8} {endPos cur : Nat}

/-! ### Guarded scans -/

theorem readsIn_scanWhile (p : UInt8 → Bool) {n : Nat} (h : cur + n ≤ endPos) :
    ReadsIn mem (Set.Iio endPos) (scanWhile p n cur) := by
  induction n generalizing cur with
  | zero => exact readsIn_pure cur
  | succ n ih =>
      rw [scanWhile, readsIn_bind, readsIn_get]
      refine ⟨Set.mem_Iio.mpr (by omega), ?_⟩
      split_ifs
      · exact ih (by omega)
      · exact readsIn_pure cur

theorem readsIn_bytesFrom {n pos : Nat} (h : pos + n ≤ endPos) :
    ReadsIn mem (Set.Iio endPos) (bytesFrom n pos) := by
  induction n generalizing pos with
  | zero => exact readsIn_pure []
  | succ n ih =>
      rw [bytesFrom, readsIn_bind, readsIn_get, readsIn_bind]
      exact ⟨Set.mem_Iio.mpr (by omega), ih (by omega), readsIn_pure _⟩

theorem readsIn_skipPastSpace (h : cur ≤ endPos) :
    ReadsIn mem (Set.Iio endPos) (skipPastSpace endPos cur) := by
  rw [skipPastSpace, readsIn_bind]
  exact ⟨readsIn_scanWhile _ (by omega), readsIn_pure _⟩

/-- The reads lie before the end, and what is found does not lie behind it. -/
structure Guarded (mem : Nat → UInt8) (endPos : Nat) (c : LineReading (Option Nat)) : Prop where
  within : ReadsIn mem (Set.Iio endPos) c
  bounded : ∀ next, c.eval mem = some next → next ≤ endPos

theorem helper_guarded (h : cur ≤ endPos) (ch : Char) : Guarded mem endPos (helper endPos cur ch) where
  within := by
    unfold helper
    split_ifs with hend hnext
    · exact readsIn_pure none
    · rw [readsIn_bind, readsIn_get]
      refine ⟨Set.mem_Iio.mpr (by omega), ?_⟩
      split_ifs <;> exact readsIn_pure _
    · rw [readsIn_bind, readsIn_get]
      refine ⟨Set.mem_Iio.mpr (by omega), ?_⟩
      split_ifs
      · exact readsIn_pure _
      · rw [readsIn_bind, readsIn_get]
        exact ⟨Set.mem_Iio.mpr (by omega), readsIn_pure _⟩
  bounded next hnext := by
    rw [eval_helper, Iomgr.helper] at hnext
    split_ifs at hnext <;> cases hnext <;> omega

theorem statusDigit_guarded (h : cur ≤ endPos) (low : UInt8) :
    Guarded mem endPos (statusDigit endPos cur low) where
  within := by
    unfold statusDigit
    split_ifs with hend
    · exact readsIn_pure none
    · rw [readsIn_bind, readsIn_get]
      refine ⟨Set.mem_Iio.mpr (by omega), ?_⟩
      split_ifs
      · exact readsIn_pure none
      · rw [readsIn_bind, readsIn_get]
        exact ⟨Set.mem_Iio.mpr (by omega), readsIn_pure _⟩
  bounded next hnext := by
    rw [eval_statusDigit, Iomgr.statusDigit] at hnext
    split_ifs at hnext
    cases hnext
    omega

theorem each_guarded {γ : Type} {step : Nat → γ → LineReading (Option Nat)}
    (hstep : ∀ cur ≤ endPos, ∀ c, Guarded mem endPos (step cur c)) (cs : List γ) (h : cur ≤ endPos) :
    Guarded mem endPos (each step cs cur) := by
  induction cs generalizing cur with
  | nil => exact ⟨readsIn_pure _, fun next hnext => Option.some.inj hnext ▸ h⟩
  | cons c cs ih =>
      obtain ⟨hwithin, hbounded⟩ := hstep cur h c
      cases hnext : (step cur c).eval mem with
      | none =>
          refine ⟨?_, fun next hlast => ?_⟩
          · rw [each, readsIn_bind, hnext]
            exact ⟨hwithin, readsIn_pure none⟩
          · rw [each, eval_bind, hnext] at hlast
            cases hlast
      | some next =>
          have hrest := ih (hbounded next hnext)
          refine ⟨?_, fun last hlast => ?_⟩
          · rw [each, readsIn_bind, hnext]
            exact ⟨hwithin, hrest.within⟩
          · rw [each, eval_bind, hnext] at hlast
            exact hrest.bounded last hlast

theorem helperProtocol_guarded (h : cur ≤ endPos) :
    Guarded mem endPos (helperProtocol endPos cur) :=
  each_guarded (fun _ hcur ch => helper_guarded hcur ch) _ h

/-- The digits of the version are read without a look at the end of the line. -/
theorem readsIn_versionNumber :
    ReadsIn mem (Set.Iio endPos) (versionNumber cur) ↔ cur + 2 < endPos := by
  rw [versionNumber, readsIn_bind, readsIn_get, readsIn_bind, readsIn_get]
  constructor
  · exact fun h => h.2.1
  · exact fun h => ⟨Set.mem_Iio.mpr (by omega), h, readsIn_pure _⟩

theorem readsIn_handleStatus (r : HTTPResponse) (h : cur ≤ endPos) (hpos : 0 < endPos) :
    ReadsIn mem (Set.Iio endPos) (handleStatus r endPos cur) := by
  have hhelper : Guarded mem endPos (helper endPos cur ' ') := helper_guarded h ' '
  rw [handleStatus, readsIn_bind]
  refine ⟨hhelper.within, ?_⟩
  cases hspace : (helper endPos cur ' ').eval mem with
  | none => exact readsIn_pure _
  | some next =>
      have heach : Guarded mem endPos
          (each (statusDigit endPos) [byteOf '1', byteOf '0', byteOf '0'] next) :=
        each_guarded (fun _ hcur low => statusDigit_guarded hcur low) _
          (hhelper.bounded next hspace)
      dsimp only
      rw [readsIn_bind]
      refine ⟨heach.within, ?_⟩
      cases hdigits : (each (statusDigit endPos) [byteOf '1', byteOf '0', byteOf '0'] next).eval mem with
      | none => exact readsIn_pure _
      | some last =>
          have hlast := heach.bounded last hdigits
          dsimp only
          rw [readsIn_bind, statusNumber, readsIn_bind, readsIn_bind, readsIn_bind]
          simp only [readsIn_get, Set.mem_Iio]
          refine ⟨⟨by omega, by omega, by omega, readsIn_pure _⟩, ?_⟩
          split_ifs with hend
          · exact readsIn_pure _
          · rw [readsIn_bind, readsIn_get]
            exact ⟨Set.mem_Iio.mpr (by omega), readsIn_pure _⟩

end Traced

/-! ### First lines -/

/-- What is left of the text of a request line where its version is read. -/
def HTTPRequest.beforeVersion (text : Bytes) : Option Bytes :=
  match splitSpace text with
  | none => none
  | some (name, rest) =>
      match kMethodMap name with
      | none => none
      | some _ =>
          match splitSpace rest with
          | none => none
          | some (_, rest) => expectProtocol rest

theorem HTTPRequest.beforeVersion_eq_some_iff {text left : Bytes} :
    HTTPRequest.beforeVersion text = some left ↔ ∃ method m uri w, methodName method = some m ∧
      SP ∉ uri ∧ text = m ++ SP :: (uri ++ SP :: w) ∧
      Spells ['H', 'T', 'T', 'P', '/'] w left := by
  constructor
  · intro h
    unfold HTTPRequest.beforeVersion at h
    split at h
    · cases h
    · next name rest hname =>
        split at h
        · cases h
        · next method hmethod =>
            split at h
            · cases h
            · next uri w huri =>
                obtain ⟨_, rfl⟩ := splitSpace_eq_some_iff.mp hname
                obtain ⟨hspace, rfl⟩ := splitSpace_eq_some_iff.mp huri
                exact ⟨method, name, uri, w, kMethodMap_eq_some_iff.mp hmethod, hspace, rfl,
                  foldlM_expect_eq_some_iff.mp h⟩
  · rintro ⟨method, m, uri, w, hmethod, huri, rfl, hspells⟩
    rw [HTTPRequest.beforeVersion, splitSpace_append (SP_notMem_methodName hmethod)]
    dsimp only
    rw [kMethodMap_eq_some_iff.mpr hmethod]
    dsimp only
    rw [splitSpace_append huri]
    exact foldlM_expect_eq_some_iff.mpr hspells

namespace Traced

open Reading

variable {mem : Nat → UInt8} {endPos : Nat} {text : Bytes} {ending : LineEnd}

/-- Where the version is read, the digits lie in the line when three bytes of it are left. -/
theorem readsIn_versionNumber_of_remaining {cur : Nat} {left : Bytes}
    (h : Remaining mem endPos cur (left ++ ending.bytes)) :
    ReadsIn mem (Set.Iio endPos) (versionNumber cur) ↔ 3 ≤ left.length + ending.bytes.length := by
  have hreaches := h.reaches
  rw [List.length_append] at hreaches
  rw [readsIn_versionNumber]
  omega

theorem readsIn_handleRequestLine (r : HTTPRequest)
    (h : Remaining mem endPos 0 (text ++ ending.bytes)) :
    ReadsIn mem (Set.Iio endPos) (handleRequestLine r endPos) ↔
      ∀ left, HTTPRequest.beforeVersion text = some left →
        3 ≤ left.length + ending.bytes.length := by
  unfold handleRequestLine HTTPRequest.beforeVersion
  rw [readsIn_bind, and_iff_right (readsIn_skipPastSpace (Nat.zero_le _)), eval_skipPastSpace]
  rcases space_cases text with hnone | ⟨name, rest, hname, rfl⟩
  · rw [h.skipPastSpace_end hnone, if_pos rfl, splitSpace_of_notMem hnone]
    exact iff_of_true (readsIn_pure _) fun left hleft => by cases hleft
  · obtain ⟨hcur, hend, hbytes, hrest⟩ := h.split hname
    rw [Nat.zero_add] at hcur hend hrest
    have hreaches := hrest.reaches
    rw [hcur, if_neg hend, splitSpace_append hname, readsIn_bind, eval_bytesFrom,
      Nat.add_sub_cancel, hbytes, and_iff_right (readsIn_bytesFrom (by omega))]
    dsimp only
    cases kMethodMap name with
    | none => exact iff_of_true (readsIn_pure _) fun left hleft => by cases hleft
    | some method =>
        dsimp only
        rw [readsIn_bind, and_iff_right (readsIn_skipPastSpace (by omega)), eval_skipPastSpace]
        rcases space_cases rest with hnone | ⟨uri, rest, huri, rfl⟩
        · rw [hrest.skipPastSpace_end hnone, if_pos rfl, splitSpace_of_notMem hnone]
          exact iff_of_true (readsIn_pure _) fun left hleft => by cases hleft
        · obtain ⟨hcur, hend, -, hrest⟩ := hrest.split huri
          have hreaches := hrest.reaches
          have hprotocol : Guarded mem endPos
              (helperProtocol endPos (name.length + 1 + uri.length + 1)) :=
            helperProtocol_guarded (by omega)
          rw [hcur, if_neg hend, splitSpace_append huri, readsIn_bind,
            and_iff_right (readsIn_bytesFrom (by omega)), readsIn_bind,
            and_iff_right hprotocol.within, eval_helperProtocol]
          dsimp only
          rcases rel_cases hrest.helperProtocol_rel with
            ⟨hhelper, hexpect⟩ | ⟨next, left, hhelper, hexpect, hnext⟩
          · rw [hhelper, hexpect]
            exact iff_of_true (readsIn_pure _) fun left hleft => by cases hleft
          · rw [hhelper, hexpect]
            dsimp only
            rw [readsIn_bind, readsIn_versionNumber_of_remaining hnext]
            constructor
            · rintro ⟨hlength, -⟩ left' hleft
              cases hleft
              exact hlength
            · refine fun hlength => ⟨hlength left rfl, ?_⟩
              split <;> exact readsIn_pure _

theorem readsIn_handleStatusLine (r : HTTPResponse)
    (h : Remaining mem endPos 0 (text ++ ending.bytes)) :
    ReadsIn mem (Set.Iio endPos) (handleStatusLine r endPos) ↔
      ∀ left, expectProtocol text = some left → 3 ≤ left.length + ending.bytes.length := by
  unfold handleStatusLine
  rw [readsIn_bind, and_iff_right (helperProtocol_guarded (Nat.zero_le _)).within,
    eval_helperProtocol]
  rcases rel_cases h.helperProtocol_rel with
    ⟨hhelper, hexpect⟩ | ⟨next, left, hhelper, hexpect, hnext⟩
  · rw [hhelper, hexpect]
    exact iff_of_true (readsIn_pure _) fun left hleft => by cases hleft
  · rw [hhelper, hexpect]
    dsimp only
    rw [readsIn_bind, readsIn_versionNumber_of_remaining hnext]
    constructor
    · rintro ⟨hlength, -⟩ left' hleft
      cases hleft
      exact hlength
    · intro hlength
      have hleft := hlength left rfl
      have hreaches := hnext.reaches
      rw [List.length_append] at hreaches
      refine ⟨hleft, ?_⟩
      split
      · exact readsIn_pure _
      · exact readsIn_handleStatus _ (by omega) (by omega)

/-! ### Numbers -/

theorem readsIn_numberWhile (p : UInt8 → Bool) {n cur : Nat} :
    ReadsIn mem (Set.Iio endPos) (numberWhile p n cur) ↔
      Iomgr.scanWhile p mem n cur < endPos := by
  induction n generalizing cur with
  | zero =>
      rw [numberWhile, readsIn_bind, readsIn_get]
      exact and_iff_left (readsIn_pure cur)
  | succ n ih =>
      rw [numberWhile, readsIn_bind, readsIn_get, eval_get, Iomgr.scanWhile]
      split_ifs
      · have hlow := (scanWhile_bounds p mem n (cur + 1)).1
        rw [ih, Set.mem_Iio]
        omega
      · exact and_iff_left (readsIn_pure cur)

/-- The number is read within the line exactly when not all that is left of the line is white
space. -/
theorem readsIn_atoi {pos : Nat} (hpos : pos < endPos) (hfits : endPos ≤ kMaxHeaderLength)
    (hlast : mem (endPos - 1) = LF) :
    ReadsIn mem (Set.Iio endPos) (atoi pos) ↔
      ∃ i, pos ≤ i ∧ i < endPos ∧ isSpace (mem i) = false := by
  have hreads : ReadsIn mem (Set.Iio endPos) (atoi pos) ↔
      ReadsIn mem (Set.Iio endPos) (strtol pos) := by
    rw [atoi, readsIn_bind]
    exact and_iff_left (readsIn_pure _)
  have hstart := scanWhile_bounds isSpace mem (kMaxHeaderLength - pos) pos
  rw [hreads, strtol, readsIn_bind, readsIn_numberWhile]
  constructor
  · rintro ⟨hcur, -⟩
    exact ⟨_, hstart.1, hcur, scanWhile_stop (Nat.ne_of_lt (by omega))⟩
  · rintro ⟨i, hlow, hhigh, hi⟩
    have hcur := scanWhile_le isSpace mem (kMaxHeaderLength - pos) hlow hi
    rw [eval_numberWhile, readsIn_bind, readsIn_get, eval_get]
    generalize Iomgr.scanWhile isSpace mem (kMaxHeaderLength - pos) pos = cur at hstart hcur ⊢
    refine ⟨by omega, Set.mem_Iio.mpr (by omega), ?_⟩
    dsimp only
    generalize hbeg : (if cur < kMaxHeaderLength ∧ (mem cur = byteOf '-' ∨ mem cur = byteOf '+') then
      cur + 1 else cur) = beg
    have hsign : beg ≤ endPos - 1 := by
      split_ifs at hbeg with hsigned
      · have hne : cur ≠ endPos - 1 := by
          rintro rfl
          rw [hlast] at hsigned
          exact absurd hsigned.2 (by decide)
        omega
      · omega
    have hdigits := scanWhile_le isDigit mem (kMaxHeaderLength - beg) hsign (by rw [hlast]; rfl)
    have hfirst := (scanWhile_bounds isDigit mem (kMaxHeaderLength - beg) beg).1
    rw [readsIn_bind, readsIn_numberWhile, eval_numberWhile, readsIn_bind]
    exact ⟨by omega, readsIn_bytesFrom (by omega), readsIn_pure _⟩

theorem readsIn_matchLength (ks : Bytes) {pos size : Nat} (h : pos + size ≤ endPos) :
    ReadsIn mem (Set.Iio endPos) (matchLength ks pos size) := by
  induction ks generalizing pos size with
  | nil => cases size <;> exact readsIn_pure 0
  | cons k ks ih =>
      cases size with
      | zero => exact readsIn_pure 0
      | succ size =>
          rw [matchLength, readsIn_bind, readsIn_get]
          refine ⟨Set.mem_Iio.mpr (by omega), ?_⟩
          split_ifs
          · exact readsIn_pure 0
          · rw [readsIn_bind]
            exact ⟨ih (by omega), readsIn_pure _⟩

end Traced

/-! ### Header lines -/

/-- The value of the header line has a byte that is not white space. -/
def HTTPParser.HasNumber (line : Bytes) : Prop :=
  ∃ b ∈ line.drop (HTTPParser.valueStart line), isSpace b = false

namespace Traced

open Reading HTTPParser

variable {mem : Nat → UInt8} {line : Bytes}

theorem mem_bytesFrom {n pos : Nat} {b : UInt8} :
    b ∈ Iomgr.bytesFrom mem n pos ↔ ∃ i, pos ≤ i ∧ i < pos + n ∧ mem i = b := by
  induction n generalizing pos with
  | zero =>
      refine iff_of_false List.not_mem_nil ?_
      rintro ⟨i, hlow, hhigh, -⟩
      omega
  | succ n ih =>
      rw [Iomgr.bytesFrom, List.mem_cons, ih]
      constructor
      · rintro (rfl | ⟨i, hlow, hhigh, hi⟩)
        · exact ⟨pos, Nat.le_refl pos, by omega, rfl⟩
        · exact ⟨i, by omega, by omega, hi⟩
      · rintro ⟨i, hlow, hhigh, hi⟩
        rcases Nat.eq_or_lt_of_le hlow with rfl | hlow
        · exact Or.inl hi.symm
        · exact Or.inr ⟨i, hlow, by omega, hi⟩

/-- What is left of a line from a position in it on. -/
theorem remaining_drop (h : Remaining mem line.length 0 line) {k : Nat} (hk : k ≤ line.length) :
    Remaining mem line.length k (line.drop k) := by
  have hsplit : line.take k ++ line.drop k = line := List.take_append_drop k line
  rw [← hsplit] at h
  have hdrop := h.drop
  rw [hsplit, List.length_take, Nat.min_eq_left hk, Nat.zero_add] at hdrop
  exact hdrop

theorem hasNumber_iff (h : Remaining mem line.length 0 line)
    (hvalue : valueStart line ≤ line.length) :
    HasNumber line ↔
      ∃ i, valueStart line ≤ i ∧ i < line.length ∧ isSpace (mem i) = false := by
  have hbytes := (remaining_drop h hvalue).read
  rw [List.length_drop] at hbytes
  rw [HasNumber, ← hbytes]
  simp only [mem_bytesFrom]
  constructor
  · rintro ⟨b, ⟨i, hlow, hhigh, rfl⟩, hi⟩
    exact ⟨i, hlow, by omega, hi⟩
  · rintro ⟨i, hlow, hhigh, hi⟩
    exact ⟨mem i, ⟨i, hlow, by omega, rfl⟩, hi⟩

/-- The slices of a header line. -/
def keySpan (line : Bytes) : Span := ⟨0, (lineKey line).length⟩

def valueSpan (line : Bytes) (endLength : Nat) : Span :=
  ⟨valueStart line, line.length - valueStart line - endLength⟩

/-- A header of a request is read within its line, unless it is the first to announce the length and
has a value of white space. -/
theorem readsIn_addRequestHeader (r : HTTPRequest) (h : Remaining mem line.length 0 line)
    (hfits : line.length ≤ kMaxHeaderLength) (hvalue : valueStart line < line.length)
    (hlast : mem (line.length - 1) = LF) (endLength : Nat) :
    ReadsIn mem (Set.Iio line.length)
        (addRequestHeader r (keySpan line) (valueSpan line endLength)) ↔
      (r.contentLength = kUnset ∧ kContentLength <+: lineKey line → HasNumber line) := by
  have hkey := lineKey_length_le line
  have hline : Remaining mem line.length 0 (lineKey line ++ line.dropWhile (· != byteOf ':')) := by
    rw [lineKey, List.takeWhile_append_dropWhile]
    exact h
  have hreads : ReadsIn mem (Set.Iio line.length)
        (addRequestHeader r (keySpan line) (valueSpan line endLength)) ↔
      ReadsIn mem (Set.Iio line.length)
        (announced r.contentLength (keySpan line) (valueSpan line endLength)) := by
    rw [addRequestHeader, readsIn_bind, readsIn_bind, readsIn_bind]
    refine and_iff_left ⟨readsIn_bytesFrom ?_, readsIn_bytesFrom ?_, readsIn_pure _⟩
    · dsimp only [keySpan]
      omega
    · dsimp only [valueSpan]
      omega
  rw [hreads, announced]
  by_cases hunset : r.contentLength = kUnset
  · have hmatch : ReadsIn mem (Set.Iio line.length)
        (matchLength kContentLength (keySpan line).pos (keySpan line).size) :=
      readsIn_matchLength _ (by dsimp only [keySpan]; omega)
    have hnumber := readsIn_atoi hvalue hfits hlast
    rw [← hasNumber_iff h (Nat.le_of_lt hvalue)] at hnumber
    rw [if_pos hunset, readsIn_bind, and_iff_right hmatch, eval_matchLength, keySpan, hline.take,
      and_iff_right hunset]
    by_cases hprefix : kContentLength <+: lineKey line
    · rw [if_pos (matchLength_eq_length_iff.mpr hprefix), readsIn_bind, imp_iff_right hprefix]
      exact (and_iff_left (readsIn_pure _)).trans hnumber
    · rw [if_neg fun hlength => hprefix (matchLength_eq_length_iff.mp hlength)]
      exact iff_of_true (readsIn_pure _) fun h => absurd h hprefix
  · rw [if_neg hunset]
    exact iff_of_true (readsIn_pure _) fun h => absurd h.1 hunset

theorem readsIn_addResponseHeader (r : HTTPResponse) (hvalue : valueStart line < line.length)
    (endLength : Nat) :
    ReadsIn mem (Set.Iio line.length)
      (addResponseHeader r (keySpan line) (valueSpan line endLength)) := by
  have hkey := lineKey_length_le line
  rw [addResponseHeader, readsIn_bind, readsIn_bind]
  refine ⟨readsIn_bytesFrom ?_, readsIn_bytesFrom ?_, readsIn_pure _⟩
  · dsimp only [keySpan]
    omega
  · dsimp only [valueSpan]
    omega

theorem scanWhile_key (h : Remaining mem line.length 0 line) :
    Iomgr.scanWhile (· != byteOf ':') mem line.length 0 = (lineKey line).length := by
  have hscan := h.scanWhile_eq (· != byteOf ':')
  rw [Nat.sub_zero, Nat.zero_add] at hscan
  exact hscan

theorem scanWhile_value (h : Remaining mem line.length 0 line)
    (hcolon : (lineKey line).length < line.length) :
    Iomgr.scanWhile isBlank mem (line.length - ((lineKey line).length + 1))
      ((lineKey line).length + 1) = valueStart line :=
  (remaining_drop h hcolon).scanWhile_eq isBlank

/-- The value of a header line starts before the LF. -/
theorem valueStart_lt (h : Remaining mem line.length 0 line) (hlast : mem (line.length - 1) = LF)
    (hcolon : (lineKey line).length < line.length) : valueStart line < line.length := by
  have hkey := scanWhile_key h
  have hbefore : (lineKey line).length ≠ line.length - 1 := by
    intro heq
    have hend : Iomgr.scanWhile (· != byteOf ':') mem line.length 0 ≠ 0 + line.length := by omega
    have hbyte := scanWhile_stop hend
    rw [hkey, heq, hlast] at hbyte
    exact absurd hbyte (by decide)
  have hbeg : (lineKey line).length + 1 ≤ line.length - 1 := by omega
  have hvalue := scanWhile_le isBlank mem (line.length - ((lineKey line).length + 1)) hbeg
    (by rw [hlast]; rfl)
  rw [scanWhile_value h hcolon] at hvalue
  omega

/-- `AddHeader` reads the line up to the value itself, and leaves the slices to the message. -/
theorem readsIn_addHeader {T : Type} [HTTPMessage T] [TracedMessage T] (message : T)
    (h : Remaining mem line.length 0 line) (hpos : 0 < line.length)
    (endLength : Nat) :
    ReadsIn mem (Set.Iio line.length) (addHeader message line.length endLength) ↔
      (isBlank (mem 0) = false → (lineKey line).length < line.length →
        ReadsIn mem (Set.Iio line.length)
          (TracedMessage.addHeader message (keySpan line) (valueSpan line endLength))) := by
  have hkey := lineKey_length_le line
  rw [addHeader, readsIn_bind, readsIn_get, eval_get, and_iff_right (Set.mem_Iio.mpr hpos)]
  cases isBlank (mem 0) with
  | true => exact iff_of_true (readsIn_pure _) fun h => by cases h
  | false =>
      rw [if_neg Bool.false_ne_true, readsIn_bind, eval_scanWhile, scanWhile_key h,
        and_iff_right (readsIn_scanWhile _ (by omega)), imp_iff_right rfl]
      by_cases hend : (lineKey line).length = line.length
      · rw [if_pos hend]
        exact iff_of_true (readsIn_pure _) fun hlt => absurd hend (Nat.ne_of_lt hlt)
      · have hcolon : (lineKey line).length < line.length := by omega
        rw [if_neg hend, readsIn_bind, eval_scanWhile, scanWhile_value h hcolon,
          and_iff_right (readsIn_scanWhile _ (by omega)), imp_iff_right hcolon, readsIn_bind]
        exact and_iff_left (readsIn_pure _)

end Traced

end Iomgr
