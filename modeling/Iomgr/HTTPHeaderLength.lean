import Iomgr.HTTPRequest

/-!
The `Content-Length` of a request whose headers are added one by one. `AddHeader` looks for keys that
start with the lower-case name, reads the value with `atoi` to the end of the digits in storage, and
takes -1 for no number. What the name of a header says is another question: it is compared in full
and without case.
-/

namespace Iomgr.HTTPRequest

/-- `std::tolower` of the C locale. -/
def toLower (b : UInt8) : UInt8 := if 65 ≤ b && b ≤ 90 then b + 32 else b

/-- The key is `content-length`, whatever its case. -/
def namesLength (key : Slice) : Bool := key.toBytes.map toLower == kContentLength

/-- A decimal number that an `int` holds. -/
def IsNumber (text : Bytes) : Prop :=
  text ≠ [] ∧ (∀ b ∈ text, isDigit b = true) ∧ digitsValue text < 2 ^ 31

def addHeaders (headers : List (Slice × Slice)) : HTTPRequest :=
  headers.foldl (fun r h => r.addHeader h.1 h.2) new

/-- The first header with the name of the length. -/
def firstNamed (headers : List (Slice × Slice)) : Option (Slice × Slice) :=
  headers.find? fun h => namesLength h.1

/-- The length is known if and only if a header names it, and is the number of the first that
does. -/
def LengthRecognised (headers : List (Slice × Slice)) : Prop :=
  ((addHeaders headers).contentLength ≠ kUnset ↔ ∃ h ∈ headers, namesLength h.1 = true) ∧
  ∀ h, firstNamed headers = some h → IsNumber h.2.toBytes →
    (addHeaders headers).contentLength = digitsValue h.2.toBytes

/-- The number of the value, as a `size_t`. -/
def valueReading (value : Slice) : Nat := sizeOfInt (atoi value.data)

/-- The key starts with the lower-case name and the number is not -1. -/
def counts (h : Slice × Slice) : Bool :=
  decide (kContentLength <+: h.1.toBytes) && valueReading h.2 != kUnset

def firstCounted (headers : List (Slice × Slice)) : Option (Slice × Slice) :=
  headers.find? counts

/-- No header names the length and none counts; or the first that counts has the number of the first
that names it. -/
def NamedAreCounted (headers : List (Slice × Slice)) : Prop :=
  match firstNamed headers, firstCounted headers with
  | none, none => True
  | some named, some counted =>
      IsNumber named.2.toBytes → valueReading counted.2 = digitsValue named.2.toBytes
  | _, _ => False

theorem addHeader_contentLength_of_ne {r : HTTPRequest} (h : r.contentLength ≠ kUnset)
    (key value : Slice) : (r.addHeader key value).contentLength = r.contentLength :=
  if_neg fun hcond => h hcond.1

theorem addHeader_contentLength {r : HTTPRequest} (h : r.contentLength = kUnset)
    (key value : Slice) : (r.addHeader key value).contentLength =
      if counts (key, value) then valueReading value else kUnset := by
  show announced r.contentLength key value = _
  by_cases hkey : kContentLength <+: key.toBytes
  · rw [announced, if_pos ⟨h, matchLength_eq_length_iff.mpr hkey⟩]
    simp [counts, hkey, valueReading]
  · rw [announced, if_neg fun hcond => hkey (matchLength_eq_length_iff.mp hcond.2)]
    simp [counts, hkey, h]

/-- A length that is known is not changed by further headers. -/
theorem foldl_contentLength_of_ne (headers : List (Slice × Slice)) :
    ∀ r : HTTPRequest, r.contentLength ≠ kUnset →
      (headers.foldl (fun r h => r.addHeader h.1 h.2) r).contentLength = r.contentLength := by
  induction headers with
  | nil => exact fun r _ => rfl
  | cons h headers ih =>
      intro r hr
      have hsame := addHeader_contentLength_of_ne hr h.1 h.2
      rw [List.foldl_cons, ih _ (hsame.symm ▸ hr), hsame]

/-- The first header that counts decides. -/
theorem foldl_contentLength (headers : List (Slice × Slice)) :
    ∀ r : HTTPRequest, r.contentLength = kUnset →
      (headers.foldl (fun r h => r.addHeader h.1 h.2) r).contentLength =
        ((firstCounted headers).map fun h => valueReading h.2).getD kUnset := by
  induction headers with
  | nil => exact fun r hr => hr
  | cons h headers ih =>
      intro r hr
      have hadd := addHeader_contentLength hr h.1 h.2
      rw [List.foldl_cons, firstCounted]
      by_cases hcounts : counts h = true
      · rw [List.find?_cons_of_pos hcounts]
        rw [if_pos hcounts] at hadd
        have hread : valueReading h.2 ≠ kUnset := by
          simp only [counts, Bool.and_eq_true, bne_iff_ne] at hcounts
          exact hcounts.2
        rw [foldl_contentLength_of_ne headers _ (hadd.symm ▸ hread), hadd]
        rfl
      · rw [List.find?_cons_of_neg hcounts]
        rw [if_neg hcounts] at hadd
        exact ih _ hadd

theorem contentLength_addHeaders (headers : List (Slice × Slice)) :
    (addHeaders headers).contentLength =
      ((firstCounted headers).map fun h => valueReading h.2).getD kUnset :=
  foldl_contentLength headers new rfl

/-- For every list of headers: the length is recognised as the names of the headers say if and only
if the headers that count are those named. -/
theorem length_recognised_iff (headers : List (Slice × Slice)) :
    LengthRecognised headers ↔ NamedAreCounted headers := by
  have hnamed : (∃ h ∈ headers, namesLength h.1 = true) ↔ ∃ h, firstNamed headers = some h := by
    rw [← Option.isSome_iff_exists, firstNamed, List.find?_isSome]
  have hcounted : ∀ h, firstCounted headers = some h → valueReading h.2 ≠ kUnset := by
    intro h hh
    have hcounts := List.find?_some hh
    simp only [counts, Bool.and_eq_true, bne_iff_ne] at hcounts
    exact hcounts.2
  rw [LengthRecognised, NamedAreCounted, hnamed, contentLength_addHeaders]
  cases hfirst : firstNamed headers with
  | none =>
      cases hcount : firstCounted headers with
      | none => simp
      | some c => simp [hcounted c hcount]
  | some h =>
      cases hcount : firstCounted headers with
      | none => simp
      | some c => simp [hcounted c hcount]

/-- A request with the header `Content-Length: 5`. -/
theorem capital_length_missed :
    let header : Slice × Slice :=
      (⟨bytesOf ['C', 'o', 'n', 't', 'e', 'n', 't', '-', 'L', 'e', 'n', 'g', 't', 'h'], 14⟩,
        ⟨bytesOf ['5'], 1⟩)
    namesLength header.1 = true ∧ IsNumber header.2.toBytes ∧
      (addHeaders [header]).contentLength = kUnset ∧ ¬LengthRecognised [header] := by
  refine ⟨by decide, ⟨by decide, List.forall_mem_singleton.mpr (by decide), by decide⟩, by decide,
    fun hrec => ?_⟩
  refine absurd (hrec.1.mpr ⟨_, List.mem_singleton_self _, by decide⟩) ?_
  decide

end Iomgr.HTTPRequest
