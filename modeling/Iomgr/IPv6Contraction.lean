import Iomgr.InetAddress
import Iomgr.LongestRun

/-!
The run of zero groups that the text of an IPv6 address leaves out. The loop of the source counts in
bytes and keeps its two ranges as pairs of integers; it is the pass for the longest run, in groups.
-/

namespace Iomgr

open LongestRun

/-- The `k`-th group of 16 bits is zero. -/
def ZeroGroup (bytes : Vector UInt8 16) (k : ℕ) : Prop := IsZeroAt bytes (2 * k)

instance (bytes : Vector UInt8 16) : DecidablePred (ZeroGroup bytes) :=
  fun k => inferInstanceAs (Decidable (IsZeroAt bytes (2 * k)))

/-! ### The ranges of the source -/

def rangeOf : Option (ℕ × ℕ) → Range
  | none => (0, -1)
  | some (b, l) => (2 * b, 2 * l)

/-- `cur_range` after the groups below `k`. -/
def curRangeOf (k : ℕ) : Option ℕ → Range
  | none => (0, -1)
  | some c => (2 * c, 2 * (k - c))

/-- A group that is in a run. -/
theorem extendRange_curRangeOf (k : ℕ) (cur : Option ℕ) :
    extendRange (curRangeOf k cur) (2 * k) = curRangeOf (k + 1) (some (cur.getD k)) := by
  cases cur with
  | none => simp [extendRange, curRangeOf]
  | some c =>
      have hne : ¬(2 * ((k : ℤ) - c) = -1) := by omega
      rw [extendRange, curRangeOf, if_neg hne, Option.getD_some, curRangeOf]
      congr 1
      omega

/-- The run that ends before `stop` is compared with the best one. -/
theorem maxRange_better (stop : ℕ) (best : Option (ℕ × ℕ)) (cur : Option ℕ) :
    (if (curRangeOf stop cur).2 > 2 ∧ (curRangeOf stop cur).2 > (rangeOf best).2 then
      curRangeOf stop cur else rangeOf best) = rangeOf (better 2 best stop cur) := by
  cases cur with
  | none => simp [curRangeOf, better]
  | some c =>
      have hlength : (rangeOf best).2 = -1 ∧ best.elim 0 Prod.snd = 0 ∨
          (rangeOf best).2 = 2 * (best.elim 0 Prod.snd : ℕ) := by
        cases best with
        | none => exact Or.inl ⟨rfl, rfl⟩
        | some run => exact Or.inr rfl
      rw [better]
      by_cases hlonger : 2 ≤ stop - c ∧ best.elim 0 Prod.snd < stop - c
      · rw [if_pos hlonger, if_pos (by simp only [curRangeOf]; omega), curRangeOf, rangeOf]
        congr 2
        omega
      · rw [if_neg hlonger, if_neg (by simp only [curRangeOf]; omega)]

/-- The body of the loop is one step of the pass. -/
theorem contractionStep_eq (bytes : Vector UInt8 16) (s : Scan) (k : ℕ) :
    contractionStep bytes (rangeOf s.best, curRangeOf k s.cur) (2 * k) =
      let s' := step (ZeroGroup bytes) 8 2 s k
      (rangeOf s'.best, curRangeOf (k + 1) s'.cur) := by
  have hlast : 2 * k = 14 ↔ k + 1 = 8 := by omega
  rw [contractionStep, step]
  by_cases hz : ZeroGroup bytes k
  · have hzero : IsZeroAt bytes (2 * k) := hz
    simp only [if_pos hz, hzero, if_true, extendRange_curRangeOf, not_true_eq_false, false_or, hlast]
    by_cases hk : k + 1 = 8
    · rw [if_pos hk, if_pos hk, maxRange_better]
      rfl
    · rw [if_neg hk, if_neg hk]
  · have hzero : ¬IsZeroAt bytes (2 * k) := hz
    simp only [if_neg hz, hzero, if_false, not_false_eq_true, true_or, if_true]
    rw [maxRange_better]
    rfl

theorem foldl_contractionStep (bytes : Vector UInt8 16) (k : ℕ) :
    ((List.range k).map (2 * ·)).foldl (contractionStep bytes) ((0, -1), (0, -1)) =
      (rangeOf (scan (ZeroGroup bytes) 8 2 k).best,
        curRangeOf k (scan (ZeroGroup bytes) 8 2 k).cur) := by
  induction k with
  | zero => rfl
  | succ k ih =>
      rw [List.range_succ, List.map_append, List.foldl_append, ih, List.map_singleton,
        List.foldl_cons, List.foldl_nil, contractionStep_eq, scan_succ]

theorem chooseIPv6ContractionRange_eq (bytes : Vector UInt8 16) :
    chooseIPv6ContractionRange bytes = rangeOf (scan (ZeroGroup bytes) 8 2 8).best :=
  congrArg Prod.fst (foldl_contractionStep bytes 8)

/-! ### The range that is chosen -/

/-- The range is the first among the longest runs of zero groups, in bytes, if there is one of two
groups or more. -/
theorem chooses_leftmost_longest (bytes : Vector UInt8 16) :
    let range := chooseIPv6ContractionRange bytes
    (∃ b l : ℕ, range = (2 * (b : ℤ), 2 * (l : ℤ)) ∧ 2 ≤ l ∧ MaximalRun (ZeroGroup bytes) 8 b l ∧
      ∀ b' l', MaximalRun (ZeroGroup bytes) 8 b' l' → l' < l ∨ l' = l ∧ b ≤ b') ∨
    (range.2 = -1 ∧ ∀ b l, MaximalRun (ZeroGroup bytes) 8 b l → l < 2) := by
  intro range
  have hrange : range = rangeOf (scan (ZeroGroup bytes) 8 2 8).best :=
    chooseIPv6ContractionRange_eq bytes
  have hbest : Best (MaximalRun (ZeroGroup bytes) 8) 2 (scan (ZeroGroup bytes) 8 2 8).best :=
    scan_best Nat.two_pos
  rw [hrange]
  cases hs : (scan (ZeroGroup bytes) 8 2 8).best with
  | none =>
      rw [hs] at hbest
      exact Or.inr ⟨rfl, hbest⟩
  | some run =>
      rw [hs] at hbest
      exact Or.inl ⟨run.1, run.2, rfl, hbest⟩

end Iomgr
