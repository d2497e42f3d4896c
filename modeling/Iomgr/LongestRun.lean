import Mathlib.Tactic.Common
import Mathlib.Order.Basic

/-!
The first among the longest runs of a property on the numbers below `n`, found in one pass that keeps
the best run so far and the start of the run it is in. Runs shorter than `m` do not count.
-/

namespace LongestRun

variable {z : ℕ → Prop} {n : ℕ}

/-- A run of length `l` from `b` on that cannot be extended. -/
structure MaximalRun (z : ℕ → Prop) (n b l : ℕ) : Prop where
  pos : 0 < l
  le : b + l ≤ n
  all : ∀ k, b ≤ k → k < b + l → z k
  left : b = 0 ∨ ¬z (b - 1)
  right : b + l = n ∨ ¬z (b + l)

namespace MaximalRun

variable {b l b' l' : ℕ}

/-- A run that ends no later than another one starts no later. -/
theorem start_le (h : MaximalRun z n b l) (h' : MaximalRun z n b' l') (hend : b + l ≤ b' + l') :
    b ≤ b' := by
  by_contra hlt
  have hpos := h.pos
  rcases h.left with hzero | hnot
  · omega
  · exact hnot (h'.all (b - 1) (by omega) (by omega))

theorem start_eq (h : MaximalRun z n b l) (h' : MaximalRun z n b' l') (hend : b + l = b' + l') :
    b = b' :=
  Nat.le_antisymm (h.start_le h' (Nat.le_of_eq hend)) (h'.start_le h (Nat.le_of_eq hend.symm))

theorem end_ne (h : MaximalRun z n b l) {k : ℕ} (hk : k < n) (hz : z k) : b + l ≠ k := by
  rintro rfl
  rcases h.right with heq | hnot
  · omega
  · exact hnot hz

end MaximalRun

/-- A run is first among the longest ones of a kind, or there is none of the length `m`. -/
def Best (P : ℕ → ℕ → Prop) (m : ℕ) : Option (ℕ × ℕ) → Prop
  | none => ∀ b l, P b l → l < m
  | some (b, l) => m ≤ l ∧ P b l ∧ ∀ b' l', P b' l' → l' < l ∨ l' = l ∧ b ≤ b'

theorem Best.congr {P Q : ℕ → ℕ → Prop} {m : ℕ} {best : Option (ℕ × ℕ)} (h : Best P m best)
    (heq : ∀ b l, P b l ↔ Q b l) : Best Q m best := by
  have hPQ : P = Q := funext fun b => funext fun l => propext (heq b l)
  rw [← hPQ]
  exact h

/-! ### The pass -/

structure Scan where
  best : Option (ℕ × ℕ)
  cur : Option ℕ

/-- The run from `c` up to `stop` takes the place of the best one if it is longer. -/
def better (m : ℕ) (best : Option (ℕ × ℕ)) (stop : ℕ) : Option ℕ → Option (ℕ × ℕ)
  | none => best
  | some c => if m ≤ stop - c ∧ best.elim 0 Prod.snd < stop - c then some (c, stop - c) else best

/-- One number: a run begins or goes on, or it is closed, as it also is with the last number. -/
def step (z : ℕ → Prop) [DecidablePred z] (n m : ℕ) (s : Scan) (k : ℕ) : Scan :=
  if z k then
    if k + 1 = n then ⟨better m s.best (k + 1) (some (s.cur.getD k)), none⟩
    else ⟨s.best, some (s.cur.getD k)⟩
  else ⟨better m s.best k s.cur, none⟩

def scan (z : ℕ → Prop) [DecidablePred z] (n m k : ℕ) : Scan :=
  (List.range k).foldl (step z n m) ⟨none, none⟩

/-! ### One number -/

/-- The runs that have been closed when the numbers below `k` have been seen. -/
def Closed (z : ℕ → Prop) (n k b l : ℕ) : Prop :=
  MaximalRun z n b l ∧ (b + l < k ∨ b + l = n ∧ k = n)

/-- The run that the pass is in after the numbers below `k`. -/
def Open (z : ℕ → Prop) (n k : ℕ) : Option ℕ → Prop
  | none => k = 0 ∨ k = n ∨ ¬z (k - 1)
  | some c => c < k ∧ k < n ∧ (∀ j, c ≤ j → j < k → z j) ∧ (c = 0 ∨ ¬z (c - 1))

/-- A number that is in a run extends the run that is open, or begins one. -/
theorem Open.extend {k : ℕ} {cur : Option ℕ} (h : Open z n k cur) (hk : k < n) (hz : z k) :
    cur.getD k < k + 1 ∧ (∀ j, cur.getD k ≤ j → j < k + 1 → z j) ∧
      (cur.getD k = 0 ∨ ¬z (cur.getD k - 1)) := by
  cases cur with
  | none =>
      refine ⟨Nat.lt_succ_self k, fun j hj hlt => ?_, ?_⟩
      · rw [Nat.le_antisymm (Nat.le_of_lt_succ hlt) hj]
        exact hz
      · rcases h with hzero | hlast | hnot
        · exact Or.inl hzero
        · omega
        · exact Or.inr hnot
  | some c =>
      obtain ⟨hc, -, hall, hleft⟩ := h
      refine ⟨Nat.lt_succ_of_lt hc, fun j hj hlt => ?_, hleft⟩
      rcases Nat.lt_succ_iff_lt_or_eq.mp hlt with hbefore | rfl
      · exact hall j hj hbefore
      · exact hz

/-- One more run, which ends after all the others. -/
theorem Best.better {P : ℕ → ℕ → Prop} {m stop c : ℕ} {best : Option (ℕ × ℕ)} (hm : 0 < m)
    (h : Best P m best) (hrun : MaximalRun z n c (stop - c)) (hc : c < stop)
    (hP : ∀ b l, P b l → MaximalRun z n b l ∧ b + l < stop) :
    Best (fun b l => P b l ∨ (b = c ∧ l = stop - c)) m (better m best stop (some c)) := by
  rw [LongestRun.better]
  cases best with
  | none =>
      split_ifs with hlonger
      · refine ⟨hlonger.1, Or.inr ⟨rfl, rfl⟩, ?_⟩
        rintro b' l' (hP' | ⟨rfl, rfl⟩)
        · exact Or.inl (Nat.lt_of_lt_of_le (h b' l' hP') hlonger.1)
        · exact Or.inr ⟨rfl, Nat.le_refl _⟩
      · have hshort : stop - c < m := by
          by_contra hge
          exact hlonger ⟨Nat.le_of_not_lt hge, Nat.lt_of_lt_of_le hm (Nat.le_of_not_lt hge)⟩
        rintro b' l' (hP' | ⟨rfl, rfl⟩)
        · exact h b' l' hP'
        · exact hshort
  | some run =>
      obtain ⟨b, l⟩ := run
      obtain ⟨hl, hbest, hmax⟩ := h
      split_ifs with hlonger
      · have hlt : l < stop - c := hlonger.2
        refine ⟨hlonger.1, Or.inr ⟨rfl, rfl⟩, ?_⟩
        rintro b' l' (hP' | ⟨rfl, rfl⟩)
        · left
          rcases hmax b' l' hP' with hless | ⟨heq, -⟩ <;> omega
        · exact Or.inr ⟨rfl, Nat.le_refl _⟩
      · have hle : stop - c ≤ l := by
          by_contra hgt
          exact hlonger ⟨by omega, Nat.lt_of_not_le hgt⟩
        refine ⟨hl, Or.inl hbest, ?_⟩
        rintro b' l' (hP' | ⟨rfl, rfl⟩)
        · exact hmax b' l' hP'
        · obtain ⟨hrun', hend⟩ := hP b l hbest
          have hstart := hrun'.start_le hrun (by omega)
          omega

variable [DecidablePred z] {m k : ℕ} {s : Scan}

/-- What has been found after the numbers below `k`. -/
structure Found (z : ℕ → Prop) (n m k : ℕ) (s : Scan) : Prop where
  best : Best (Closed z n k) m s.best
  cur : Open z n k s.cur

omit [DecidablePred z] in
/-- A run that is open and ends at `stop` is maximal, and it is the only one that ends there. -/
theorem closed_succ_iff {stop c : ℕ} (hrun : MaximalRun z n c (stop - c)) (hc : c < stop)
    (hclosed : ∀ b l, Closed z n (k + 1) b l ↔
      Closed z n k b l ∨ MaximalRun z n b l ∧ b + l = stop) (b l : ℕ) :
    Closed z n k b l ∨ (b = c ∧ l = stop - c) ↔ Closed z n (k + 1) b l := by
  rw [hclosed]
  apply or_congr_right
  constructor
  · rintro ⟨rfl, rfl⟩
    exact ⟨hrun, by omega⟩
  · rintro ⟨h, hend⟩
    have hstart := h.start_eq hrun (by omega)
    omega

/-- A number that is in a run, not the last one. -/
theorem Found.step_inside (h : Found z n m k s) (hk : k + 1 < n) (hz : z k) :
    Found z n m (k + 1) (step z n m s k) := by
  rw [step, if_pos hz, if_neg (by omega)]
  refine ⟨h.best.congr fun b l => ?_, ?_⟩
  · -- no run ends at `k`
    rw [Closed, Closed]
    refine and_congr_right fun hrun => ?_
    have hne := hrun.end_ne (by omega) hz
    omega
  · obtain ⟨hc, hall, hleft⟩ := h.cur.extend (by omega) hz
    exact ⟨hc, hk, hall, hleft⟩

/-- The last number, in a run. -/
theorem Found.step_last (hm : 0 < m) (h : Found z n m k s) (hk : k + 1 = n) (hz : z k) :
    Found z n m (k + 1) (step z n m s k) := by
  rw [step, if_pos hz, if_pos hk]
  refine ⟨?_, Or.inr (Or.inl hk)⟩
  have hclosed : ∀ b l, Closed z n (k + 1) b l ↔
      Closed z n k b l ∨ MaximalRun z n b l ∧ b + l = k + 1 := by
    intro b l
    rw [Closed, Closed, ← and_or_left]
    refine and_congr_right fun hrun => ?_
    have hne := hrun.end_ne (by omega) hz
    omega
  obtain ⟨hc, hall, hleft⟩ := h.cur.extend (by omega) hz
  have hrun : MaximalRun z n (s.cur.getD k) (k + 1 - s.cur.getD k) :=
    ⟨by omega, by omega, fun j hj hlt => hall j hj (by omega), hleft, Or.inl (by omega)⟩
  exact (h.best.better hm hrun hc fun b l hbl => ⟨hbl.1, by have := hbl.2; omega⟩).congr
    (closed_succ_iff hrun hc hclosed)

/-- A number that is in no run. -/
theorem Found.step_outside (hm : 0 < m) (h : Found z n m k s) (hk : k < n) (hz : ¬z k) :
    Found z n m (k + 1) (step z n m s k) := by
  rw [step, if_neg hz]
  refine ⟨?_, Or.inr (Or.inr hz)⟩
  have hclosed : ∀ b l, Closed z n (k + 1) b l ↔
      Closed z n k b l ∨ MaximalRun z n b l ∧ b + l = k := by
    intro b l
    rw [Closed, Closed, ← and_or_left]
    refine and_congr_right fun hrun => ?_
    have hne : ¬(b + l = n ∧ k + 1 = n) := by
      intro hlast
      have hpos := hrun.pos
      exact hz (hrun.all k (by omega) (by omega))
    omega
  have hcur := h.cur
  cases hs : s.cur with
  | none =>
      rw [hs] at hcur
      refine h.best.congr fun b l => ?_
      rw [hclosed]
      refine ⟨Or.inl, fun hbl => hbl.resolve_right ?_⟩
      rintro ⟨hrun, hend⟩
      have hpos := hrun.pos
      have hlast := hrun.all (k - 1) (by omega) (by omega)
      rcases hcur with hzero | heq | hnot
      · omega
      · omega
      · exact hnot hlast
  | some c =>
      rw [hs] at hcur
      obtain ⟨hc, -, hall, hleft⟩ := hcur
      have hrun : MaximalRun z n c (k - c) :=
        ⟨by omega, by omega, fun j hj hlt => hall j hj (by omega), hleft,
          Or.inr (by rwa [show c + (k - c) = k from by omega])⟩
      exact (h.best.better hm hrun hc fun b l hbl => ⟨hbl.1, by have := hbl.2; omega⟩).congr
        (closed_succ_iff hrun hc hclosed)

/-! ### All numbers -/

theorem scan_succ (k : ℕ) : scan z n m (k + 1) = step z n m (scan z n m k) k := by
  rw [scan, List.range_succ, List.foldl_append]
  rfl

theorem scan_found (hm : 0 < m) (hk : k ≤ n) : Found z n m k (scan z n m k) := by
  induction k with
  | zero =>
      refine ⟨fun b l h => ?_, Or.inl rfl⟩
      have hpos := h.1.pos
      have hend := h.2
      omega
  | succ k ih =>
      have h := ih (Nat.le_of_succ_le hk)
      rw [scan_succ]
      by_cases hz : z k
      · rcases Nat.lt_or_eq_of_le hk with hlt | heq
        · exact h.step_inside hlt hz
        · exact h.step_last hm heq hz
      · exact h.step_outside hm hk hz

/-- The pass finds the first among the longest runs. -/
theorem scan_best (hm : 0 < m) : Best (MaximalRun z n) m (scan z n m n).best := by
  refine (scan_found hm (Nat.le_refl n)).best.congr fun b l => ?_
  rw [Closed, and_iff_left_iff_imp]
  intro h
  have hle := h.le
  omega

end LongestRun
