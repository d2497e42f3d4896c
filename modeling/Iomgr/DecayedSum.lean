import Mathlib.Algebra.Order.BigOperators.Ring.Finset
import Mathlib.Algebra.Order.Field.Basic
import Mathlib.Tactic.Linarith
import Mathlib.Tactic.Ring

/-!
Sums in which every term is scaled down with each term that follows it, and the mean of values with
such weights. The terms are given by their number.
-/

namespace DecayedSum

open Finset

section CommSemiring

variable {K : Type} [CommSemiring K]

/-- The sum of the first `n` terms; the last one has the factor 1. -/
def decayed (p : K) (g : ℕ → K) (n : ℕ) : K := ∑ k ∈ range n, p ^ (n - 1 - k) * g k

variable {p : K} {g h : ℕ → K} {n : ℕ}

@[simp] theorem decayed_zero : decayed p g 0 = 0 := by
  simp [decayed]

theorem decayed_succ (p : K) (g : ℕ → K) (n : ℕ) :
    decayed p g (n + 1) = p * decayed p g n + g n := by
  have hshift : ∀ k ∈ range n, p ^ (n + 1 - 1 - k) * g k = p * (p ^ (n - 1 - k) * g k) := by
    intro k hk
    have hexp : n + 1 - 1 - k = n - 1 - k + 1 := by
      have := mem_range.mp hk
      omega
    rw [hexp, pow_succ']
    ring
  calc decayed p g (n + 1)
      = ∑ k ∈ range n, p ^ (n + 1 - 1 - k) * g k + p ^ (n + 1 - 1 - n) * g n :=
        sum_range_succ _ _
    _ = ∑ k ∈ range n, p * (p ^ (n - 1 - k) * g k) + g n := by
        rw [sum_congr rfl hshift]
        simp
    _ = p * decayed p g n + g n := by rw [decayed, mul_sum]

theorem decayed_congr (heq : ∀ k < n, g k = h k) : decayed p g n = decayed p h n := by
  apply sum_congr rfl
  intro k hk
  rw [heq k (mem_range.mp hk)]

theorem mul_decayed (c p : K) (g : ℕ → K) (n : ℕ) :
    c * decayed p g n = decayed p (fun k => c * g k) n := by
  rw [decayed, decayed, mul_sum]
  apply sum_congr rfl
  intro k _
  ring

end CommSemiring

section Order

variable {K : Type} [Field K] [LinearOrder K] [IsStrictOrderedRing K] {p : K} {g h : ℕ → K} {n : ℕ}

theorem decayed_le (hp : 0 ≤ p) (hle : ∀ k < n, g k ≤ h k) : decayed p g n ≤ decayed p h n := by
  apply sum_le_sum
  intro k hk
  exact mul_le_mul_of_nonneg_left (hle k (mem_range.mp hk)) (pow_nonneg hp _)

theorem decayed_nonneg (hp : 0 ≤ p) (hg : ∀ k, 0 ≤ g k) : 0 ≤ decayed p g n := by
  apply sum_nonneg
  intro k _
  exact mul_nonneg (pow_nonneg hp _) (hg k)

/-- Where the weights add up to nothing, so do values that vanish with their weights. -/
theorem decayed_eq_zero (hp : 0 ≤ p) (hg : ∀ k, 0 ≤ g k) (hzero : decayed p g n = 0)
    (hvanish : ∀ k, g k = 0 → h k = 0) : decayed p h n = 0 := by
  have hterms := (sum_eq_zero_iff_of_nonneg fun k _ =>
    mul_nonneg (pow_nonneg hp (n - 1 - k)) (hg k)).mp hzero
  apply sum_eq_zero
  intro k hk
  rcases mul_eq_zero.mp (hterms k hk) with hpow | hk
  · rw [hpow, zero_mul]
  · rw [hvanish k hk, mul_zero]

/-! ### The mean -/

/-- The sum of the values by that of the weights, or `init` where there is no weight. -/
def mean (p : K) (weight value : ℕ → K) (init : K) (n : ℕ) : K :=
  if 0 < decayed p weight n then decayed p value n / decayed p weight n else init

variable {weight value : ℕ → K} {init : K}

/-- The weight times the mean is the sum of the values. -/
theorem decayed_mul_mean (hp : 0 ≤ p) (hweight : ∀ k, 0 ≤ weight k)
    (hvanish : ∀ k, weight k = 0 → value k = 0) :
    decayed p weight n * mean p weight value init n = decayed p value n := by
  rw [mean]
  split_ifs with hpos
  · exact mul_div_cancel₀ _ hpos.ne'
  · have hzero : decayed p weight n = 0 :=
      le_antisymm (not_lt.mp hpos) (decayed_nonneg hp hweight)
    rw [hzero, zero_mul, decayed_eq_zero hp hweight hzero hvanish]

/-- The mean is at least what every value is at least, for its weight. -/
theorem le_mean {lo : K} (hp : 0 ≤ p) (hinit : lo ≤ init)
    (hvalue : ∀ k < n, lo * weight k ≤ value k) : lo ≤ mean p weight value init n := by
  rw [mean]
  split_ifs with hpos
  · rw [le_div_iff₀ hpos, mul_decayed]
    exact decayed_le hp hvalue
  · exact hinit

theorem mean_le {hi : K} (hp : 0 ≤ p) (hinit : init ≤ hi)
    (hvalue : ∀ k < n, value k ≤ hi * weight k) : mean p weight value init n ≤ hi := by
  rw [mean]
  split_ifs with hpos
  · rw [div_le_iff₀ hpos, mul_decayed]
    exact decayed_le hp hvalue
  · exact hinit

end Order

end DecayedSum
