import Iomgr.AveragedStats
import Iomgr.DecayedSum
import Mathlib.Algebra.Order.Field.Rat
import Mathlib.Algebra.BigOperators.Group.List.Basic
import Mathlib.Algebra.Order.BigOperators.Group.List
import Mathlib.Data.List.GetD
import Mathlib.Data.List.MinMax

/-!
What the statistics compute: the mean of all batches, each with the weight of its samples and of the
regression, decayed by the persistence factor once for every batch that came after it.
-/

namespace Iomgr.AveragedStats

open DecayedSum

inductive Call
  | addSample (value : ℚ)
  | updateAverage
  deriving DecidableEq

def call (stats : AveragedStats) : Call → AveragedStats
  | .addSample value => stats.addSample value
  | .updateAverage => stats.updateAverage.2

/-- The samples of the batches that were closed, in order, and of the one that is open. -/
structure Batches where
  closed : List (List ℚ)
  current : List ℚ

namespace Batches

def call (b : Batches) : Call → Batches
  | .addSample value => { b with current := b.current ++ [value] }
  | .updateAverage => ⟨b.closed ++ [b.current], []⟩

/-- The batches of a sequence of calls. -/
def ofCalls (calls : List Call) : Batches := calls.foldl call ⟨[], []⟩

/-- The weight of the `k`-th batch. -/
def weight (b : Batches) (r : ℚ) (k : ℕ) : ℚ := (b.closed.getD k []).length + r

/-- The weighted value of the `k`-th batch. -/
def value (b : Batches) (r init : ℚ) (k : ℕ) : ℚ := (b.closed.getD k []).sum + r * init

end Batches

/-- The samples seen. -/
def samples (calls : List Call) : List ℚ :=
  calls.filterMap fun
    | .addSample value => some value
    | .updateAverage => none

/-- The statistics in terms of the batches. -/
structure Summarises (init r p : ℚ) (b : Batches) (stats : AveragedStats) : Prop where
  initAvg : stats.initAvg = init
  regressWeight : stats.regressWeight = r
  persistenceFactor : stats.persistenceFactor = p
  batchTotalValue : stats.batchTotalValue = b.current.sum
  batchNumSamples : stats.batchNumSamples = b.current.length
  totalWeight : stats.aggregateTotalWeight = decayed p (b.weight r) b.closed.length
  weightedAvg : stats.aggregateWeightedAvg =
    mean p (b.weight r) (b.value r init) init b.closed.length

/-- With factors that are not negative the conditions of `UpdateAverage` change nothing. -/
theorem updateAverage_eq {stats : AveragedStats} (hr : 0 ≤ stats.regressWeight)
    (hp : 0 ≤ stats.persistenceFactor) {totalWeight weightedSum : ℚ}
    (hweight : totalWeight = stats.batchNumSamples + stats.regressWeight +
      stats.persistenceFactor * stats.aggregateTotalWeight)
    (hsum : weightedSum = stats.batchTotalValue + stats.regressWeight * stats.initAvg +
      stats.persistenceFactor * stats.aggregateTotalWeight * stats.aggregateWeightedAvg) :
    stats.updateAverage.2 =
      { stats with
        aggregateWeightedAvg := if 0 < totalWeight then weightedSum / totalWeight else stats.initAvg
        aggregateTotalWeight := totalWeight
        batchNumSamples := 0
        batchTotalValue := 0 } := by
  have hregress : (if stats.regressWeight > 0 then
      (stats.batchTotalValue + stats.regressWeight * stats.initAvg,
        stats.batchNumSamples + stats.regressWeight)
      else (stats.batchTotalValue, stats.batchNumSamples)) =
      (stats.batchTotalValue + stats.regressWeight * stats.initAvg,
        stats.batchNumSamples + stats.regressWeight) := by
    split_ifs with hpos
    · rfl
    · rw [le_antisymm (not_lt.mp hpos) hr, zero_mul, add_zero, add_zero]
  have hpersist : ∀ x y : ℚ, (if stats.persistenceFactor > 0 then
      (x + stats.persistenceFactor * stats.aggregateTotalWeight * stats.aggregateWeightedAvg,
        y + stats.persistenceFactor * stats.aggregateTotalWeight) else (x, y)) =
      (x + stats.persistenceFactor * stats.aggregateTotalWeight * stats.aggregateWeightedAvg,
        y + stats.persistenceFactor * stats.aggregateTotalWeight) := by
    intro x y
    split_ifs with hpos
    · rfl
    · rw [le_antisymm (not_lt.mp hpos) hp, zero_mul, zero_mul, add_zero, add_zero]
  subst hweight hsum
  simp only [updateAverage, updateAverageWith, id, hregress, hpersist, gt_iff_lt]

/-! ### One call -/

variable {init r p : ℚ} {b : Batches} {stats : AveragedStats}

theorem Batches.weight_nonneg (hr : 0 ≤ r) (k : ℕ) : 0 ≤ b.weight r k :=
  add_nonneg (Nat.cast_nonneg _) hr

/-- A batch without weight has no samples, and there is no regression. -/
theorem Batches.value_eq_zero (hr : 0 ≤ r) (k : ℕ) (h : b.weight r k = 0) :
    b.value r init k = 0 := by
  obtain ⟨hlength, hzero⟩ := (add_eq_zero_iff_of_nonneg (Nat.cast_nonneg _) hr).mp h
  have hnil : b.closed.getD k [] = [] := List.length_eq_zero_iff.mp (Nat.cast_eq_zero.mp hlength)
  rw [value, hnil, hzero]
  simp

theorem Summarises.addSample (h : Summarises init r p b stats) (v : ℚ) :
    Summarises init r p (b.call (.addSample v)) (stats.addSample v) where
  initAvg := h.initAvg
  regressWeight := h.regressWeight
  persistenceFactor := h.persistenceFactor
  batchTotalValue := by
    rw [AveragedStats.addSample, addSampleWith, id, Batches.call, List.sum_append, List.sum_singleton,
      h.batchTotalValue]
  batchNumSamples := by
    rw [AveragedStats.addSample, addSampleWith, id, id, Batches.call, List.length_append,
      List.length_singleton, Nat.cast_add, Nat.cast_one, h.batchNumSamples]
  totalWeight := h.totalWeight
  weightedAvg := h.weightedAvg

/-- A batch that is closed is the last one, and the others decay. -/
theorem Batches.decayed_updateAverage (f : List ℚ → ℚ) :
    decayed p (fun k => f ((b.call .updateAverage).closed.getD k []))
        (b.call .updateAverage).closed.length =
      p * decayed p (fun k => f (b.closed.getD k [])) b.closed.length + f b.current := by
  have hclosed : (b.call .updateAverage).closed = b.closed ++ [b.current] := rfl
  have hbefore : ∀ k < b.closed.length,
      f ((b.closed ++ [b.current]).getD k []) = f (b.closed.getD k []) := by
    intro k hk
    rw [List.getD_append _ _ _ _ hk]
  have hlast : (b.closed ++ [b.current]).getD b.closed.length [] = b.current := by
    rw [List.getD_append_right _ _ _ _ (Nat.le_refl _), Nat.sub_self]
    rfl
  rw [hclosed, List.length_append, List.length_singleton, decayed_succ, decayed_congr hbefore, hlast]

theorem Summarises.updateAverage (hr : 0 ≤ r) (hp : 0 ≤ p) (h : Summarises init r p b stats) :
    Summarises init r p (b.call .updateAverage) stats.updateAverage.2 := by
  have hweight : decayed p ((b.call .updateAverage).weight r) (b.call .updateAverage).closed.length =
      stats.batchNumSamples + stats.regressWeight +
        stats.persistenceFactor * stats.aggregateTotalWeight := by
    rw [h.batchNumSamples, h.regressWeight, h.persistenceFactor, h.totalWeight, add_comm]
    exact Batches.decayed_updateAverage fun batch => batch.length + r
  have hvalue : decayed p ((b.call .updateAverage).value r init)
      (b.call .updateAverage).closed.length =
      stats.batchTotalValue + stats.regressWeight * stats.initAvg +
        stats.persistenceFactor * stats.aggregateTotalWeight * stats.aggregateWeightedAvg := by
    have hmean : decayed p (b.weight r) b.closed.length *
        mean p (b.weight r) (b.value r init) init b.closed.length =
        decayed p (b.value r init) b.closed.length :=
      decayed_mul_mean hp (Batches.weight_nonneg hr) (Batches.value_eq_zero hr)
    rw [h.batchTotalValue, h.regressWeight, h.initAvg, h.persistenceFactor, h.totalWeight,
      h.weightedAvg, mul_assoc, hmean, add_comm]
    exact Batches.decayed_updateAverage fun batch => batch.sum + r * init
  rw [updateAverage_eq (h.regressWeight ▸ hr) (h.persistenceFactor ▸ hp) hweight hvalue, h.initAvg]
  exact ⟨rfl, h.regressWeight, h.persistenceFactor, rfl, rfl, rfl, rfl⟩

/-! ### Every sequence of calls -/

theorem new_summarises (init r p : ℚ) : Summarises init r p ⟨[], []⟩ (new init r p) where
  initAvg := rfl
  regressWeight := rfl
  persistenceFactor := rfl
  batchTotalValue := rfl
  batchNumSamples := Nat.cast_zero.symm
  totalWeight := decayed_zero.symm
  weightedAvg := by
    rw [mean, List.length_nil, decayed_zero, if_neg (lt_irrefl _)]
    rfl

theorem Summarises.foldl (hr : 0 ≤ r) (hp : 0 ≤ p) (calls : List Call) :
    ∀ {b : Batches} {stats : AveragedStats}, Summarises init r p b stats →
      Summarises init r p (calls.foldl Batches.call b) (calls.foldl call stats) := by
  induction calls with
  | nil => exact fun h => h
  | cons a calls ih =>
      intro b stats h
      cases a with
      | addSample v => exact ih (h.addSample v)
      | updateAverage => exact ih (h.updateAverage hr hp)

/-- The samples of a batch were seen. -/
theorem Batches.mem_samples (calls : List Call) :
    ∀ {b : Batches} {seen : List ℚ}, (∀ v ∈ b.current, v ∈ seen) →
      (∀ batch ∈ b.closed, ∀ v ∈ batch, v ∈ seen) →
      ∀ batch ∈ (calls.foldl Batches.call b).closed, ∀ v ∈ batch, v ∈ seen ++ samples calls := by
  induction calls with
  | nil =>
      intro b seen _ hclosed batch hbatch v hv
      exact List.mem_append_left _ (hclosed batch hbatch v hv)
  | cons a calls ih =>
      intro b seen hcurrent hclosed
      cases a with
      | addSample value =>
          have hsamples : samples (.addSample value :: calls) = value :: samples calls := rfl
          rw [hsamples, List.append_cons]
          refine ih (fun v hv => ?_) fun batch hbatch v hv =>
            List.mem_append_left _ (hclosed batch hbatch v hv)
          rcases List.mem_append.mp hv with hv | hv
          · exact List.mem_append_left _ (hcurrent v hv)
          · exact List.mem_append_right _ hv
      | updateAverage =>
          have hsamples : samples (.updateAverage :: calls) = samples calls := rfl
          rw [hsamples]
          refine ih (fun v hv => ?_) fun batch hbatch => ?_
          · cases hv
          · rcases List.mem_append.mp hbatch with hbatch | hbatch
            · exact hclosed batch hbatch
            · rw [List.mem_singleton.mp hbatch]
              exact hcurrent

theorem Batches.getD_mem {k : ℕ} (hk : k < b.closed.length) :
    b.closed.getD k [] ∈ b.closed := by
  rw [List.getD_eq_getElem _ _ hk]
  exact List.getElem_mem hk

/-- What every sample of a batch is at least, the batch is at least, for its weight. -/
theorem Batches.mul_weight_le_value {lo : ℚ} (hr : 0 ≤ r) (hinit : lo ≤ init)
    (hseen : ∀ batch ∈ b.closed, ∀ v ∈ batch, lo ≤ v) (k : ℕ) (hk : k < b.closed.length) :
    lo * b.weight r k ≤ b.value r init k := by
  have hsum := List.card_nsmul_le_sum _ lo (hseen _ (getD_mem hk))
  rw [nsmul_eq_mul, mul_comm] at hsum
  rw [weight, value, mul_add, mul_comm lo r]
  exact add_le_add hsum (mul_le_mul_of_nonneg_left hinit hr)

theorem Batches.value_le_mul_weight {hi : ℚ} (hr : 0 ≤ r) (hinit : init ≤ hi)
    (hseen : ∀ batch ∈ b.closed, ∀ v ∈ batch, v ≤ hi) (k : ℕ) (hk : k < b.closed.length) :
    b.value r init k ≤ hi * b.weight r k := by
  have hsum := List.sum_le_card_nsmul _ hi (hseen _ (getD_mem hk))
  rw [nsmul_eq_mul, mul_comm] at hsum
  rw [weight, value, mul_add, mul_comm hi r]
  exact add_le_add hsum (mul_le_mul_of_nonneg_left hinit hr)

/-- After any calls the total weight and the average are the decayed ones of the batches closed so
far, and the average lies between the least and the greatest of `init` and the samples seen. -/
theorem decayed_weighted_mean (init : ℚ) {r p : ℚ} (hr : 0 ≤ r) (hp : 0 ≤ p) (calls : List Call) :
    let stats := calls.foldl call (new init r p)
    let b := Batches.ofCalls calls
    let totalWeight := decayed p (b.weight r) b.closed.length
    stats.aggregateTotalWeight = totalWeight ∧
      stats.aggregateWeightedAvg =
        (if 0 < totalWeight then decayed p (b.value r init) b.closed.length / totalWeight
          else init) ∧
      (init :: samples calls).minimum ≤ (stats.aggregateWeightedAvg : WithTop ℚ) ∧
      (stats.aggregateWeightedAvg : WithBot ℚ) ≤ (init :: samples calls).maximum := by
  intro stats b totalWeight
  have hsum : Summarises init r p b stats := Summarises.foldl hr hp calls (new_summarises init r p)
  have hseen : ∀ batch ∈ b.closed, ∀ v ∈ batch, v ∈ init :: samples calls := by
    intro batch hbatch v hv
    exact List.mem_cons_of_mem _
      (@Batches.mem_samples calls ⟨[], []⟩ [] (by simp) (by simp) batch hbatch v hv)
  have hne : init :: samples calls ≠ [] := List.cons_ne_nil _ _
  refine ⟨hsum.totalWeight, hsum.weightedAvg, ?_, ?_⟩
  · obtain ⟨lo, hlo⟩ := WithTop.ne_top_iff_exists.mp (List.minimum_ne_top_of_ne_nil hne)
    have hle := (List.minimum_eq_coe_iff.mp hlo.symm).2
    rw [← hlo, WithTop.coe_le_coe, hsum.weightedAvg]
    apply le_mean hp (hle init List.mem_cons_self)
    exact Batches.mul_weight_le_value hr (hle init List.mem_cons_self) fun batch hbatch v hv =>
      hle v (hseen batch hbatch v hv)
  · obtain ⟨hi, hhi⟩ := WithBot.ne_bot_iff_exists.mp (List.maximum_ne_bot_of_ne_nil hne)
    have hle := (List.maximum_eq_coe_iff.mp hhi.symm).2
    rw [← hhi, WithBot.coe_le_coe, hsum.weightedAvg]
    apply mean_le hp (hle init List.mem_cons_self)
    exact Batches.value_le_mul_weight hr (hle init List.mem_cons_self) fun batch hbatch v hv =>
      hle v (hseen batch hbatch v hv)

/-- Two batches, regressed and decayed by a half. -/
theorem decayed_weighted_mean_two_batches :
    let calls := [.addSample 4, .addSample 6, .updateAverage, .addSample 1, .updateAverage]
    let stats := calls.foldl call (new 2 (1 / 2) (1 / 2))
    stats.aggregateTotalWeight = 11 / 4 ∧ stats.aggregateWeightedAvg = 30 / 11 ∧
      (2 :: samples calls).minimum ≤ (stats.aggregateWeightedAvg : WithTop ℚ) := by
  intro calls stats
  obtain ⟨hweight, havg, hmin, -⟩ := decayed_weighted_mean 2 (r := 1 / 2) (p := 1 / 2) (by norm_num)
    (by norm_num) calls
  exact ⟨hweight.trans (by decide +kernel), havg.trans (by decide +kernel), hmin⟩

end Iomgr.AveragedStats
