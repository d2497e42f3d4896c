import Mathlib.Data.Rat.Defs
import Mathlib.Tactic.Common

/-!
The decayed weighted average a timer shard keeps of its timeouts. The rounding of the arithmetic is
a parameter: the shards compute in doubles, the statistics' own results are about exact arithmetic.
-/

namespace Iomgr

structure AveragedStats where
  initAvg : ℚ
  regressWeight : ℚ
  persistenceFactor : ℚ
  batchTotalValue : ℚ
  batchNumSamples : ℚ
  aggregateTotalWeight : ℚ
  aggregateWeightedAvg : ℚ

namespace AveragedStats

def new (initAvg regressWeight persistenceFactor : ℚ) : AveragedStats where
  initAvg := initAvg
  regressWeight := regressWeight
  persistenceFactor := persistenceFactor
  batchTotalValue := 0
  batchNumSamples := 0
  aggregateTotalWeight := 0
  aggregateWeightedAvg := initAvg

def addSampleWith (rnd : ℚ → ℚ) (stats : AveragedStats) (value : ℚ) : AveragedStats :=
  { stats with
    batchTotalValue := rnd (stats.batchTotalValue + value)
    batchNumSamples := rnd (stats.batchNumSamples + 1) }

/-- Closes the current batch and returns the new average with the updated statistics. -/
def updateAverageWith (rnd : ℚ → ℚ) (stats : AveragedStats) : ℚ × AveragedStats :=
  -- start with the current batch
  let weightedSum := stats.batchTotalValue
  let totalWeight := stats.batchNumSamples
  -- the regression towards the initial average
  let (weightedSum, totalWeight) :=
    if stats.regressWeight > 0 then
      (rnd (weightedSum + rnd (stats.regressWeight * stats.initAvg)),
        rnd (totalWeight + stats.regressWeight))
    else (weightedSum, totalWeight)
  -- the persistence of earlier batches
  let (weightedSum, totalWeight) :=
    if stats.persistenceFactor > 0 then
      let prevSampleWeight := rnd (stats.persistenceFactor * stats.aggregateTotalWeight)
      (rnd (weightedSum + rnd (prevSampleWeight * stats.aggregateWeightedAvg)),
        rnd (totalWeight + prevSampleWeight))
    else (weightedSum, totalWeight)
  let avg := if totalWeight > 0 then rnd (weightedSum / totalWeight) else stats.initAvg
  (avg, { stats with
    aggregateWeightedAvg := avg
    aggregateTotalWeight := totalWeight
    batchNumSamples := 0
    batchTotalValue := 0 })

/-- `AddSample` in exact arithmetic. -/
def addSample (stats : AveragedStats) (value : ℚ) : AveragedStats := stats.addSampleWith id value

/-- `UpdateAverage` in exact arithmetic. -/
def updateAverage (stats : AveragedStats) : ℚ × AveragedStats := stats.updateAverageWith id

end AveragedStats

end Iomgr
