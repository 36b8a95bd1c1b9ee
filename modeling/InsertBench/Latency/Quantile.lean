import Mathlib.Data.List.SplitBy
import InsertBench.Latency.Histogram

/-! # Quantiles that exist

A quantile can only fail where the counts of a histogram sum up to more than a word holds, whatever the
fraction: `quantile_ok`.
-/
namespace InsertBench.Histogram

/-- The number of all values, as far as their counts are not saturated. -/
def recorded (h : Histogram) : Nat := Word.total (h.counts.toList.map (·.2))

theorem flatten_groups (h : Histogram) : h.groups.flatten = h.counts.toList :=
  List.flatten_splitBy _ _

theorem quantile_ok {h : Histogram} (hr : h.recorded < UInt64.size) (fraction : Float) :
    ∃ value, h.quantile fraction = .ok value :=
  reachIn_ok (by rwa [flatten_groups, UInt64.toNat_zero, Nat.zero_add])

end InsertBench.Histogram
