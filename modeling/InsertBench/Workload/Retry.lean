/-! # Retries after a write conflict -/
namespace InsertBench

inductive Retry
  /-- Redo a batch until it commits. -/
  | unbounded
  /-- Redo a batch at most so many times, then fail the run. -/
  | bounded (most : UInt64)
deriving DecidableEq

/-- Whether a batch may be redone after so many conflicts, the latest included. -/
def Retry.allows : Retry → UInt64 → Bool
  | unbounded, _ => true
  | bounded most, conflicts => conflicts ≤ most

def Retry.text : Retry → String
  | unbounded => "Unbounded"
  | bounded most => s!"Bounded({most})"

end InsertBench
