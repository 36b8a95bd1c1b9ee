import InsertBench.Word.Checked

/-! # Keys

Keys are dealt in rounds. A round is one contiguous block of keys, split into one slice for each
thread, so that no two threads share a key and nobody has to coordinate.
-/
namespace InsertBench

structure Partition where
  threads : UInt64
  rowsPerTxn : UInt64
deriving DecidableEq

/-- The key at an offset of a thread's slice of a round: the exact position in the dealing order,
read as a signed word. -/
def Partition.key (p : Partition) (thread round offset : UInt64) : Except Fault Int64 :=
  if thread < p.threads ∧ offset < p.rowsPerTxn then do
    let block ← Word.mul (← Word.mul round p.threads) p.rowsPerTxn
    let slice ← Word.mul thread p.rowsPerTxn
    let position ← Word.add (← Word.add block slice) offset
    return position.toInt64
  else .error .outsidePartition

end InsertBench
