import InsertBench.Failure
import InsertBench.Text.Grouped
import InsertBench.Workload.Partition
import InsertBench.Workload.Retry

/-! # Workloads

How many rows are inserted, by how many threads and in batches of which size. Only whole rounds run:
rows that do not fill one batch for each thread are dropped.
-/
namespace InsertBench

/-- When a worker opens its store session. -/
inductive SessionStart
  /-- With the worker, before the clock starts. -/
  | eager
  /-- On its first call, inside the timed region. -/
  | lazy
deriving DecidableEq

def SessionStart.text : SessionStart → String
  | eager => "Eager"
  | lazy => "Lazy"

structure Workload where
  totalRows : UInt64
  rowsPerTxn : UInt64
  threads : UInt64
  sessionStart : SessionStart
  /-- Prepare every transaction before committing it. -/
  twoPhase : Bool
  retry : Retry
deriving DecidableEq

namespace Workload

def rounds (w : Workload) : Except Fault UInt64 := do
  Word.div (← Word.div w.totalRows w.rowsPerTxn) w.threads

def effectiveRows (w : Workload) : Except Fault UInt64 := do
  Word.mul (← Word.mul (← w.rounds) w.rowsPerTxn) w.threads

def droppedRows (w : Workload) : Except Fault UInt64 := do
  Word.sub w.totalRows (← w.effectiveRows)

def partition (w : Workload) : Partition where
  threads := w.threads
  rowsPerTxn := w.rowsPerTxn

/-- The workload of these sizes, one-phase and with unbounded retries, unless it is refused: all
sizes are positive, the rows fit a signed key, and they fill at least one round. -/
def plan (totalRows rowsPerTxn threads : UInt64) (start : SessionStart) : Except Stop Workload := do
  if totalRows = 0 then throw (.failed (.refused .noRows))
  if rowsPerTxn = 0 then throw (.failed (.refused .noRowsPerTxn))
  if threads = 0 then throw (.failed (.refused .noThreads))
  if 0x7fffffffffffffff < totalRows then throw (.failed (.refused .tooManyRows))
  let w : Workload := ⟨totalRows, rowsPerTxn, threads, start, false, .unbounded⟩
  if (← Stop.lift w.rounds) = 0 then
    throw (.failed (.refused (.noWholeRound totalRows rowsPerTxn threads)))
  return w

/-- One line that describes the workload; dropped rows are shown only if there are any. -/
def summary (w : Workload) : Except Fault String := do
  let rounds ← w.rounds
  let dropped ← w.droppedRows
  let line := String.intercalate " | " [
    s!"total rows: {Text.grouped w.totalRows.toNat}",
    s!"rows/txn: {Text.grouped w.rowsPerTxn.toNat}",
    s!"threads: {w.threads}",
    s!"init: {w.sessionStart.text}",
    s!"iterations/thread: {Text.grouped rounds.toNat}",
    s!"two-phase: {w.twoPhase}",
    s!"retry: {w.retry.text}"]
  return if 0 < dropped then s!"{line} | dropped: {Text.grouped dropped.toNat}" else line

end Workload

end InsertBench
