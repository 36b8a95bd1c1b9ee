import InsertBench.Decimal.Fixed
import InsertBench.Latency.Histogram
import InsertBench.Text.Grouped
import InsertBench.Word.Checked

/-! # Reports

What a run tells: the rows, batches and conflicts of all workers, the time it took, and the latency of
batches.
-/
namespace InsertBench

structure Elapsed where
  seconds : UInt64
  nanoseconds : UInt64
deriving DecidableEq

namespace Elapsed

/-- The span of so many seconds and nanoseconds, of which a second's worth is carried over. -/
def of (seconds nanoseconds : UInt64) : Except Fault Elapsed :=
  match Word.add seconds (nanoseconds / 1000000000) with
  | .ok seconds => .ok ⟨seconds, nanoseconds % 1000000000⟩
  | .error _ => .error .spanTooLong

def ofMicros (micros : UInt64) : Elapsed := ⟨micros / 1000000, micros % 1000000 * 1000⟩

def toSeconds (e : Elapsed) : Float := e.seconds.toFloat + e.nanoseconds.toFloat / 1000000000.0

end Elapsed

structure Report where
  store : String
  threads : UInt64
  elapsed : Elapsed
  rows : UInt64
  batches : UInt64
  conflicts : UInt64
  /-- Microseconds that each batch took, its retries included. -/
  latency : Histogram

namespace Report

/-- Rows in a second; none if no time passed. -/
def throughput (r : Report) : Float :=
  if r.rows = 0 ∨ r.elapsed = ⟨0, 0⟩ then 0.0 else r.rows.toFloat / r.elapsed.toSeconds

/-- A quantile of the latency, or a dash if no batch ran. -/
def percentile (r : Report) (fraction : Float) : Except Fault String := do
  if r.latency.total = 0 then return "-"
  return Text.grouped (← r.latency.quantile fraction).toNat

def lines (r : Report) : Except Fault (List String) := do
  let rows := Text.grouped r.rows.toNat
  let batches := Text.grouped r.batches.toNat
  let conflicts := Text.grouped r.conflicts.toNat
  let seconds := Decimal.fixed 6 r.elapsed.toSeconds
  let rate := Text.grouped r.throughput.toUInt64.toNat
  let p50 ← r.percentile 0.50
  let p95 ← r.percentile 0.95
  let p99 ← r.percentile 0.99
  let p999 ← r.percentile 0.999
  return [
    s!"=== RUN ({r.store}, {r.threads} threads) ===",
    s!"rows: {rows} | batches: {batches} | conflicts: {conflicts}",
    s!"elapsed: {seconds} s | throughput: {rate} rows/s",
    "=== BATCH LATENCY ===",
    s!"p50: {p50} µs | p95: {p95} µs | p99: {p99} µs | p99.9: {p999} µs"]

end Report

end InsertBench
