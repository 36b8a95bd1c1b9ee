import InsertBench.Report
import InsertBench.Run.InTurn

/-! # Benchmark runs

A run hires one worker for each thread, lets them work, and adds up what they report. The worker with the
smallest number of those that failed decides how a failed run is reported. The rows in the store can be
counted afterwards and compared with the rows reported.
-/
namespace InsertBench

structure Bench where
  workload : Workload
  table : String
  /-- Count the stored rows after the run, and fail on a mismatch. -/
  verify : Bool
deriving DecidableEq

namespace Bench

def post (b : Bench) (createdAt : Int64) (place : Nat) : Post :=
  ⟨place.toUInt64, b.table, b.workload, createdAt⟩

def blank (b : Bench) (store : String) (elapsed : Elapsed) : Report :=
  ⟨store, b.workload.threads, elapsed, 0, 0, 0, .empty⟩

end Bench

def Report.add (r : Report) (t : Tally) : Except Fault Report := do
  let rows ← Word.add r.rows t.rows
  let batches ← Word.add r.batches t.batches
  let conflicts ← Word.add r.conflicts t.conflicts
  return { r with rows, batches, conflicts, latency := r.latency.merge t.latency }

namespace Bench

/-- What a worker's end counts for: a worker that faulted is one that failed. A worker that has not
ended counts for nothing. -/
def outcome? (w : Worker) : Option (Except Failure Tally) :=
  w.result?.map fun result => match result with
    | .ok tally => .ok tally
    | .error (.failed why) => .error why
    | .error (.crashed _) => .error .workerPanicked

/-- Adds up the workers in order, up to the first one that failed. -/
def collect : Report → List (Except Failure Tally) → Except Stop Report
  | report, [] => .ok report
  | _, .error why :: _ => .error (.failed why)
  | report, .ok tally :: rest =>
    match report.add tally with
    | .ok report => collect report rest
    | .error how => .error (.crashed how)

/-- Compares the rows that are stored with those that were reported, if that is asked for. -/
def check {σ : Type} (b : Bench) (store : Store σ) (report : Report) (s : σ) : Except Stop Report × σ :=
  if b.verify then
    match store.rowCount s b.table with
    | (.error stop, s) => (.error (stop.during .countRows), s)
    | (.ok stored, s) =>
      if stored = report.rows then (.ok report, s)
      else (.error (.failed (.rowsDiffer stored report.rows)), s)
  else (.ok report, s)

def conclude {σ : Type} (b : Bench) (store : Store σ) (elapsed : Elapsed) (workers : List Worker) (s : σ) :
    Except Stop Report × σ :=
  match collect (b.blank (store.name s) elapsed) (workers.filterMap outcome?) with
  | .error stop => (.error stop, s)
  | .ok report => b.check store report s

/-- How a run ends that is short of threads, once all workers have ended. Nobody asks for what became of
them, but a fault among them is noticed. -/
def breakOff (short : Crew.Shortage) (workers : List Worker) : Stop :=
  if workers.any Worker.hasFaulted then .crashed .workerFaulted else .failed short.failure

/-- A shortage of threads that a run meets: one at the place of one of its workers. -/
def met (b : Bench) (short : Option Crew.Shortage) : Option Crew.Shortage :=
  short.filter (·.place < b.workload.threads.toNat)

/-- Runs on a store whose seats are free from a first one on. Workers take turns, each to its end;
there is no outcome if a call is never answered. -/
def runOn {σ : Type} {m : Type → Type} [Monad m] (b : Bench) (clock : m UInt64) (createdAt : Int64)
    (store : Store σ) (base : Nat) (s : σ) (short : Option Crew.Shortage := none) :
    m (Option (Except Stop Report × σ)) :=
  match Crew.hire store base (b.post createdAt) b.workload.threads.toNat 0 s with
  | none => return none
  | some (.error stop, s) => return some (.error stop, s)
  | some (.ok workers, s) => do
    let since ← clock
    match ← Crew.inTurn clock store (Crew.muster (b.met short) workers) base s false with
    | none => return none
    | some (workers, s, _) =>
      match b.met short with
      | some short => return some (.error (breakOff short workers), s)
      | none =>
        let now ← clock
        return some (b.conclude store (.ofMicros (now - since)) workers s)

/-- Runs on a new store and ends the store again. A fault leaves the store as it is; a failure of the
run is reported before one of ending the store. -/
def run {σ : Type} {m : Type → Type} [Monad m] (b : Bench) (clock : m UInt64) (createdAt : Int64)
    (store : Store σ) (s : σ) (short : Option Crew.Shortage := none) :
    m (Option (Except Stop Report)) := do
  match ← b.runOn clock createdAt store 0 s short with
  | none => return none
  | some (.error (.crashed how), _) => return some (.error (.crashed how))
  | some (result, s) =>
    let shut := store.shut s
    return some do
      let report ← result
      match shut with
      | .ok _ => return report
      | .error stop => throw (stop.during .closeStore)

end Bench

end InsertBench
