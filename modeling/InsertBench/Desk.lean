import InsertBench.Run.Bench
import InsertBench.Store.Engine

/-! # A desk

A desk is where one store is used step by step. The user names sessions, transactions, batch runners
and workers by numbers of his own, each a separate space. The desk refuses what a name cannot be used
for: a session has one transaction at a time and is not let go of while it has one, and where writers
wait for each other nothing is started that would wait.
-/
namespace InsertBench

namespace Desk

inductive Wanted
  | unreadable
  | refused (stop : Stop)
  | accepted (w : Workload)

inductive Step
  | name
  | openSession (session : Nat) (table : String)
  | beginTxn (session txn : Nat)
  | insert (txn : Nat) (key : Int64) (value : Bytes)
  | prepare (txn : Nat) (id : UInt64)
  | commit (txn : Nat)
  | abort (txn : Nat)
  | dropTxn (txn : Nat)
  | close (session : Nat)
  | dropSession (session : Nat)
  | count (table : String)
  | openSessions
  | keys (table : String)
  | value (table : String) (key : Int64)
  | takeLog
  | runner (runner : Nat) (wanted : Wanted) (createdAt : Int64)
  | runBatch (runner session : Nat) (thread round : UInt64)
  | hire (worker : Nat) (id : UInt64) (table : String) (wanted : Wanted) (createdAt : Int64)
  | runWorker (worker : Nat)
  | dropWorker (worker : Nat)
  | setHalt (raised : Bool)
  | bench (table : String) (wanted : Wanted) (verify : Bool)
  | shut

inductive Answer
  | done
  | name (text : String)
  | verdict (v : Verdict)
  | number (n : UInt64)
  | keys (keys : List Int64)
  | value (value : Option Bytes)
  | log (entries : List Scripted.Entry)
  | committed (conflicts : UInt64)
  | tally (t : Tally) (halt : Bool)
  | report (r : Report)
  | stopped (stop : Stop)
  /-- A worker stopped, and whether the halt flag is raised after it. -/
  | workerStopped (stop : Stop) (halt : Bool)
  | busy
  | noHandle
  | closed
  | unsupported
  | unreadable

end Desk

structure Desk where
  engine : Engine
  sessions : Std.ExtTreeMap Nat Nat
  txns : Std.ExtTreeMap Nat Nat
  /-- Batch runners, each with the buffer for its rows. -/
  runners : Std.ExtTreeMap Nat (Workload × Int64 × Bytes)
  /-- Workers that have not run, with their seats. -/
  workers : Std.ExtTreeMap Nat (Nat × Worker)
  halt : Bool
  closed : Bool
  /-- Seats from here on are free. -/
  nextSeat : Nat

namespace Desk

def new (engine : Engine) : Desk := ⟨engine, {}, {}, {}, {}, false, false, 0⟩

def inTxn (d : Desk) (seat : Nat) : Bool := d.txns.toList.any (·.2 == seat)

def mustWait (d : Desk) : Bool :=
  match d.engine with
  | .singleWriter _ => !d.txns.isEmpty
  | _ => false

def call (d : Desk) (seat : Nat) (request : Request) (answer : Verdict → Answer) : Answer × Desk :=
  match d.engine.call seat request with
  | none => (.busy, d)
  | some (.ok verdict, engine) => (answer verdict, { d with engine })
  | some (.error stop, engine) => (.stopped stop, { d with engine })

def endTxn (d : Desk) (txn : Nat) (request : Request) : Answer × Desk :=
  match d.txns[txn]? with
  | none => (.noHandle, d)
  | some seat => { d with txns := d.txns.erase txn }.call seat request fun _ => .done

def endSession (d : Desk) (session : Nat) (request : Request) : Answer × Desk :=
  match d.sessions[session]? with
  | none => (.noHandle, d)
  | some seat =>
    if d.inTxn seat then (.busy, d)
    else { d with sessions := d.sessions.erase session }.call seat request fun _ => .done

def openSession (d : Desk) (session : Nat) (table : String) : Answer × Desk :=
  if session ∈ d.sessions || d.mustWait then (.busy, d)
  else
    match d.engine.call d.nextSeat (.openSession table) with
    | none => (.busy, d)
    | some (.error stop, engine) => (.stopped stop, { d with engine })
    | some (.ok _, engine) =>
      (.done, { d with engine, sessions := d.sessions.insert session d.nextSeat, nextSeat := d.nextSeat + 1 })

def beginTxn (d : Desk) (session txn : Nat) : Answer × Desk :=
  match d.sessions[session]? with
  | none => (.noHandle, d)
  | some seat =>
    if d.inTxn seat || txn ∈ d.txns || d.mustWait then (.busy, d)
    else
      match d.engine.call seat .beginTxn with
      | none => (.busy, d)
      | some (.error stop, engine) => (.stopped stop, { d with engine })
      | some (.ok _, engine) => (.done, { d with engine, txns := d.txns.insert txn seat })

def inTxnCall (d : Desk) (txn : Nat) (request : Request) (answer : Verdict → Answer) : Answer × Desk :=
  match d.txns[txn]? with
  | none => (.noHandle, d)
  | some seat => d.call seat request answer

def count (d : Desk) (table : String) : Answer × Desk :=
  match d.engine.rowCount table with
  | (.ok n, engine) => (.number n, { d with engine })
  | (.error stop, engine) => (.stopped stop, { d with engine })

def runBatch (d : Desk) (runner session : Nat) (thread round : UInt64) : Answer × Desk :=
  match d.runners[runner]?, d.sessions[session]? with
  | some (workload, createdAt, buffer), some seat =>
    if d.inTxn seat || d.mustWait then (.busy, d)
    else
      match Batch.run Engine.store seat ⟨workload, createdAt, thread, round⟩ buffer .start d.engine with
      | none => (.busy, d)
      | some (result, buffer, engine) =>
        let d := { d with engine, runners := d.runners.insert runner (workload, createdAt, buffer) }
        match result with
        | .ok conflicts => (.committed conflicts, d)
        | .error stop => (.stopped stop, d)
  | _, _ => (.noHandle, d)

/-- An eager worker opens its session when it is hired. -/
def hire (d : Desk) (worker : Nat) (post : Post) : Answer × Desk :=
  match post.workload.sessionStart with
  | .lazy =>
    (.number post.id, { d with
      workers := d.workers.insert worker (d.nextSeat, .new post), nextSeat := d.nextSeat + 1 })
  | .eager =>
    match d.engine.call d.nextSeat (.openSession post.table) with
    | none => (.busy, d)
    | some (.error stop, engine) => (.stopped (stop.during (.openSession post.id)), { d with engine })
    | some (.ok verdict, engine) =>
      let w := (Worker.new post).answer (.ok verdict)
      (.number post.id, { d with
        engine, workers := d.workers.insert worker (d.nextSeat, w), nextSeat := d.nextSeat + 1 })

def runWorker {m : Type → Type} [Monad m] (clock : m UInt64) (d : Desk) (worker : Nat) : m (Answer × Desk) :=
  if d.mustWait then return (.busy, d)
  else
    match d.workers[worker]? with
    | none => return (.noHandle, d)
    | some (seat, w) => do
      match ← w.run clock Engine.store seat d.engine d.halt with
      | none => return (.busy, d)
      | some (w, engine, halt) =>
        let answer := match w.result? with
          | some (.ok tally) => Answer.tally tally halt
          | some (.error stop) => .workerStopped stop halt
          | none => .busy
        return (answer, { d with engine, halt, workers := d.workers.erase worker })

def dropWorker (d : Desk) (worker : Nat) : Answer × Desk :=
  match d.workers[worker]? with
  | none => (.noHandle, d)
  | some (seat, w) =>
    let d := { d with workers := d.workers.erase worker }
    match w.post.workload.sessionStart with
    | .lazy => (.done, d)
    | .eager => d.call seat .dropSession fun _ => .done

def bench {m : Type → Type} [Monad m] (clock : m UInt64) (createdAt : Int64) (d : Desk) (b : Bench) :
    m (Answer × Desk) := do
  match ← b.runOn clock createdAt Engine.store d.nextSeat d.engine with
  | none => return (.busy, d)
  | some (.ok report, engine) => return (.report report, { d with engine })
  | some (.error stop, engine) => return (.stopped stop, { d with engine })

def withWorkload {m : Type → Type} [Monad m] (d : Desk) (wanted : Wanted)
    (goOn : Workload → m (Answer × Desk)) : m (Answer × Desk) :=
  match wanted with
  | .unreadable => return (.unreadable, d)
  | .refused stop => return (.stopped stop, d)
  | .accepted w => goOn w

/-- What the desk answers to a step, read at some time by some clock. A step that could not be read is
none; once the store is closed, that is the answer to everything. -/
def step {m : Type → Type} [Monad m] (clock : m UInt64) (createdAt : Int64) (d : Desk) (step? : Option Step) :
    m (Answer × Desk) :=
  if d.closed then return (.closed, d)
  else match step? with
  | none => return (.unreadable, d)
  | some .name => return (.name d.engine.name, d)
  | some (.openSession session table) => return d.openSession session table
  | some (.beginTxn session txn) => return d.beginTxn session txn
  | some (.insert txn key value) => return d.inTxnCall txn (.insert key value) .verdict
  | some (.prepare txn id) => return d.inTxnCall txn (.prepare id) fun _ => .done
  | some (.commit txn) => return d.endTxn txn .commit
  | some (.abort txn) => return d.endTxn txn .abort
  | some (.dropTxn txn) => return d.endTxn txn .dropTxn
  | some (.close session) => return d.endSession session .close
  | some (.dropSession session) => return d.endSession session .dropSession
  | some (.count table) => return d.count table
  | some .openSessions =>
    match d.engine with
    | .rowLocks s => return (.number s.openSessions, d)
    | .scripted s => return (.number s.openSessions, d)
    | _ => return (.unsupported, d)
  | some (.keys table) =>
    match d.engine with
    | .rowLocks s => return (.keys (s.keys table), d)
    | .scripted s => return (.keys (s.keys table), d)
    | _ => return (.unsupported, d)
  | some (.value table key) =>
    match d.engine with
    | .rowLocks s => return (.value (s.value table key), d)
    | _ => return (.unsupported, d)
  | some .takeLog =>
    match d.engine with
    | .scripted s => return (.log s.takeLog.1, { d with engine := .scripted s.takeLog.2 })
    | _ => return (.unsupported, d)
  | some (.runner runner wanted createdAt) =>
    d.withWorkload wanted fun w =>
      return (.done, { d with runners := d.runners.insert runner (w, createdAt, []) })
  | some (.runBatch runner session thread round) => return d.runBatch runner session thread round
  | some (.hire worker id table wanted createdAt) =>
    if worker ∈ d.workers || d.mustWait then return (.busy, d)
    else d.withWorkload wanted fun w => return d.hire worker ⟨id, table, w, createdAt⟩
  | some (.runWorker worker) => d.runWorker clock worker
  | some (.dropWorker worker) => return d.dropWorker worker
  | some (.setHalt raised) => return (.done, { d with halt := raised })
  | some (.bench table wanted verify) =>
    if d.mustWait then return (.busy, d)
    else d.withWorkload wanted fun w => d.bench clock createdAt ⟨w, table, verify⟩
  | some .shut =>
    match d.engine.shut with
    | .ok _ => return (.done, { d with closed := true })
    | .error stop => return (.stopped stop, { d with closed := true })

end Desk

end InsertBench
