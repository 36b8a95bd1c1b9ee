import InsertBench.Fault

/-! # Failures

A failure is an error that is handed to the caller. Each caller on the way may say what it was doing,
and the message joins these from the outermost to the cause.
-/
namespace InsertBench

inductive Refusal
  | noRows
  | noRowsPerTxn
  | noThreads
  | tooManyRows
  | noWholeRound (totalRows rowsPerTxn threads : UInt64)
deriving DecidableEq

inductive Activity
  | beginTxn
  | insertKey (key : Int64)
  | abortTxn
  | prepareTxn
  | commitTxn
  | openSession (worker : UInt64)
  | closeSession (worker : UInt64)
  | work (worker : UInt64)
  | startWorker (worker : UInt64)
  | openStore
  | closeStore
  | countRows
deriving DecidableEq

inductive Failure
  | refused (why : Refusal)
  | insertAfterPrepare (txn : UInt64)
  | alreadyPrepared (txn : UInt64)
  | duplicateKeyWithin (key : Int64) (txn : UInt64)
  | duplicateKey (key : Int64)
  | sessionsOpen (count : UInt64)
  /-- An error of a store or of the system, in words of its own. -/
  | reported (text : String)
  | gaveUp (thread round conflicts : UInt64) (key : Int64)
  | workerPanicked
  | rowsDiffer (stored claimed : UInt64)
  | during (activity : Activity) (cause : Failure)
deriving DecidableEq

def Refusal.message : Refusal → String
  | noRows => "total_rows must be positive"
  | noRowsPerTxn => "rows_per_txn must be positive"
  | noThreads => "thread_count must be positive"
  | tooManyRows => "total_rows must fit a signed 64-bit key"
  | noWholeRound totalRows rowsPerTxn threads =>
    s!"{totalRows} rows do not fill one batch of {rowsPerTxn} for each of {threads} threads"

def Activity.message : Activity → String
  | beginTxn => "begin transaction"
  | insertKey key => s!"insert key {key}"
  | abortTxn => "abort transaction"
  | prepareTxn => "prepare transaction"
  | commitTxn => "commit transaction"
  | openSession worker => s!"worker {worker}: open session"
  | closeSession worker => s!"worker {worker}: close session"
  | work worker => s!"worker {worker}"
  | startWorker worker => s!"spawn worker {worker}"
  | openStore => "open store environment"
  | closeStore => "close store environment"
  | countRows => "count stored rows"

def Failure.message : Failure → String
  | refused why => why.message
  | insertAfterPrepare txn => s!"txn {txn}: insert after prepare"
  | alreadyPrepared txn => s!"txn {txn} already prepared"
  | duplicateKeyWithin key txn => s!"duplicate key {key} within txn {txn}"
  | duplicateKey key => s!"duplicate key {key}"
  | sessionsOpen count => s!"{count} session(s) still open at close"
  | reported text => text
  | gaveUp thread round conflicts key =>
    s!"thread {thread} iteration {round}: gave up after {conflicts} conflicts (last on key {key})"
  | workerPanicked => "worker panicked"
  | rowsDiffer stored claimed => s!"store holds {stored} rows, workers reported {claimed}"
  | during activity cause => s!"{activity.message}: {cause.message}"

/-- How a computation ends early: by an error for its caller, or by a fault that unwinds it. -/
inductive Stop
  | failed (why : Failure)
  | crashed (how : Fault)
deriving DecidableEq

def Stop.message : Stop → String
  | failed why => why.message
  | crashed how => how.message

def Stop.during (activity : Activity) : Stop → Stop
  | failed why => failed (.during activity why)
  | crashed how => crashed how

def Stop.lift {α : Type} : Except Fault α → Except Stop α
  | .ok a => .ok a
  | .error how => .error (crashed how)

end InsertBench
