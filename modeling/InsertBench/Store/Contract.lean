import InsertBench.Bytes
import InsertBench.Failure

/-! # What a store is

A store answers calls that arrive through sessions, and a session has at most one transaction at a
time. The side that calls names the session by its seat. A store may answer as it likes: accept a call,
report a conflict, fail or fault.
-/
namespace InsertBench

/-- A call through the session of a seat. -/
inductive Request
  | openSession (table : String)
  | beginTxn
  | insert (key : Int64) (value : Bytes)
  /-- The first phase of a two-phase commit. -/
  | prepare (id : UInt64)
  | commit
  | abort
  /-- Lets go of a transaction that was neither committed nor aborted, which rolls it back. -/
  | dropTxn
  | close
  /-- Lets go of a session that was not closed. -/
  | dropSession
deriving DecidableEq

inductive Verdict
  | accepted
  /-- Another live transaction holds a write lock on the row. Only an insert can meet a conflict. -/
  | conflict
deriving DecidableEq

abbrev Reply := Except Stop Verdict

structure Store (σ : Type) where
  name : σ → String
  /-- The reply to a call through the session of a seat, and the store after it. There is none while
  the call has to wait, and none for a call that the seat is in no position to make. -/
  call : σ → Nat → Request → Option (Reply × σ)
  /-- The number of committed rows of a table. -/
  rowCount : σ → String → Except Stop UInt64 × σ
  shut : σ → Except Stop Unit

end InsertBench
