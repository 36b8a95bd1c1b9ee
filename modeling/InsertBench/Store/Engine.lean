import InsertBench.Store.Buffered
import InsertBench.Store.RowLocks
import InsertBench.Store.Scripted
import InsertBench.Store.SingleWriter

/-! # The stores to choose from -/
namespace InsertBench

inductive Backend
  | rowLocks
  | singleWriter
  | buffered
deriving DecidableEq

inductive Engine
  | rowLocks (s : RowLocks)
  | singleWriter (s : SingleWriter)
  | buffered (s : Buffered)
  | scripted (s : Scripted)

namespace Engine

def new : Backend → Engine
  | .rowLocks => .rowLocks .empty
  | .singleWriter => .singleWriter .empty
  | .buffered => .buffered .empty

def name : Engine → String
  | rowLocks s => RowLocks.store.name s
  | singleWriter s => SingleWriter.store.name s
  | buffered s => Buffered.store.name s
  | scripted s => Scripted.store.name s

def call (e : Engine) (seat : Nat) (request : Request) : Option (Reply × Engine) :=
  match e with
  | rowLocks s => (s.call seat request).map fun (reply, s) => (reply, rowLocks s)
  | singleWriter s => (s.call seat request).map fun (reply, s) => (reply, singleWriter s)
  | buffered s => (s.call seat request).map fun (reply, s) => (reply, buffered s)
  | scripted s => (s.call seat request).map fun (reply, s) => (reply, scripted s)

def rowCount (e : Engine) (table : String) : Except Stop UInt64 × Engine :=
  match e with
  | rowLocks s => (.ok (s.rowCount table), e)
  | singleWriter s => (s.rowCount table, e)
  | buffered s => (.ok (s.rowCount table), e)
  | scripted s => let (count, s) := s.rowCount table; (count, scripted s)

def shut : Engine → Except Stop Unit
  | rowLocks s => s.shut
  | singleWriter _ | buffered _ => .ok ()
  | scripted s => s.shut

def store : Store Engine where
  name := name
  call := call
  rowCount := rowCount
  shut := shut

def needs : Needs Engine where
  call
    | singleWriter s, seat, request => (SingleWriter.needs.call s seat request).map singleWriter
    | buffered s, seat, request => (Buffered.needs.call s seat request).map buffered
    | rowLocks _, _, _ | scripted _, _, _ => none
  rowCount
    | singleWriter s => SingleWriter.needs.rowCount s
    | buffered s => Buffered.needs.rowCount s
    | rowLocks _ | scripted _ => false
  shut
    | singleWriter s => SingleWriter.needs.shut s
    | buffered s => Buffered.needs.shut s
    | rowLocks _ | scripted _ => false

/-- Opens a new store. Where it keeps files, that needs the system. -/
def openNew (troubles : Troubles) : Backend → Except Stop (Engine × Nat)
  | .rowLocks => .ok (new .rowLocks, 0)
  | backend =>
    match troubles 0 with
    | none => .ok (new backend, 1)
    | some text => .error (.failed (.during .openStore (.reported text)))

end Engine

end InsertBench
