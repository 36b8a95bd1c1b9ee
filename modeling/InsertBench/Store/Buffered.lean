import InsertBench.Store.KeyBytes
import InsertBench.Store.Needs
import Std.Data.ExtTreeMap
import Std.Data.ExtTreeSet

/-! # Tables with buffered writes

Rows are kept by the bytes of their keys. A transaction buffers its rows, and a commit applies them all
at once. It holds no locks: transactions that are live together never conflict, and the later commit
overwrites.
-/
namespace InsertBench

namespace Buffered

structure Txn where
  /-- Every key that it tried to insert, refused or not. -/
  tried : Std.ExtTreeSet Int64
  /-- The rows that it inserted, latest first. -/
  batch : List (Bytes × Bytes)

structure Session where
  table : String
  txn : Option Txn

end Buffered

structure Buffered where
  tables : Std.ExtTreeMap String (Std.ExtTreeMap Bytes Bytes)
  sessions : Std.ExtTreeMap Nat Buffered.Session

namespace Buffered

def empty : Buffered := ⟨{}, {}⟩

def rows (s : Buffered) (table : String) : Std.ExtTreeMap Bytes Bytes := s.tables[table]?.getD {}

def txn? (s : Buffered) (seat : Nat) : Option (Session × Txn) := do
  let session ← s.sessions[seat]?
  let txn ← session.txn
  return (session, txn)

def setTxn (s : Buffered) (seat : Nat) (session : Session) (txn : Option Txn) : Buffered :=
  { s with sessions := s.sessions.insert seat { session with txn } }

def openSession (s : Buffered) (seat : Nat) (table : String) : Option (Reply × Buffered) :=
  if seat ∈ s.sessions then none
  else some (.ok .accepted, { s with sessions := s.sessions.insert seat ⟨table, none⟩ })

def beginTxn (s : Buffered) (seat : Nat) : Option (Reply × Buffered) :=
  match s.sessions[seat]? with
  | some ⟨table, none⟩ => some (.ok .accepted, s.setTxn seat ⟨table, none⟩ (some ⟨{}, []⟩))
  | _ => none

/-- A key is refused if the transaction tried it before or if it is committed. -/
def insert (s : Buffered) (seat : Nat) (key : Int64) (value : Bytes) : Option (Reply × Buffered) :=
  match s.txn? seat with
  | some (session, txn) =>
    let tried := txn.tried.insert key
    if key ∈ txn.tried ∨ keyBytes key ∈ s.rows session.table then
      some (.error (.failed (.duplicateKey key)), s.setTxn seat session (some { txn with tried }))
    else
      some (.ok .accepted, s.setTxn seat session (some ⟨tried, (keyBytes key, value) :: txn.batch⟩))
  | none => none

def prepare (s : Buffered) (seat : Nat) : Option (Reply × Buffered) :=
  match s.txn? seat with
  | some _ => some (.ok .accepted, s)
  | none => none

def commit (s : Buffered) (seat : Nat) : Option (Reply × Buffered) :=
  match s.txn? seat with
  | some (session, txn) =>
    let rows := txn.batch.foldr (fun entry rows => rows.insert entry.1 entry.2) (s.rows session.table)
    some (.ok .accepted,
      { s with tables := s.tables.insert session.table rows }.setTxn seat session none)
  | none => none

def rollBack (s : Buffered) (seat : Nat) : Option (Reply × Buffered) :=
  match s.txn? seat with
  | some (session, _) => some (.ok .accepted, s.setTxn seat session none)
  | none => none

def closeSession (s : Buffered) (seat : Nat) : Option (Reply × Buffered) :=
  match s.sessions[seat]? with
  | some ⟨_, none⟩ => some (.ok .accepted, { s with sessions := s.sessions.erase seat })
  | _ => none

def call (s : Buffered) (seat : Nat) : Request → Option (Reply × Buffered)
  | .openSession table => s.openSession seat table
  | .beginTxn => s.beginTxn seat
  | .insert key value => s.insert seat key value
  | .prepare _ => s.prepare seat
  | .commit => s.commit seat
  | .abort | .dropTxn => s.rollBack seat
  | .close | .dropSession => s.closeSession seat

def rowCount (s : Buffered) (table : String) : UInt64 := (s.rows table).size.toUInt64

def store : Store Buffered where
  name _ := "sled"
  call := call
  rowCount s table := (.ok (s.rowCount table), s)
  shut _ := .ok ()

/-- Only a key that the transaction has not tried before is looked up. A transaction that cannot be applied
is over, and a session that cannot be flushed is closed. -/
def needs : Needs Buffered where
  call s seat
    | .openSession _ => some s
    | .insert key _ => do
      let (session, txn) ← s.txn? seat
      if key ∈ txn.tried then none
      else some (s.setTxn seat session (some { txn with tried := txn.tried.insert key }))
    | .commit => (s.rollBack seat).map (·.2)
    | .close => (s.closeSession seat).map (·.2)
    | .beginTxn | .prepare _ | .abort | .dropTxn | .dropSession => none
  rowCount _ := true
  shut _ := true

end Buffered

end InsertBench
