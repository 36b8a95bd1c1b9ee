import InsertBench.Store.Needs
import Std.Data.ExtTreeMap

/-! # Tables with a single writer

One transaction writes at a time, on a copy of its table that a commit puts in place. Whoever else
wants to write, or to open a session, waits. So inserts never meet a conflict. An insert stores its
row before it looks at what was there: a duplicate is refused, and has replaced the row nevertheless.
-/
namespace InsertBench

structure SingleWriter.Txn where
  seat : Nat
  table : String
  rows : Std.ExtTreeMap Int64 Bytes

structure SingleWriter where
  tables : Std.ExtTreeMap String (Std.ExtTreeMap Int64 Bytes)
  sessions : Std.ExtTreeMap Nat String
  writer : Option SingleWriter.Txn

namespace SingleWriter

def empty : SingleWriter := ⟨{}, {}, none⟩

def rows (s : SingleWriter) (table : String) : Std.ExtTreeMap Int64 Bytes := s.tables[table]?.getD {}

def openSession (s : SingleWriter) (seat : Nat) (table : String) : Option (Reply × SingleWriter) :=
  if s.writer.isSome ∨ seat ∈ s.sessions then none
  else if table = "" then some (.error (.crashed .unnamedTable), s)
  else some (.ok .accepted, { s with
    tables := s.tables.insertIfNew table {}
    sessions := s.sessions.insert seat table })

def beginTxn (s : SingleWriter) (seat : Nat) : Option (Reply × SingleWriter) :=
  match s.writer, s.sessions[seat]? with
  | none, some table => some (.ok .accepted, { s with writer := some ⟨seat, table, s.rows table⟩ })
  | _, _ => none

def txn? (s : SingleWriter) (seat : Nat) : Option Txn := s.writer.filter (·.seat = seat)

def insert (s : SingleWriter) (seat : Nat) (key : Int64) (value : Bytes) : Option (Reply × SingleWriter) :=
  match s.txn? seat with
  | some txn =>
    let reply : Reply :=
      if key ∈ txn.rows then .error (.failed (.duplicateKey key)) else .ok .accepted
    some (reply, { s with writer := some { txn with rows := txn.rows.insert key value } })
  | none => none

def prepare (s : SingleWriter) (seat : Nat) : Option (Reply × SingleWriter) :=
  match s.txn? seat with
  | some _ => some (.ok .accepted, s)
  | none => none

def commit (s : SingleWriter) (seat : Nat) : Option (Reply × SingleWriter) :=
  match s.txn? seat with
  | some txn => some (.ok .accepted, { s with tables := s.tables.insert txn.table txn.rows, writer := none })
  | none => none

def rollBack (s : SingleWriter) (seat : Nat) : Option (Reply × SingleWriter) :=
  match s.txn? seat with
  | some _ => some (.ok .accepted, { s with writer := none })
  | none => none

def closeSession (s : SingleWriter) (seat : Nat) : Option (Reply × SingleWriter) :=
  if (s.txn? seat).isSome ∨ seat ∉ s.sessions then none
  else some (.ok .accepted, { s with sessions := s.sessions.erase seat })

def call (s : SingleWriter) (seat : Nat) : Request → Option (Reply × SingleWriter)
  | .openSession table => s.openSession seat table
  | .beginTxn => s.beginTxn seat
  | .insert key value => s.insert seat key value
  | .prepare _ => s.prepare seat
  | .commit => s.commit seat
  | .abort | .dropTxn => s.rollBack seat
  | .close | .dropSession => s.closeSession seat

def rowCount (s : SingleWriter) (table : String) : Except Stop UInt64 :=
  if table = "" then .error (.crashed .unnamedTable) else .ok (s.rows table).size.toUInt64

def store : Store SingleWriter where
  name _ := "redb"
  call := call
  rowCount s table := (s.rowCount table, s)
  shut _ := .ok ()

/-- The system is not needed to prepare or to close a session, and what it fails to drop is dropped. A
transaction that it fails to commit or to abort is over. -/
def needs : Needs SingleWriter where
  call s seat
    | .openSession _ | .beginTxn | .insert .. => some s
    | .commit | .abort => (s.rollBack seat).map (·.2)
    | .prepare _ | .dropTxn | .close | .dropSession => none
  rowCount _ := true
  shut _ := false

end SingleWriter

end InsertBench
