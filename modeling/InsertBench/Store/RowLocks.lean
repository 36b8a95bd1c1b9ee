import InsertBench.Store.Contract
import Std.Data.ExtTreeMap

/-! # Tables with row locks

An insert takes a write lock on its key; if another live transaction holds the lock it reports a
conflict instead of waiting, so that waits can never form a cycle. Writes stay buffered in their
transaction until a commit applies them, and the locks are held until the rows are visible: a commit
is two operations, and other transactions may act between them.
-/
namespace InsertBench

abbrev Rows := Std.ExtTreeMap Int64 Bytes

namespace RowLocks

structure Table where
  rows : Rows
  /-- The transaction that holds the write lock of a key. -/
  locks : Std.ExtTreeMap Int64 UInt64

def Table.empty : Table := ⟨{}, {}⟩

inductive Phase
  | live
  /-- Its rows are committed and its locks still held. -/
  | applied
  /-- Its locks are released. -/
  | released
deriving DecidableEq

structure Txn where
  id : UInt64
  /-- What it inserted, latest first; every key is also locked by it. -/
  writes : List (Int64 × Bytes)
  prepared : Bool
  phase : Phase
deriving DecidableEq

structure Session where
  table : String
  txn : Option Txn
deriving DecidableEq

/-- What happens to the store at once, without interruption. -/
inductive Operation
  | openSession (table : String)
  | beginTxn
  | insert (key : Int64) (value : Bytes)
  | prepare
  | applyWrites
  | releaseLocks
  | dropTxn
  | closeSession
deriving DecidableEq

end RowLocks

open RowLocks in
structure RowLocks where
  tables : Std.ExtTreeMap String Table
  sessions : Std.ExtTreeMap Nat Session
  nextTxn : UInt64
  /-- Sessions opened and not yet closed or dropped. -/
  openSessions : UInt64

namespace RowLocks

def empty : RowLocks := ⟨{}, {}, 0, 0⟩

def table (s : RowLocks) (name : String) : Table := s.tables[name]?.getD .empty

def setTable (s : RowLocks) (name : String) (table : Table) : RowLocks :=
  { s with tables := s.tables.insert name table }

def txn? (s : RowLocks) (seat : Nat) : Option (Session × Txn) := do
  let session ← s.sessions[seat]?
  let txn ← session.txn
  return (session, txn)

def setTxn (s : RowLocks) (seat : Nat) (session : Session) (txn : Option Txn) : RowLocks :=
  { s with sessions := s.sessions.insert seat { session with txn } }

def unlock (locks : Std.ExtTreeMap Int64 UInt64) (txn : Txn) : Std.ExtTreeMap Int64 UInt64 :=
  txn.writes.foldr (fun entry locks => if locks[entry.1]? = some txn.id then locks.erase entry.1 else locks)
    locks

/-- Gives up the locks of a transaction, and forgets its writes: doing so again changes nothing. -/
def release (s : RowLocks) (seat : Nat) (session : Session) (txn : Txn) (phase : Phase) : RowLocks :=
  let table := s.table session.table
  (s.setTable session.table { table with locks := unlock table.locks txn }).setTxn seat session
    (some { txn with writes := [], phase })

def openSession (s : RowLocks) (seat : Nat) (table : String) : Option (Reply × RowLocks) :=
  if seat ∈ s.sessions then none
  else some (.ok .accepted, { s with
    tables := s.tables.insertIfNew table .empty
    sessions := s.sessions.insert seat ⟨table, none⟩
    openSessions := s.openSessions + 1 })

def beginTxn (s : RowLocks) (seat : Nat) : Option (Reply × RowLocks) :=
  match s.sessions[seat]? with
  | some ⟨table, none⟩ =>
    some (.ok .accepted, { s with
      sessions := s.sessions.insert seat ⟨table, some ⟨s.nextTxn, [], false, .live⟩⟩
      nextTxn := s.nextTxn + 1 })
  | _ => none

/-- Only an insert that is accepted changes anything: the key is locked and the row buffered. -/
def insert (s : RowLocks) (seat : Nat) (key : Int64) (value : Bytes) : Option (Reply × RowLocks) :=
  match s.txn? seat with
  | some (session, txn) =>
    if txn.phase ≠ .live then none
    else if txn.prepared then some (.error (.failed (.insertAfterPrepare txn.id)), s)
    else
      let table := s.table session.table
      match table.locks[key]? with
      | some holder =>
        if holder = txn.id then some (.error (.failed (.duplicateKeyWithin key txn.id)), s)
        else some (.ok .conflict, s)
      | none =>
        if key ∈ table.rows then some (.error (.failed (.duplicateKey key)), s)
        else
          let locked := { table with locks := table.locks.insert key txn.id }
          some (.ok .accepted, (s.setTable session.table locked).setTxn seat session
            (some { txn with writes := (key, value) :: txn.writes }))
  | none => none

def prepare (s : RowLocks) (seat : Nat) : Option (Reply × RowLocks) :=
  match s.txn? seat with
  | some (session, txn) =>
    if txn.phase ≠ .live then none
    else if txn.prepared then some (.error (.failed (.alreadyPrepared txn.id)), s)
    else some (.ok .accepted, s.setTxn seat session (some { txn with prepared := true }))
  | none => none

def applyWrites (s : RowLocks) (seat : Nat) : Option (Reply × RowLocks) :=
  match s.txn? seat with
  | some (session, txn) =>
    if txn.phase ≠ .live then none
    else
      let table := s.table session.table
      let rows := txn.writes.foldr (fun entry rows => rows.insert entry.1 entry.2) table.rows
      some (.ok .accepted, (s.setTable session.table { table with rows }).setTxn seat session
        (some { txn with phase := .applied }))
  | none => none

def releaseLocks (s : RowLocks) (seat : Nat) : Option (Reply × RowLocks) :=
  match s.txn? seat with
  | some (session, txn) =>
    if txn.phase = .released then none
    else some (.ok .accepted, s.release seat session txn .released)
  | none => none

/-- Lets go of a transaction, unless it is between the two halves of its commit. Its locks are
released, also if they are released already. -/
def dropTxn (s : RowLocks) (seat : Nat) : Option (Reply × RowLocks) :=
  match s.txn? seat with
  | some (session, txn) =>
    if txn.phase = .applied then none
    else some (.ok .accepted, (s.release seat session txn .released).setTxn seat session none)
  | none => none

def closeSession (s : RowLocks) (seat : Nat) : Option (Reply × RowLocks) :=
  match s.sessions[seat]? with
  | some ⟨_, none⟩ =>
    some (.ok .accepted, { s with
      sessions := s.sessions.erase seat
      openSessions := s.openSessions - 1 })
  | _ => none

def step (s : RowLocks) (seat : Nat) : Operation → Option (Reply × RowLocks)
  | .openSession table => s.openSession seat table
  | .beginTxn => s.beginTxn seat
  | .insert key value => s.insert seat key value
  | .prepare => s.prepare seat
  | .applyWrites => s.applyWrites seat
  | .releaseLocks => s.releaseLocks seat
  | .dropTxn => s.dropTxn seat
  | .closeSession => s.closeSession seat

def operations : Request → List Operation
  | .openSession table => [.openSession table]
  | .beginTxn => [.beginTxn]
  | .insert key value => [.insert key value]
  | .prepare _ => [.prepare]
  | .commit => [.applyWrites, .releaseLocks, .dropTxn]
  | .abort => [.releaseLocks, .dropTxn]
  | .dropTxn => [.dropTxn]
  | .close | .dropSession => [.closeSession]

def steps (s : RowLocks) (seat : Nat) : Reply → List Operation → Option (Reply × RowLocks)
  | reply, [] => some (reply, s)
  | _, op :: rest =>
    match s.step seat op with
    | some (reply, s) => s.steps seat reply rest
    | none => none

def call (s : RowLocks) (seat : Nat) (request : Request) : Option (Reply × RowLocks) :=
  s.steps seat (.ok .accepted) (operations request)

def rowCount (s : RowLocks) (table : String) : UInt64 := (s.table table).rows.size.toUInt64

def keys (s : RowLocks) (table : String) : List Int64 := (s.table table).rows.keys

def value (s : RowLocks) (table : String) (key : Int64) : Option Bytes := (s.table table).rows[key]?

def shut (s : RowLocks) : Except Stop Unit :=
  if s.openSessions = 0 then .ok () else .error (.failed (.sessionsOpen s.openSessions))

def store : Store RowLocks where
  name _ := "mem-btree"
  call := call
  rowCount s table := (.ok (s.rowCount table), s)
  shut := shut

end RowLocks

end InsertBench
