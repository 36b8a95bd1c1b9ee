import InsertBench.Store.Contract
import Std.Data.ExtTreeMap
import Std.Data.ExtTreeSet

/-! # A store that follows a script

A store for rehearsals: it keeps no values, writes down every call, and goes wrong where its script
says so. Of the script's faults the first one that fits a call takes effect, so many times.
-/
namespace InsertBench

namespace Scripted

inductive CallKind
  | openSession
  | beginTxn
  | insert
  | prepare
  | commit
  | abort
  | close
  | rowCount
  | shut
deriving DecidableEq

inductive Effect
  | error (message : String)
  /-- An insert meets a conflict; any other call goes on as usual. -/
  | conflict
  | crash (message : String)
deriving DecidableEq

structure Planned where
  kind : CallKind
  /-- Which call of this kind it waits for, the first being number zero; any call if there is none. -/
  number : Option UInt64
  /-- The key, or the id to prepare, that it waits for; any if there is none. -/
  key : Option Int64
  /-- How often it can still take effect. -/
  times : UInt64
  effect : Effect
deriving DecidableEq

inductive Entry
  | opened (table : String)
  | began
  | inserted (key : Int64) (value : Option Bytes)
  | prepared (id : UInt64)
  | committed
  | aborted
  | closed
  | counted (table : String)
  | shut
  | droppedTxn
  | droppedSession
deriving DecidableEq

structure Session where
  table : String
  /-- The keys that its transaction inserted. -/
  txn : Option (List Int64)
deriving DecidableEq

structure Call where
  kind : CallKind
  key : Option Int64
  entry : Entry

def Planned.fits (p : Planned) (call : Call) (number : UInt64) : Bool :=
  p.kind == call.kind && 0 < p.times && (p.number.isNone || p.number == some number) &&
    (p.key.isNone || p.key == call.key)

/-- The effect of the first fault that fits, and the script with one use of it spent. -/
def consult (call : Call) (number : UInt64) : List Planned → Option Effect × List Planned
  | [] => (none, [])
  | p :: rest =>
    if p.fits call number then (some p.effect, { p with times := p.times - 1 } :: rest)
    else
      let (effect, rest) := consult call number rest
      (effect, p :: rest)

end Scripted

open Scripted in
structure Scripted where
  script : List Planned
  /-- Whether the log shows the values of inserts. -/
  logValues : Bool
  /-- The kinds of all calls, each with the number of calls so far. -/
  calls : List (CallKind × UInt64)
  log : List Entry
  tables : Std.ExtTreeMap String (Std.ExtTreeSet Int64)
  sessions : Std.ExtTreeMap Nat Session
  openSessions : UInt64

namespace Scripted

def new (script : List Planned) (logValues : Bool) : Scripted := ⟨script, logValues, [], [], {}, {}, 0⟩

def count (kind : CallKind) : List (CallKind × UInt64) → UInt64 × List (CallKind × UInt64)
  | [] => (0, [(kind, 1)])
  | (k, n) :: rest =>
    if k = kind then (n, (k, n + 1) :: rest)
    else
      let (m, rest) := count kind rest
      (m, (k, n) :: rest)

def note (s : Scripted) (call : Call) : Option Effect × Scripted :=
  let (number, calls) := count call.kind s.calls
  let (effect, script) := consult call number s.script
  (effect, { s with script, calls, log := call.entry :: s.log })

/-- The reply of a call that goes wrong by an error or a crash. -/
def Effect.stop? : Effect → Option Stop
  | error message => some (.failed (.reported message))
  | conflict => none
  | crash message => some (.crashed (.raised message))

/-- A call that changes the store by one function if it goes well and by another one in any case. -/
def perform (s : Scripted) (call : Call) (done always : Scripted → Scripted) : Reply × Scripted :=
  let (effect, s) := s.note call
  match effect >>= Effect.stop? with
  | some stop => (.error stop, always s)
  | none => (.ok .accepted, always (done s))

def setTxn (seat : Nat) (session : Session) (txn : Option (List Int64)) (s : Scripted) : Scripted :=
  { s with sessions := s.sessions.insert seat { session with txn } }

def forget (seat : Nat) (s : Scripted) : Scripted :=
  { s with sessions := s.sessions.erase seat, openSessions := s.openSessions - 1 }

def enter (seat : Nat) (table : String) (s : Scripted) : Scripted :=
  { s with sessions := s.sessions.insert seat ⟨table, none⟩, openSessions := s.openSessions + 1 }

def addKeys (table : String) (keys : List Int64) (s : Scripted) : Scripted :=
  { s with tables := s.tables.insert table (keys.foldl (·.insert ·) (s.tables[table]?.getD {})) }

def insert (s : Scripted) (seat : Nat) (session : Session) (keys : List Int64) (key : Int64)
    (value : Bytes) : Reply × Scripted :=
  let (effect, s) := s.note ⟨.insert, some key, .inserted key (if s.logValues then some value else none)⟩
  match effect with
  | none => (.ok .accepted, s.setTxn seat session (some (key :: keys)))
  | some .conflict => (.ok .conflict, s)
  | some (.error message) => (.error (.failed (.reported message)), s)
  | some (.crash message) => (.error (.crashed (.raised message)), s)

def callThrough (s : Scripted) (seat : Nat) (session : Session) : Request → Option (Reply × Scripted)
  | .openSession _ => none
  | .beginTxn =>
    match session.txn with
    | none => some (s.perform ⟨.beginTxn, none, .began⟩ (setTxn seat session (some [])) id)
    | some _ => none
  | .insert key value => session.txn.map fun keys => s.insert seat session keys key value
  | .prepare mark => session.txn.map fun _ =>
      s.perform ⟨.prepare, some mark.toInt64, .prepared mark⟩ id id
  | .commit => session.txn.map fun keys =>
      s.perform ⟨.commit, none, .committed⟩ (addKeys session.table keys) (setTxn seat session none)
  | .abort => session.txn.map fun _ =>
      s.perform ⟨.abort, none, .aborted⟩ id (setTxn seat session none)
  | .dropTxn => session.txn.map fun _ =>
      (.ok .accepted, { s with log := .droppedTxn :: s.log }.setTxn seat session none)
  | .close =>
    match session.txn with
    | none => some (s.perform ⟨.close, none, .closed⟩ id (forget seat))
    | some _ => none
  | .dropSession =>
    match session.txn with
    | none => some (.ok .accepted, { s with log := .droppedSession :: s.log }.forget seat)
    | some _ => none

def call (s : Scripted) (seat : Nat) (request : Request) : Option (Reply × Scripted) :=
  match s.sessions[seat]?, request with
  | some session, request => s.callThrough seat session request
  | none, .openSession table => some (s.perform ⟨.openSession, none, .opened table⟩ (enter seat table) id)
  | none, _ => none

def keys (s : Scripted) (table : String) : List Int64 := (s.tables[table]?.getD {}).toList

def rowCount (s : Scripted) (table : String) : Except Stop UInt64 × Scripted :=
  match s.perform ⟨.rowCount, none, .counted table⟩ id id with
  | (.ok _, s) => (.ok (s.keys table).length.toUInt64, s)
  | (.error stop, s) => (.error stop, s)

def shut (s : Scripted) : Except Stop Unit :=
  match (s.perform ⟨.shut, none, .shut⟩ id id).1 with
  | .ok _ => .ok ()
  | .error stop => .error stop

/-- The log since it was last read, earliest line first, and the store with an empty one. -/
def takeLog (s : Scripted) : List Entry × Scripted := (s.log.reverse, { s with log := [] })

def store : Store Scripted where
  name _ := "mock"
  call := call
  rowCount := rowCount
  shut := shut

end Scripted

end InsertBench
