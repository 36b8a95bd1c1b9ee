import InsertBench.CommandLine.Options

/-! # Reading a command line

Words are taken from left to right. A word that stands for a value is held back and looked at when the
next word has been accepted, or at the end; so a word that nothing accepts is reported before a wrong
value that stands right before it.
-/
namespace InsertBench.CommandLine

/-- A value that has not been looked at yet. -/
inductive Pending
  | nothing
  /-- An option was named, and its value has not come. -/
  | awaited (arg : Argument)
  | given (arg : Argument) (word : String)
deriving DecidableEq

structure Reading where
  totalRows : Option UInt64
  rowsPerTxn : Option UInt64
  threads : Option UInt64
  sessionStart : Option SessionStart
  backend : Option Backend
  table : Option String
  maxRetries : Option UInt64
  twoPhase : Bool
  verify : Bool
  pending : Pending
  /-- The arguments that the next words without a name are for. -/
  places : List Argument
  /-- Whether two dashes have ended the options. -/
  optionsEnded : Bool
deriving DecidableEq

abbrev Result := Except Interruption

def misuse {α : Type} (how : Misuse) : Result α := .error (.misuse how)

def numberOf (arg : Argument) (word : String) : Result UInt64 :=
  match readPositive word with
  | .ok n => .ok n
  | .error why => misuse (.invalidNumber word arg why)

def choiceOf {α : Type} (arg : Argument) (choices : List (String × α)) (word : String) : Result α :=
  match choices.lookup word with
  | some choice => .ok choice
  | none => misuse (if word = "" then .valueMissing arg else .invalidChoice word arg)

def once {α : Type} (arg : Argument) (before : Option α) (value : Result α) : Result (Option α) :=
  if before.isSome then misuse (.repeated arg) else value.map some

namespace Reading

def start : Reading :=
  ⟨none, none, none, none, none, none, none, false, false, .nothing, Argument.places, false⟩

def assign (r : Reading) (arg : Argument) (word : String) : Result Reading := do
  match arg with
  | .totalRows => return { r with totalRows := ← once arg r.totalRows (numberOf arg word) }
  | .rowsPerTxn => return { r with rowsPerTxn := ← once arg r.rowsPerTxn (numberOf arg word) }
  | .threads => return { r with threads := ← once arg r.threads (numberOf arg word) }
  | .maxRetries => return { r with maxRetries := ← once arg r.maxRetries (numberOf arg word) }
  | .table => return { r with table := ← once arg r.table (.ok word) }
  | .sessionStart =>
    let choices := [("eager", SessionStart.eager), ("lazy", .lazy)]
    return { r with sessionStart := ← once arg r.sessionStart (choiceOf arg choices word) }
  | .backend =>
    let choices := [("mem-btree", Backend.rowLocks), ("redb", .singleWriter), ("sled", .buffered)]
    return { r with backend := ← once arg r.backend (choiceOf arg choices word) }
  | .twoPhase | .verify | .help | .version => misuse (.valueUnwanted word arg)

def settle (r : Reading) : Result Reading :=
  match r.pending with
  | .nothing => .ok r
  | .awaited arg => misuse (.valueMissing arg)
  | .given arg word => { r with pending := .nothing }.assign arg word

def raise (r : Reading) (arg : Argument) : Result Reading :=
  match arg with
  | .twoPhase => if r.twoPhase then misuse (.repeated arg) else .ok { r with twoPhase := true }
  | .verify => if r.verify then misuse (.repeated arg) else .ok { r with verify := true }
  | .help => .error (.help true)
  | .version => .error .version
  | _ => .ok { r with pending := .awaited arg }

def takePlaced (r : Reading) (word : String) : Result Reading :=
  match r.places with
  | [] => misuse (.unexpected word)
  | arg :: places => do return { ← r.settle with pending := .given arg word, places }

/-- Takes what follows two dashes: a name, which may have a value attached. -/
def takeNamed (r : Reading) (chars : List Char) : Result Reading :=
  let name := String.ofList (chars.takeWhile (· ≠ '='))
  match Argument.ofName? name, chars.dropWhile (· ≠ '=') with
  | none, _ => misuse (.unexpected s!"--{name}")
  | some arg, [] => do (← r.settle).raise arg
  | some arg, _ :: value =>
    if arg.takesValue then do (← r.settle).assign arg (String.ofList value)
    else misuse (.valueUnwanted (String.ofList value) arg)

def takeLetter (r : Reading) (letter : Char) : Result Reading := do
  if letter = 'h' then
    let _ ← r.settle
    throw (.help false)
  if letter = 'V' then
    let _ ← r.settle
    throw .version
  misuse (.unexpected s!"-{letter}")

def take (r : Reading) (word : String) : Result Reading :=
  if r.optionsEnded then r.takePlaced word
  else match word.toList with
  | ['-', '-'] => .ok { r with optionsEnded := true }
  | '-' :: '-' :: chars => r.takeNamed chars
  | '-' :: letter :: _ => r.takeLetter letter
  | _ =>
    match r.pending with
    | .awaited arg => .ok { r with pending := .given arg word }
    | _ => r.takePlaced word

def finish (r : Reading) : Result Options := do
  let r ← r.settle
  match r.totalRows, r.rowsPerTxn, r.threads with
  | some totalRows, some rowsPerTxn, some threads =>
    return {
      totalRows, rowsPerTxn, threads
      sessionStart := r.sessionStart.getD .eager
      backend := r.backend.getD .rowLocks
      table := r.table.getD "bench"
      twoPhase := r.twoPhase
      maxRetries := r.maxRetries
      verify := r.verify }
  | _, _, _ => misuse .requiredMissing

end Reading

def read (words : List String) : Result Options := do
  (← words.foldlM Reading.take Reading.start).finish

end InsertBench.CommandLine
