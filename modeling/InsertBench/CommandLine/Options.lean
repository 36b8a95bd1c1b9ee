import InsertBench.CommandLine.Number
import InsertBench.Store.Engine
import InsertBench.Text.Plain
import InsertBench.Workload.Basic

/-! # Options

What the command line can say, and what can be wrong with it.
-/
namespace InsertBench.CommandLine

structure Options where
  totalRows : UInt64
  rowsPerTxn : UInt64
  threads : UInt64
  sessionStart : SessionStart
  backend : Backend
  table : String
  twoPhase : Bool
  maxRetries : Option UInt64
  verify : Bool
deriving DecidableEq

inductive Argument
  | totalRows
  | rowsPerTxn
  | threads
  | sessionStart
  | backend
  | table
  | twoPhase
  | maxRetries
  | verify
  | help
  | version
deriving DecidableEq

namespace Argument

def usage : Argument → String
  | totalRows => "<TOTAL_ROWS>"
  | rowsPerTxn => "<ROWS_PER_TXN>"
  | threads => "<THREAD_COUNT>"
  | sessionStart => "[INIT_MODE]"
  | backend => "--store <STORE>"
  | table => "--table <TABLE>"
  | twoPhase => "--two-phase"
  | maxRetries => "--max-retries <MAX_RETRIES>"
  | verify => "--verify"
  | help => "--help"
  | version => "--version"

def places : List Argument := [totalRows, rowsPerTxn, threads, sessionStart]

def ofName? : String → Option Argument
  | "store" => some backend
  | "table" => some table
  | "two-phase" => some twoPhase
  | "max-retries" => some maxRetries
  | "verify" => some verify
  | "help" => some help
  | "version" => some version
  | _ => none

def takesValue : Argument → Bool
  | backend | table | maxRetries => true
  | _ => false

end Argument

inductive Misuse
  | invalidNumber (word : String) (arg : Argument) (why : NumberError)
  | invalidChoice (word : String) (arg : Argument)
  | valueMissing (arg : Argument)
  | valueUnwanted (word : String) (arg : Argument)
  | unexpected (word : String)
  | repeated (arg : Argument)
  | requiredMissing
deriving DecidableEq

/-- What is said of a misuse; words of the command line are shown in plain text. -/
def Misuse.message : Misuse → String
  | invalidNumber word arg why =>
    s!"error: invalid value '{Text.plain word}' for '{arg.usage}': {why.message}"
  | invalidChoice word arg => s!"error: invalid value '{Text.plain word}' for '{arg.usage}'"
  | valueMissing arg => s!"error: a value is required for '{arg.usage}' but none was supplied"
  | valueUnwanted word arg =>
    s!"error: unexpected value '{Text.plain word}' for '{arg.usage}' found; no more were expected"
  | unexpected word => s!"error: unexpected argument '{Text.plain word}' found"
  | repeated arg => s!"error: the argument '{arg.usage}' cannot be used multiple times"
  | requiredMissing => "error: the following required arguments were not provided:"

/-- What a command line asks for that is no benchmark. -/
inductive Interruption
  | misuse (how : Misuse)
  | help (long : Bool)
  | version
deriving DecidableEq

end InsertBench.CommandLine
