import InsertBench.CommandLine.Help
import InsertBench.CommandLine.Reading
import InsertBench.Run.Bench

/-! # The program

From the words of a command line to what is printed and the exit status. The status is 0 after help and
after a run that succeeded, 255 after anything that failed, and 101 after a fault.
-/
namespace InsertBench

/-- What the program meets. By itself all goes well, and nothing is added to the errors of a command line. -/
structure Surroundings where
  /-- What is printed below an error of the command line, such as how to use the program. -/
  advice : CommandLine.Misuse → List String := fun _ => []
  troubles : Troubles := .calm
  /-- The system clock tells no time since its epoch. -/
  clockBehind : Bool := false

structure Ending where
  status : UInt32
  lines : List String
deriving DecidableEq

structure Job where
  bench : Bench
  backend : Backend
  banner : List String
deriving DecidableEq

def Backend.text : Backend → String
  | rowLocks => "MemBtree"
  | singleWriter => "Redb"
  | buffered => "Sled"

namespace Ending

/-- A failure is told, a fault is not. -/
def ofStop (told : List String) : Stop → Ending
  | .failed why => ⟨255, told ++ [s!"error: {why.message}"]⟩
  | .crashed _ => ⟨101, told⟩

def ofInterruption (advice : CommandLine.Misuse → List String) : CommandLine.Interruption → Ending
  | .misuse how => ⟨255, how.message :: advice how⟩
  | .help true => ⟨0, CommandLine.fullHelp⟩
  | .help false => ⟨0, CommandLine.briefHelp⟩
  | .version => ⟨0, [CommandLine.version]⟩

end Ending

namespace Job

def ofOptions (o : CommandLine.Options) : Except Ending Job :=
  match Workload.plan o.totalRows o.rowsPerTxn o.threads o.sessionStart with
  | .error stop => .error (.ofStop [] stop)
  | .ok w =>
    let retry := match o.maxRetries with
      | some most => Retry.bounded most
      | none => w.retry
    let w := { w with twoPhase := o.twoPhase, retry }
    match w.summary with
    | .error how => .error (.ofStop ["=== CONFIG ==="] (.crashed how))
    | .ok summary => .ok {
        bench := ⟨w, o.table, o.verify⟩
        backend := o.backend
        banner := ["=== CONFIG ===", s!"store: {o.backend.text} | table: {o.table} | {summary}"] }

def ofWords (words : List String) (advice : CommandLine.Misuse → List String := fun _ => []) :
    Except Ending Job :=
  match CommandLine.read words with
  | .error interruption => .error (.ofInterruption advice interruption)
  | .ok options => ofOptions options

def ending (job : Job) : Except Stop Report → Ending
  | .error stop => .ofStop job.banner stop
  | .ok report =>
    match report.lines with
    | .ok lines => ⟨0, job.banner ++ lines⟩
    | .error how => .ofStop job.banner (.crashed how)

def result {m : Type → Type} [Monad m] (clock : m UInt64) (createdAt : Int64) (job : Job)
    (world : Surroundings) : m (Option (Except Stop Report)) :=
  match Engine.openNew world.troubles job.backend with
  | .error stop => return some (.error stop)
  | .ok s =>
    if world.clockBehind then
      return some (.error (.failed (.reported "second time provided was later than self")))
    else job.bench.run clock createdAt (Engine.store.under Engine.needs world.troubles) s

def run {m : Type → Type} [Monad m] (clock : m UInt64) (createdAt : Int64) (job : Job)
    (world : Surroundings := {}) : m (Option Ending) := do
  return (← job.result clock createdAt world).map job.ending

end Job

/-- What the program does with its words. There is no ending if a call is never answered. -/
def Program.run {m : Type → Type} [Monad m] (clock : m UInt64) (createdAt : Int64) (words : List String)
    (world : Surroundings := {}) : m (Option Ending) :=
  match Job.ofWords words world.advice with
  | .error ending => return some ending
  | .ok job => job.run clock createdAt world

end InsertBench
