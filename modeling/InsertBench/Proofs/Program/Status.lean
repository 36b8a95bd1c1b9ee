import InsertBench.Proofs.Program.NewStore

/-! # The status of the program

Which words make the program end with which status, and what it prints then, whatever the system does.
-/
namespace InsertBench

namespace Job

open CommandLine (Options)

def workload (o : Options) (w : Workload) : Workload :=
  { w with
    twoPhase := o.twoPhase
    retry := match o.maxRetries with
      | some most => .bounded most
      | none => w.retry }

theorem ofOptions_refused {o : Options} {why : Refusal}
    (h : Workload.plan o.totalRows o.rowsPerTxn o.threads o.sessionStart = .error (.failed (.refused why))) :
    ofOptions o = .error ⟨255, [s!"error: {why.message}"]⟩ := by
  rw [ofOptions, h]
  rfl

theorem ofOptions_accepted {o : Options} {w : Workload}
    (h : Workload.plan o.totalRows o.rowsPerTxn o.threads o.sessionStart = .ok w) :
    ∃ line, ofOptions o = .ok ⟨⟨workload o w, o.table, o.verify⟩, o.backend, ["=== CONFIG ===", line]⟩ := by
  rw [ofOptions, h, workload]
  rcases o.maxRetries with _ | most
  all_goals
    obtain ⟨summary, hsummary⟩ := (Workload.accepted_of_plan h o.twoPhase _).summary_ok
    dsimp only
    rw [hsummary]
    exact ⟨_, rfl⟩

end Job

namespace Job

variable {job : Job} {world : Surroundings} {createdAt : Int64} {result : Except Stop Report} {faults : Prop}

/-- How a job ends that came to a result: with status 0 and a report if it succeeded. -/
structure Concludes (job : Job) (faults : Prop) (result : Except Stop Report) : Prop where
  success : (job.ending result).status = 0 ↔ ∃ report, result = .ok report
  /-- Any other status is 255, but for faults. -/
  failure : ¬ faults → (job.ending result).status ≠ 0 → (job.ending result).status = 255
  faulted : faults → job.ending result = ⟨101, job.banner⟩
  report {report : Report} : result = .ok report →
    ∃ lines, report.lines = .ok lines ∧ (job.ending result).lines = job.banner ++ lines
  told {why : Failure} : result = .error (.failed why) →
    (job.ending result).lines = job.banner ++ [s!"error: {why.message}"]

theorem concludes_of_recorded (hfaults : (∃ how, result = .error (.crashed how)) ↔ faults)
    (hrecorded : ∀ report, result = .ok report → report.latency.recorded < UInt64.size) :
    job.Concludes faults result := by
  rcases result with (why | how) | report
  · have hnone : ¬ faults := fun hf => nomatch hfaults.mpr hf
    constructor
    case success => simp [ending, Ending.ofStop]
    case failure => exact fun _ _ => rfl
    case faulted => exact fun hf => absurd hf hnone
    case report => nofun
    case told =>
      rintro _ ⟨⟩
      rfl
  · have hfault := hfaults.mp ⟨how, rfl⟩
    constructor
    case success => simp [ending, Ending.ofStop]
    case failure => exact fun hf => absurd hfault hf
    case faulted => exact fun _ => rfl
    case report => nofun
    case told => nofun
  · have hnone : ¬ faults := fun hf => nomatch hfaults.mpr hf
    obtain ⟨lines, hlines⟩ := Report.lines_ok (hrecorded report rfl)
    have hending : job.ending (.ok report) = ⟨0, job.banner ++ lines⟩ := by rw [ending, hlines]
    constructor
    case success => simp [hending]
    case failure => exact fun _ hf => absurd (congrArg Ending.status hending) hf
    case faulted => exact fun hf => absurd hf hnone
    case report =>
      rintro _ ⟨⟩
      exact ⟨lines, hlines, congrArg Ending.lines hending⟩
    case told => nofun

theorem concludes_of_comesTo (hw : job.bench.workload.Accepted) (h : job.ComesTo world createdAt result) :
    job.Concludes (job.Faults world) result := by
  refine concludes_of_recorded (h.crashed_iff hw) ?_
  rintro report rfl
  exact h.recorded_lt hw

/-- On a store that never faults, and may fail wherever it likes, the job ends without a fault. -/
theorem concludes_of_steady (hw : job.bench.workload.Accepted) {σ : Type} {store : Store σ} {base : Nat}
    {s t : σ} {short : Option Crew.Shortage} {log : List Crew.Event} (hsteady : store.Steady)
    (hshut : ∀ s, Unfaulted (store.shut s))
    (h : job.bench.Returns createdAt store base (Crew.Runs store base) s short log result t)
    (hcounted : log.countP Crew.Event.isConflict < UInt64.size) :
    job.Concludes False (Bench.settle store result t) := by
  have hsettled := h.settled hw hsteady hshut hcounted
  refine concludes_of_recorded (iff_false_intro ?_) fun report hreport => ?_
  · rintro ⟨how, he⟩
    rw [he] at hsettled
    exact hsettled
  · obtain rfl := Bench.ok_of_settle hreport
    exact h.recorded_lt hw Crew.Runs.follows

end Job

namespace CommandLine

theorem head_append {first : String} {c : Char} (h : first.toList.head? = some c) (rest : String) :
    (first ++ rest).toList.head? = some c := by
  rw [String.toList_append, List.head?_append, h]
  rfl

theorem Misuse.head_message (how : Misuse) : how.message.toList.head? = some 'e' := by
  cases how with
  | requiredMissing => rfl
  | _ =>
    unfold message
    repeat apply head_append
    rfl

theorem ne_config {line : String} (h : line.toList.head? = some 'e') : line ≠ "=== CONFIG ===" := by
  rintro rfl
  exact absurd h (by decide)

end CommandLine

namespace Program

open CommandLine (read Misuse)

variable {words : List String} {world : Surroundings}

/-- The program prints these lines, of which the first is not the one before a configuration, and ends with
status 255. It reads no clock and has no store. -/
def TurnsAway (words : List String) (world : Surroundings) (first : String) (rest : List String) : Prop :=
  first ≠ "=== CONFIG ===" ∧ ∀ {m : Type → Type} [Monad m] (clock : m UInt64) (createdAt : Int64),
    run clock createdAt words world = return some ⟨255, first :: rest⟩

theorem run_of_error {ending : Ending} (h : Job.ofWords words world.advice = .error ending)
    {m : Type → Type} [Monad m] (clock : m UInt64) (createdAt : Int64) :
    run clock createdAt words world = return some ending := by
  rw [run, h]

/-- What the program does with words that do not ask for help or for its version. -/
structure Accountable (words : List String) (world : Surroundings) : Prop where
  misused {how : Misuse} : read words = .error (.misuse how) →
    TurnsAway words world how.message (world.advice how)
  refused {o : CommandLine.Options} {stop : Stop} : read words = .ok o →
    Workload.plan o.totalRows o.rowsPerTxn o.threads o.sessionStart = .error stop →
      ∃ why, stop = .failed (.refused why) ∧ TurnsAway words world s!"error: {why.message}" []
  /-- The job of accepted words has their configuration for its banner. It ends like this whichever way its
  run goes, on the store of its choice as on any other that does not fault, and the program runs it to an
  end. -/
  accepted {o : CommandLine.Options} {w : Workload} : read words = .ok o →
    Workload.plan o.totalRows o.rowsPerTxn o.threads o.sessionStart = .ok w →
      ∃ job : Job, job.bench = ⟨Job.workload o w, o.table, o.verify⟩ ∧ job.backend = o.backend ∧
        (∃ line, job.banner = ["=== CONFIG ===", line]) ∧
        (∀ createdAt result, job.ComesTo world createdAt result → job.Concludes (job.Faults world) result) ∧
        (∀ {σ : Type} (store : Store σ) (createdAt : Int64) (base : Nat) (s t : σ)
          (short : Option Crew.Shortage) (log : List Crew.Event) (result : Except Stop Report),
          store.Steady → (∀ s, Unfaulted (store.shut s)) →
          job.bench.Returns createdAt store base (Crew.Runs store base) s short log result t →
          log.countP Crew.Event.isConflict < UInt64.size →
            job.Concludes False (Bench.settle store result t)) ∧
        ∀ {τ : Type} (clock : StateM τ UInt64) (createdAt : Int64) (reading : τ), ∃ result later,
          (run clock createdAt words world).run reading = pure (some (job.ending result), later) ∧
            job.ComesTo world createdAt result

theorem status_of_words (words : List String) (world : Surroundings) : Accountable words world where
  misused {how} h := by
    have hwords : Job.ofWords words world.advice = .error ⟨255, how.message :: world.advice how⟩ := by
      rw [Job.ofWords, h]
      rfl
    exact ⟨CommandLine.ne_config how.head_message, fun clock createdAt => run_of_error hwords clock createdAt⟩
  refused {o stop} h hplan := by
    rcases Workload.plan_cases o.totalRows o.rowsPerTxn o.threads o.sessionStart with ⟨why, hwhy⟩ | hok
    · cases hwhy.symm.trans hplan
      have hwords : Job.ofWords words world.advice = .error ⟨255, [s!"error: {why.message}"]⟩ := by
        rw [Job.ofWords, h]
        exact Job.ofOptions_refused hwhy
      refine ⟨why, rfl, CommandLine.ne_config ?_, fun clock createdAt => run_of_error hwords clock createdAt⟩
      exact CommandLine.head_append rfl why.message
    · cases hok.symm.trans hplan
  accepted {o w} h hplan := by
    obtain ⟨line, hjob⟩ := Job.ofOptions_accepted hplan
    have hwords : Job.ofWords words world.advice = Job.ofOptions o := by rw [Job.ofWords, h]
    have hw : (Job.workload o w).Accepted := Workload.accepted_of_plan hplan _ _
    let job : Job := ⟨⟨Job.workload o w, o.table, o.verify⟩, o.backend, ["=== CONFIG ===", line]⟩
    refine ⟨job, rfl, rfl, ⟨line, rfl⟩, ?_, ?_, ?_⟩
    · intro createdAt result hcomes
      exact Job.concludes_of_comesTo hw hcomes
    · intro σ store createdAt base s t short log result hsteady hshut hreturns hcounted
      exact Job.concludes_of_steady hw hsteady hshut hreturns hcounted
    · intro τ clock createdAt reading
      obtain ⟨result, later, hrun, hcomes⟩ := Job.comesTo_of_result job world clock createdAt reading
      refine ⟨result, later, ?_, hcomes⟩
      rw [run, hwords, hjob]
      simp [Job.run, hrun, job]

/-- One row, for a single writer on a table that has no name. -/
def unnamed (start : String) : List String := ["1", "1", "1", start, "--store", "redb", "--table", ""]

def unnamedConfig (start : String) : List String :=
  ["=== CONFIG ===",
    s!"store: Redb | table:  | total rows: 1 | rows/txn: 1 | threads: 1 | init: {start} | " ++
    "iterations/thread: 1 | two-phase: false | retry: Unbounded"]

/-- With an eager worker the program faults, and with a lazy one it tells that a worker did. -/
theorem status_unnamed :
    read (unnamed "eager") = .ok ⟨1, 1, 1, .eager, .singleWriter, "", false, none, false⟩ ∧
    (run (m := Id) (pure 0) 0 (unnamed "eager")).run = some ⟨101, unnamedConfig "Eager"⟩ ∧
    (run (m := Id) (pure 0) 0 (unnamed "lazy")).run =
      some ⟨255, unnamedConfig "Lazy" ++ ["error: worker panicked"]⟩ := by
  refine ⟨rfl, ?_, ?_⟩
  · decide +kernel
  · have hjob : Job.ofWords (unnamed "lazy") = .ok
        ⟨⟨⟨1, 1, 1, .lazy, false, .unbounded⟩, "", false⟩, .singleWriter, unnamedConfig "Lazy"⟩ := by
      decide +kernel
    -- the worker opens its session itself, and the fault is its end
    have hworker (post : Post) (hname : post.table = "") (halt : Bool) :
        (Worker.new post).run (m := Id) (pure 0) (Engine.store.under Engine.needs .calm) 0
          (.new .singleWriter, 1) halt =
          some (⟨post, .zero post.id, .ended (some (.crashed .unnamedTable)), []⟩,
            (.new .singleWriter, 2), halt) := by
      have hcall : (Engine.store.under Engine.needs .calm).call (.new .singleWriter, 1) 0
          (.openSession post.table) =
          some (.error (.crashed .unnamedTable), (.new .singleWriter, 2)) := by
        rw [hname]
        rfl
      rw [Worker.run_of_call rfl hcall, Worker.run_of_ended rfl]
      rfl
    have hone : (1 : UInt64).toNat = 1 := rfl
    rw [run, hjob]
    simp only [Job.run, Job.result, Engine.openNew, Troubles.calm, Bench.run, Bench.runOn, hone, Crew.hire]
    simp only [Bench.met, Option.filter_none, Crew.muster, Crew.inTurn, Bench.post]
    rw [hworker _ rfl]
    rfl

/-- The disk is full when the store is to be opened. -/
example : (run (m := Id) (pure 0) 0 (unnamed "eager") { troubles := fun _ => some "disk full" }).run =
    some ⟨255, unnamedConfig "Eager" ++ ["error: open store environment: disk full"]⟩ := by
  decide +kernel

end Program

end InsertBench
