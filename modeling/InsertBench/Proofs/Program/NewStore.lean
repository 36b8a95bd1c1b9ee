import InsertBench.Program
import InsertBench.Proofs.Attentive.Under
import InsertBench.Proofs.Bench.Cleanup
import InsertBench.Proofs.Bench.Unfaulted

/-! # Runs on a new store

What opening a new store, a run on it and ending it come to, on a system that can fail wherever it is needed.
That is a fault if and only if a single writer is to open a session on a table that has no name, for an
eager worker, and nothing failed before.
-/
namespace InsertBench

section Under

variable {σ : Type} {store : Store σ} {needs : Needs σ} {troubles : Troubles}

theorem Bench.Calm.under (h : Calm store) : Calm (store.under needs troubles) := by
  intro s seat request reply t hcall
  rcases Store.under_call hcall with hcall | ⟨text, _, rfl⟩
  · exact h hcall
  · exact nofun

theorem Store.Steady.under (h : store.Steady) : (store.under needs troubles).Steady where
  call hcall := by
    rcases under_call hcall with hcall | ⟨text, _, rfl⟩
    · exact h.call hcall
    · trivial
  rowCount s table := by
    have hcount := h.rowCount s.1 table
    rcases hmeet : (store.under needs troubles).rowCount s table with ⟨found, t, after⟩
    rcases Troubles.meet_cases hmeet with ⟨rfl, _⟩ | ⟨text, _, rfl, _⟩
    · exact hcount
    · trivial

theorem Store.under_shut (h : ∀ s, Unfaulted (store.shut s)) (s : σ × Nat) :
    Unfaulted ((store.under needs troubles).shut s) := by
  have hshut : (store.under needs troubles).shut s = (troubles.meet s.2
    (if needs.shut s.1 then some s.1 else none) (store.shut s.1, s.1)).1 := rfl
  rcases hmeet : troubles.meet s.2 (if needs.shut s.1 then some s.1 else none) (store.shut s.1, s.1) with
    ⟨found, t, after⟩
  rw [hshut, hmeet]
  rcases Troubles.meet_cases hmeet with ⟨rfl, _⟩ | ⟨text, _, rfl, _⟩
  · exact h s.1
  · trivial

end Under

namespace SingleWriter

theorem call_open {s t : SingleWriter} {seat : Nat} {table : String} {reply : Reply}
    (h : store.call s seat (.openSession table) = some (reply, t)) :
    reply = if table = "" then .error (.crashed .unnamedTable) else .ok .accepted := by
  change s.openSession seat table = _ at h
  unfold openSession at h
  split at h
  · cases h
  · split at h <;> cases h <;> rename_i hname
    · rw [if_pos hname]
    · rw [if_neg hname]

theorem calm : Bench.Calm store := by
  intro s seat request reply t h
  change s.call seat request = _ at h
  cases request <;>
    simp only [call, openSession, beginTxn, insert, prepare, commit, rollBack, closeSession] at h <;>
    split at h <;> try split at h
  all_goals cases h <;> simp

variable {troubles : Troubles} {s t : SingleWriter × Nat} {seat : Nat} {table : String}

/-- A session is opened only on a table that has a name, and only there the opening can be no fault. -/
theorem opened_under {verdict : Verdict}
    (h : (store.under needs troubles).call s seat (.openSession table) = some (.ok verdict, t)) :
      table ≠ "" := by
  rcases Store.under_call h with hcall | ⟨_, _, hreply⟩
  · rintro rfl
    cases call_open hcall
  · cases hreply

theorem fault_under {how : Fault}
    (h : (store.under needs troubles).call s seat (.openSession table) = some (.error (.crashed how), t)) :
    table = "" := by
  rcases Store.under_call h with hcall | ⟨_, _, hreply⟩
  · have hreply := call_open hcall
    split at hreply
    · assumption
    · cases hreply
  · cases hreply

theorem fault_of_rowCount {how : Fault}
    (h : ((store.under needs troubles).rowCount s table).1 = .error (.crashed how)) : table = "" := by
  rcases hmeet : (store.under needs troubles).rowCount s table with ⟨found, u, after⟩
  rw [hmeet] at h
  obtain rfl : found = _ := h
  rcases Troubles.meet_cases hmeet with ⟨hcount, _⟩ | ⟨_, _, hreply, _⟩
  · change _ = s.1.rowCount table at hcount
    unfold rowCount at hcount
    split at hcount
    · assumption
    · cases hcount
  · cases hreply

theorem open_unnamed (troubles : Troubles) (before : Nat) :
    ∃ u, (store.under needs troubles).call (empty, before) 0 (.openSession "") =
      some (.error (match troubles before with
        | none => .crashed .unnamedTable
        | some text => .failed (.reported text)), u) := by
  have hcall : store.call empty 0 (.openSession "") = some (.error (.crashed .unnamedTable), empty) := rfl
  simp only [Store.under, hcall, Option.map_some, needs, Troubles.meet]
  cases troubles before <;> exact ⟨_, rfl⟩

end SingleWriter

namespace Buffered

theorem reply_cases {s t : Buffered} {seat : Nat} {request : Request} {reply : Reply}
    (h : store.call s seat request = some (reply, t)) :
    reply = .ok .accepted ∨ ∃ why, reply = .error (.failed why) := by
  change s.call seat request = _ at h
  cases request <;>
    simp only [call, openSession, beginTxn, insert, prepare, commit, rollBack, closeSession] at h <;>
    split at h <;> try split at h
  all_goals cases h <;> simp

theorem calm : Bench.Calm store := by
  intro s seat request reply t h
  rcases reply_cases h with rfl | ⟨why, rfl⟩ <;> exact nofun

theorem steady : store.Steady where
  call h := by
    rcases reply_cases h with rfl | ⟨why, rfl⟩ <;> trivial
  rowCount _ _ := trivial

end Buffered

theorem Crew.hire_first {σ : Type} {store : Store σ} {base left place : Nat} {post : Nat → Post} {s t u : σ}
    {outcome : Except Stop (List Worker)} {stop : Stop} (heager : (post place).workload.sessionStart = .eager)
    (hopen : store.call s (base + place) (.openSession (post place).table) = some (.error stop, u))
    (h : hire store base post (left + 1) place s = some (outcome, t)) :
    outcome = .error (stop.during (.openSession (post place).id)) := by
  rw [hire, heager] at h
  dsimp only at h
  rw [hopen] at h
  obtain ⟨_, _, he⟩ := Option.map_eq_some_iff.mp h
  cases he
  rfl

namespace Bench

variable {σ : Type} {store : Store σ} {b : Bench} {createdAt : Int64} {base : Nat} {log : List Crew.Event}
  {result : Except Stop Report}

theorem settle_maps {τ : Type} {target : Store τ} {f : σ → τ} (h : store.Maps target f) (t : σ) :
    settle target result (f t) = settle store result t := by
  cases result with
  | error stop => rfl
  | ok report => simp only [settle, h.shut]

theorem Returns.no_conflicts (hcalm : Calm store) {s t : σ}
    (h : b.Returns createdAt store base (Crew.Runs store base) s none log result t) :
    log.countP Crew.Event.isConflict = 0 := by
  cases h with
  | unmanned _ => rfl
  | manned reached _ _ =>
    obtain ⟨_, run⟩ := reached
    exact hcalm.countP run

/-- Nothing faults on a store none of whose calls does, while the conflicts have a word. -/
theorem Returns.settled (hw : b.workload.Accepted) (hsteady : store.Steady)
    (hshut : ∀ s, Unfaulted (store.shut s)) {s t : σ} {short : Option Crew.Shortage}
    (h : b.Returns createdAt store base (Crew.Runs store base) s short log result t)
    (hcounted : log.countP Crew.Event.isConflict < UInt64.size) : Unfaulted (settle store result t) := by
  have hunfaulted := h.unfaulted hw hsteady hcounted
  cases result with
  | error stop => exact hunfaulted
  | ok report =>
    have hended := hshut t
    rcases hstop : store.shut t with stop | done
    · rw [hstop] at hended
      simp only [settle, hstop]
      exact (stop.isFailure_during _).mpr hended
    · rw [settle_of_shut hstop]
      trivial

/-- Row locks are all released after a run, so that ending the store is no matter. -/
theorem settle_rowLocks (hw : b.workload.Accepted) {t : RowLocks}
    (h : b.Returns createdAt RowLocks.store 0 (Stepwise.Goes 0) .empty none log result t) :
    settle RowLocks.store result t = result :=
  settle_of_shut (shut_of_restored (restored_of_returns hw RowLocks.quiescent_empty.sound
    (fun _ _ => RowLocks.quiescent_empty.sessions _) h))

section SingleWriter

variable {troubles : Troubles} {t : SingleWriter × Nat}
  (hw : b.workload.Accepted) (h : b.Returns createdAt (SingleWriter.store.under SingleWriter.needs troubles) 0
    (Crew.Runs (SingleWriter.store.under SingleWriter.needs troubles) 0) (.empty, 1) none log result t)
include hw h

theorem singleWriter_fault {how : Fault} (hresult : result = .error (.crashed how)) :
    b.workload.sessionStart = .eager ∧ b.table = "" := by
  subst hresult
  rcases h.fault hw SingleWriter.calm.under with
    ⟨heager, u, seat, v, hcall⟩ | ⟨⟨u, hcount⟩, _, seat, verdict, v, hcall⟩
  · exact ⟨heager, SingleWriter.fault_under hcall⟩
  · -- rows are counted only after sessions were opened, and so only of a table that has a name
    exact absurd (SingleWriter.fault_of_rowCount hcount) (SingleWriter.opened_under hcall)

/-- The first worker cannot be hired if its session is to be opened on a table that has no name. -/
theorem singleWriter_nameless (heager : b.workload.sessionStart = .eager) (hname : b.table = "") :
    result = .error (match troubles 1 with
      | none => .crashed .unnamedTable
      | some text => .failed (.during (.openSession 0) (.reported text))) := by
  obtain ⟨left, hleft⟩ :=
    Nat.exists_eq_succ_of_ne_zero (show b.workload.threads.toNat ≠ 0 from hw.sizes.2.1.ne')
  obtain ⟨u, hopen⟩ := SingleWriter.open_unnamed troubles 1
  rw [← show (b.post createdAt 0).table = "" from hname] at hopen
  cases h with
  | unmanned hire =>
    rw [hleft] at hire
    cases Crew.hire_first heager hopen hire
    cases troubles 1 <;> rfl
  | manned reached _ _ =>
    obtain ⟨hire, _⟩ := reached
    rw [hleft] at hire
    cases Crew.hire_first heager hopen hire

end SingleWriter

theorem Returns.recorded_lt (hw : b.workload.Accepted) {base : Nat}
    {goes : Crew σ → List Crew.Event → Crew σ → Prop}
    (hgoes : ∀ {c log d}, goes c log d → Crew.Follows c log d)
    {s t : σ} {short : Option Crew.Shortage} {log : List Crew.Event} {report : Report}
    (h : b.Returns createdAt store base goes s short log (.ok report) t) :
      report.latency.recorded < UInt64.size := by
  cases h with
  | manned reached ended concluded =>
    have hcomplete := (reached.underway hgoes hw).complete hw ended (conclude_eq_ok concluded)
    rw [hcomplete.samples.2]
    exact report.batches.toNat_lt_size

theorem ok_of_settle {t : σ} {report : Report} (h : settle store result t = .ok report) :
    result = .ok report := by
  cases result with
  | error stop => cases h
  | ok found =>
    rcases hshut : store.shut t with stop | done
    · simp only [settle, hshut] at h
      cases h
    · rwa [settle_of_shut hshut] at h

end Bench

namespace Job

open Stepwise (Goes)

/-- What a job comes to, with workers that act in any order, with row locks by one operation at a time. -/
inductive ComesTo (job : Job) (world : Surroundings) (createdAt : Int64) : Except Stop Report → Prop
  | unopened {text : String} (files : job.backend ≠ .rowLocks) (trouble : world.troubles 0 = some text) :
      ComesTo job world createdAt (.error (.failed (.during .openStore (.reported text))))
  | untimed (behind : world.clockBehind = true) :
      ComesTo job world createdAt (.error (.failed (.reported "second time provided was later than self")))
  | rowLocks {log : List Crew.Event} {result : Except Stop Report} {t : RowLocks}
      (choice : job.backend = .rowLocks)
      (returns : job.bench.Returns createdAt RowLocks.store 0 (Goes 0) .empty none log result t) :
      ComesTo job world createdAt (Bench.settle RowLocks.store result t)
  | singleWriter {log : List Crew.Event} {result : Except Stop Report} {t : SingleWriter × Nat}
      (choice : job.backend = .singleWriter) (opened : world.troubles 0 = none)
      (timed : world.clockBehind = false)
      (returns : job.bench.Returns createdAt (SingleWriter.store.under SingleWriter.needs world.troubles) 0
        (Crew.Runs (SingleWriter.store.under SingleWriter.needs world.troubles) 0)
          (.empty, 1) none log result t) :
      ComesTo job world createdAt
        (Bench.settle (SingleWriter.store.under SingleWriter.needs world.troubles) result t)
  | buffered {log : List Crew.Event} {result : Except Stop Report} {t : Buffered × Nat}
      (choice : job.backend = .buffered)
      (returns : job.bench.Returns createdAt (Buffered.store.under Buffered.needs world.troubles) 0
        (Crew.Runs (Buffered.store.under Buffered.needs world.troubles) 0) (.empty, 1) none log result t) :
      ComesTo job world createdAt (Bench.settle (Buffered.store.under Buffered.needs world.troubles) result t)

variable {job : Job} {world : Surroundings} {createdAt : Int64} {result : Except Stop Report}

/-- A single writer is to open a session, before workers start, on a table that has no name, and nothing has
failed by then. -/
structure Faults (job : Job) (world : Surroundings) : Prop where
  backend : job.backend = .singleWriter
  eager : job.bench.workload.sessionStart = .eager
  nameless : job.bench.table = ""
  opened : world.troubles 0 = none
  timed : world.clockBehind = false
  entered : world.troubles 1 = none

/-- A job faults if and only if the table has no name that a single writer is to open before the workers
start, whatever the system does after that. -/
theorem ComesTo.crashed_iff (hw : job.bench.workload.Accepted) (h : job.ComesTo world createdAt result) :
    (∃ how, result = .error (.crashed how)) ↔ job.Faults world := by
  cases h with
  | unopened _ trouble =>
    refine iff_of_false nofun fun h => ?_
    cases h.opened.symm.trans trouble
  | untimed behind =>
    refine iff_of_false nofun fun h => ?_
    cases h.timed.symm.trans behind
  | rowLocks choice returns =>
    rw [Bench.settle_rowLocks hw returns]
    refine iff_of_false ?_ fun h => nomatch choice.symm.trans h.backend
    rintro ⟨how, he⟩
    have hends := Bench.ends_of_returns hw RowLocks.quiescent_empty hw.effectiveRows_eq returns
    cases hends with
    | full _ _ _ | miscounted _ _ _ => cases he
    | stopped _ _ _ _ _ _ =>
      unfold Bench.blamed at he
      cases he
  | singleWriter choice opened timed returns =>
    rw [Bench.settle_of_shut rfl]
    constructor
    · rintro ⟨how, he⟩
      obtain ⟨heager, hname⟩ := Bench.singleWriter_fault hw returns he
      refine ⟨choice, heager, hname, opened, timed, ?_⟩
      have hfirst := Bench.singleWriter_nameless hw returns heager hname
      cases htrouble : world.troubles 1 with
      | none => rfl
      | some text =>
        rw [htrouble, he] at hfirst
        cases hfirst
    · intro hf
      have hfirst := Bench.singleWriter_nameless hw returns hf.eager hf.nameless
      rw [hf.entered] at hfirst
      exact ⟨_, hfirst⟩
  | buffered choice returns =>
    refine iff_of_false ?_ fun h => nomatch choice.symm.trans h.backend
    rintro ⟨how, he⟩
    have hsettled := returns.settled hw Buffered.steady.under (Store.under_shut fun _ => trivial)
      (by rw [returns.no_conflicts Buffered.calm.under]; decide)
    rw [he] at hsettled
    exact hsettled

theorem ComesTo.recorded_lt (hw : job.bench.workload.Accepted) {report : Report}
    (h : job.ComesTo world createdAt (.ok report)) : report.latency.recorded < UInt64.size := by
  generalize hresult : Except.ok report = result at h
  cases h with
  | unopened _ _ | untimed _ => cases hresult
  | rowLocks _ returns =>
    rw [Bench.ok_of_settle hresult.symm] at returns
    exact returns.recorded_lt hw Goes.follows
  | singleWriter _ _ _ returns | buffered _ returns =>
    rw [Bench.ok_of_settle hresult.symm] at returns
    exact returns.recorded_lt hw Crew.Runs.follows

theorem openNew_cases (troubles : Troubles) (backend : Backend) :
    (∃ text, backend ≠ .rowLocks ∧ troubles 0 = some text ∧
      Engine.openNew troubles backend = .error (.failed (.during .openStore (.reported text)))) ∨
    Engine.openNew troubles backend = .ok (.new backend, if backend = .rowLocks then 0 else 1) ∧
      (backend = .rowLocks ∨ troubles 0 = none) := by
  cases backend with
  | rowLocks => exact .inr ⟨rfl, .inl rfl⟩
  | singleWriter | buffered =>
    cases htrouble : troubles 0 with
    | none => exact .inr ⟨by simp [Engine.openNew, htrouble], .inr rfl⟩
    | some text => exact .inl ⟨text, nofun, rfl, by simp [Engine.openNew, htrouble]⟩

/-- Where the new store is opened and the clock tells a time, a run on it is one that the job can come to. -/
theorem comesTo_of_returns {log : List Crew.Event} {t : Engine × Nat}
    (opened : job.backend = .rowLocks ∨ world.troubles 0 = none) (timed : world.clockBehind = false)
    (returns : job.bench.Returns createdAt (Engine.store.under Engine.needs world.troubles) 0
      (Crew.Runs (Engine.store.under Engine.needs world.troubles) 0)
      (.new job.backend, if job.backend = .rowLocks then 0 else 1) none log result t) :
    job.ComesTo world createdAt (Bench.settle (Engine.store.under Engine.needs world.troubles) result t) := by
  cases choice : job.backend with
  | rowLocks =>
    rw [choice, if_pos rfl] at returns
    have hmaps : RowLocks.store.Maps (Engine.store.under Engine.needs world.troubles)
        fun s => (.rowLocks s, 0) :=
      Engine.rowLocks_maps.under_of_none (fun _ _ _ => rfl) (fun _ => rfl) (fun _ => rfl) world.troubles 0
    obtain ⟨u, rfl, hinside⟩ := Bench.Returns.of_maps hmaps returns
    rw [Bench.settle_maps hmaps]
    exact .rowLocks choice (hinside.mono Stepwise.goes_of_runs)
  | singleWriter =>
    rw [choice, if_neg nofun] at returns
    have hmaps := Engine.singleWriter_maps.under Engine.singleWriter_needs world.troubles
    obtain ⟨u, rfl, hinside⟩ := Bench.Returns.of_maps (s := (.empty, 1)) hmaps returns
    rw [Bench.settle_maps hmaps]
    exact .singleWriter choice (opened.resolve_left (by simp [choice])) timed hinside
  | buffered =>
    rw [choice, if_neg nofun] at returns
    have hmaps := Engine.buffered_maps.under Engine.buffered_needs world.troubles
    obtain ⟨u, rfl, hinside⟩ := Bench.Returns.of_maps (s := (.empty, 1)) hmaps returns
    rw [Bench.settle_maps hmaps]
    exact .buffered choice hinside

/-- What a job results in, with workers that take turns, is what it can come to. -/
theorem comesTo_of_result {τ : Type} (job : Job) (world : Surroundings) (clock : StateM τ UInt64)
    (createdAt : Int64) (reading : τ) : ∃ result later,
      (job.result clock createdAt world).run reading = pure (some result, later) ∧
        job.ComesTo world createdAt result := by
  rcases openNew_cases world.troubles job.backend with ⟨text, hfiles, htrouble, hopen⟩ | ⟨hopen, hopened⟩
  · refine ⟨_, reading, ?_, .unopened hfiles htrouble⟩
    rw [Job.result, hopen]
    rfl
  · cases htimed : world.clockBehind with
    | true =>
      refine ⟨_, reading, ?_, .untimed htimed⟩
      simp only [Job.result, hopen, htimed]
      rfl
    | false =>
      have hattentive : (Engine.store.under Engine.needs world.troubles).Attentive fun s => s.1.Occupied :=
        Engine.attentive.under Engine.needs_apt
      let start : Engine × Nat := (.new job.backend, if job.backend = .rowLocks then 0 else 1)
      obtain ⟨result, t, later, log, hrun, hreturns⟩ := Bench.run_ends hattentive job.bench clock createdAt
        (s := start) (Engine.occupied_new job.backend) none reading
      refine ⟨_, later, ?_, comesTo_of_returns hopened htimed hreturns⟩
      simp only [Job.result, hopen, htimed]
      exact hrun

end Job

theorem Report.lines_ok {r : Report} (h : r.latency.recorded < UInt64.size) :
    ∃ lines, r.lines = .ok lines := by
  have hquantile (fraction : Float) : ∃ text, r.percentile fraction = .ok text := by
    unfold percentile
    split
    · exact ⟨_, rfl⟩
    · obtain ⟨value, hvalue⟩ := r.latency.quantile_ok h fraction
      rw [hvalue]
      exact ⟨_, rfl⟩
  obtain ⟨p50, h50⟩ := hquantile 0.50
  obtain ⟨p95, h95⟩ := hquantile 0.95
  obtain ⟨p99, h99⟩ := hquantile 0.99
  obtain ⟨p999, h999⟩ := hquantile 0.999
  unfold lines
  rw [h50, h95, h99, h999]
  exact ⟨_, rfl⟩

end InsertBench
