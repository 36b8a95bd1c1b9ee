import Mathlib.Algebra.Order.Group.Multiset
import InsertBench.Proofs.Bench.Complete
import InsertBench.Proofs.Worker.Timing

/-! # Latencies, whoever measured them

A report's histogram is merged from those of the workers. It is the one that records all their latencies
by itself: which worker measured which of them, and in which order workers are added up, does not show.
-/
namespace InsertBench.Bench

open Crew (Event eventsOf)
open Histogram (Sample latencies ofSamples mergeAll)

variable {σ : Type} {b : Bench} {createdAt : Int64} {store : Store σ} {base : Nat} {s t : σ}
  {short : Option Crew.Shortage} {log : List Event} {d : Crew σ}

/-- The times that the workers of a bench took for their batches, worker by worker. -/
def measured (b : Bench) (log : List Event) : List UInt64 :=
  (List.range b.workload.crewSize).flatMap fun place => (stopwatch (eventsOf log place)).taken

structure SumsFit (tallies : List Tally) : Prop where
  rows : Word.total (tallies.map Tally.rows) < UInt64.size
  batches : Word.total (tallies.map Tally.batches) < UInt64.size
  conflicts : Word.total (tallies.map Tally.conflicts) < UInt64.size

theorem talliesOf_map_ok (tallies : List Tally) : talliesOf (tallies.map .ok) = tallies := by
  rw [talliesOf, List.filterMap_map]
  exact List.filterMap_some

theorem sums_of_collect {r report : Report} {tallies : List Tally}
    (h : collect r (tallies.map .ok) = .ok report) : Sums r tallies report := by
  obtain ⟨same, hsame, hsums⟩ := collect_eq_ok h
  have htallies := congrArg talliesOf hsame
  rw [talliesOf_map_ok, talliesOf_map_ok] at htallies
  rwa [htallies]

/-- Workers that did well add up if their sums fit: whatever their histograms, merging never fails. -/
theorem collect_ok_iff (name : String) (elapsed : Elapsed) (tallies : List Tally) :
    (∃ report, collect (b.blank name elapsed) (tallies.map .ok) = .ok report) ↔ SumsFit tallies := by
  constructor
  · rintro ⟨report, hcollect⟩
    have hsums := sums_of_collect hcollect
    have hword (n : Nat) (w : UInt64) (h : w.toNat = 0 + n) : n < UInt64.size := by
      rw [← Nat.zero_add n, ← h]
      exact w.toNat_lt_size
    exact ⟨hword _ _ hsums.rows, hword _ _ hsums.batches, hword _ _ hsums.conflicts⟩
  · rintro ⟨hrows, hbatches, hconflicts⟩
    rw [← talliesOf_map_ok tallies, ← Nat.zero_add (Word.total _)] at hrows hbatches hconflicts
    rcases @collect_cases (b.blank name elapsed) _ hrows hbatches hconflicts with hok | ⟨why, hmem, _⟩
    · exact hok
    · simp at hmem

theorem Reaches.latencies_eq (h : b.Reaches createdAt store base (Crew.Runs store base) s none log d)
    (hwell : ∀ w ∈ d.workers, w.stage = .ended none) : (d.workers.map Worker.tally).map Tally.latency =
      (List.range b.workload.crewSize).map fun place => .ofTimes (stopwatch (eventsOf log place)).taken := by
  have hlength := (h.manned Crew.Runs.follows).length
  have htimed := h.each (L := fun _ => Worker.Timed)
    (fun _ _ _ _ htimed _ hn => htimed.moves (Worker.moves_of_next hn)) Crew.Runs.follows
    fun _ _ _ hmustered => hmustered.newly.timed
  rw [List.map_map]
  refine List.ext_getElem (by simp [hlength]) fun place hplace _ => ?_
  rw [List.length_map] at hplace
  have hworker : Worker.Timed (eventsOf log place) d.workers[place] :=
    htimed place _ (List.getElem?_eq_getElem hplace)
  rw [Worker.Timed, hwell _ (List.getElem_mem hplace)] at hworker
  simp [hworker.2]

theorem Returns.latency_eq {report : Report}
    (h : b.Returns createdAt store base (Crew.Runs store base) s short log (.ok report) t) :
    report.latency = mergeAll ((List.range b.workload.crewSize).map fun place =>
      .ofTimes (stopwatch (eventsOf log place)).taken) := by
  cases h with
  | manned run ended concluded =>
    obtain ⟨tallies, houtcomes, hsums⟩ := collect_eq_ok (conclude_eq_ok concluded)
    obtain ⟨hwell, rfl⟩ := outcomes_ok ended houtcomes
    rw [hsums.latency, run.latencies_eq hwell]
    rfl

theorem latencies_once (times : List UInt64) : latencies (times.map (·, 1)) = (times : Multiset UInt64) := by
  have hflat : (times.map (·, (1 : UInt64))).flatMap
      (fun sample => List.replicate sample.2.toNat sample.1) = times := by
    rw [List.flatMap_map]
    exact List.flatMap_singleton' times
  rw [latencies, hflat]

/-- The report of a run has the histogram of all latencies that were measured in it. -/
theorem Returns.holds {report : Report}
    (h : b.Returns createdAt store base (Crew.Runs store base) s short log (.ok report) t) :
    report.latency.Holds (b.measured log) := by
  have hholds := Histogram.holds_mergeAll ((List.range b.workload.crewSize).map fun place =>
    (stopwatch (eventsOf log place)).taken.map (·, 1))
  rw [List.map_map] at hholds
  rw [h.latency_eq, ← latencies_once, measured, List.flatMap_def, List.map_flatten, List.map_map]
  exact hholds

/-- How some latencies are told, which are recorded by one histogram alone or in shares of several. -/
structure ToldAlike (all : Multiset UInt64) (alone : List Sample) (shares : List (List Sample)) : Prop where
  mergeable {share : List Sample} : share ∈ shares → (ofSamples share).Mergeable
  merged : mergeAll (shares.map ofSamples) = ofSamples alone
  count (slot : UInt64) : ((ofSamples alone).count slot).toNat =
    min (all.countP fun value => Histogram.slotOf value = slot) (UInt64.size - 1)
  total : (ofSamples alone).total.toNat = min all.card (UInt64.size - 1)
  /-- Workers whose histograms are the shares add up unless a sum of theirs overflows, and the report
  prints what it would print of the one histogram. -/
  collected {b : Bench} {name : String} {elapsed : Elapsed} {tallies : List Tally} :
    tallies.map Tally.latency = shares.map ofSamples →
      ((∃ report, collect (b.blank name elapsed) (tallies.map .ok) = .ok report) ↔ SumsFit tallies) ∧
        ∀ report, collect (b.blank name elapsed) (tallies.map .ok) = .ok report →
          report.latency = ofSamples alone ∧ report.lines = { report with latency := ofSamples alone }.lines
  /-- So does every run in which just these latencies were measured. -/
  ran {σ : Type} {b : Bench} {createdAt : Int64} {store : Store σ} {base : Nat} {s t : σ}
    {short : Option Crew.Shortage} {log : List Event} {report : Report} :
    b.Returns createdAt store base (Crew.Runs store base) s short log (.ok report) t →
      (b.measured log : Multiset UInt64) = all →
        report.latency = ofSamples alone ∧ report.lines = { report with latency := ofSamples alone }.lines

/-- It cannot be told from a merged histogram who measured what. -/
theorem toldAlike_of_latencies {all : Multiset UInt64} {alone : List Sample} {shares : List (List Sample)}
    (halone : latencies alone = all) (hshares : latencies shares.flatten = all) :
      ToldAlike all alone shares := by
  have hholds : (ofSamples alone).Holds all := halone ▸ Histogram.holds_ofSamples alone
  have hmerged := Histogram.mergeAll_eq_ofSamples (hshares.trans halone.symm)
  constructor
  case mergeable =>
    intro share _
    exact (Histogram.holds_ofSamples share).mergeable
  case merged => exact hmerged
  case count => exact hholds.count
  case total => exact hholds.total
  case collected =>
    intro b name elapsed tallies htallies
    refine ⟨collect_ok_iff name elapsed tallies, fun report hcollect => ?_⟩
    have hlatency : report.latency = ofSamples alone := by
      rw [(sums_of_collect hcollect).latency, htallies]
      exact hmerged
    exact ⟨hlatency, by rw [← hlatency]⟩
  case ran =>
    intro σ b createdAt store base s t short log report hreturns hmeasured
    have hrun := hreturns.holds
    rw [hmeasured] at hrun
    have hlatency := hrun.unique hholds
    exact ⟨hlatency, by rw [← hlatency]⟩

/-- More latencies of 5 than a word counts, and two beyond all slots. -/
def crowd : List Sample := [(5, 10), (1099511627776, 2), (5, Word.greatest)]

/-- The same ones, measured by three workers of which one measured none. -/
def crowdShared : List (List Sample) := [[(5, Word.greatest), (5, 3)], [], [(1099511627776, 2), (5, 7)]]

theorem toldAlike_crowd : ToldAlike (latencies crowd) crowd crowdShared ∧
    (mergeAll (crowdShared.map ofSamples)).count 5 = Word.greatest ∧
    (mergeAll (crowdShared.map ofSamples)).count (Histogram.slotOf Histogram.ceiling) = 2 ∧
    (mergeAll (crowdShared.map ofSamples)).total = Word.greatest := by
  have hten : Multiset.replicate (10 : UInt64).toNat (5 : UInt64) =
      Multiset.replicate (3 : UInt64).toNat 5 + Multiset.replicate (7 : UInt64).toNat 5 :=
    Multiset.replicate_add 3 7 5
  have hsame : latencies crowdShared.flatten = latencies crowd := by
    simp only [crowd, crowdShared, List.flatten_cons, List.cons_append, List.nil_append, List.flatten_nil,
      Histogram.latencies_cons, hten]
    ac_rfl
  exact ⟨toldAlike_of_latencies rfl hsame, rfl, rfl, rfl⟩

end InsertBench.Bench
