import InsertBench.Proofs.Latency.Samples
import InsertBench.Proofs.Workload.Dealing
import InsertBench.Run.Bench

/-! # Adding up what workers report

A report that is returned is the exact sum of what all workers report, and none of them failed. While
the sums of those that did not fail have a word, only a failed worker stands in the way of a report.
-/
namespace InsertBench

namespace Word

theorem total_eq_sum (words : List UInt64) : total words = (words.map UInt64.toNat).sum := by
  induction words with
  | nil => rfl
  | cons w rest ih => rw [total, ih, List.map_cons, List.sum_cons]

theorem total_const {words : List UInt64} {n : Nat} (h : ∀ w ∈ words, w.toNat = n) :
    total words = words.length * n := by
  have hmap : words.map UInt64.toNat = words.map fun _ => n := List.map_congr_left h
  rw [total_eq_sum, hmap, List.map_const', List.sum_replicate_nat]

end Word

theorem Report.add_eq_ok {r u : Report} {t : Tally} (h : r.add t = .ok u) :
    u.rows.toNat = r.rows.toNat + t.rows.toNat ∧ u.batches.toNat = r.batches.toNat + t.batches.toNat ∧
      u.conflicts.toNat = r.conflicts.toNat + t.conflicts.toNat ∧ u.latency = r.latency.merge t.latency := by
  unfold Report.add at h
  cases hrows : Word.add r.rows t.rows with
  | error _ => simp [hrows, bind, Except.bind] at h
  | ok rows =>
    cases hbatches : Word.add r.batches t.batches with
    | error _ => simp [hrows, hbatches, bind, Except.bind] at h
    | ok batches =>
      cases hconflicts : Word.add r.conflicts t.conflicts with
      | error _ => simp [hrows, hbatches, hconflicts, bind, Except.bind] at h
      | ok conflicts =>
        simp only [hrows, hbatches, hconflicts, bind, Except.bind, pure, Except.pure, Except.ok.injEq] at h
        subst h
        rw [Word.add_eq_ok_iff] at hrows hbatches hconflicts
        exact ⟨hrows.symm, hbatches.symm, hconflicts.symm, rfl⟩

theorem Report.add_ok {r : Report} {t : Tally} (hrows : r.rows.toNat + t.rows.toNat < UInt64.size)
    (hbatches : r.batches.toNat + t.batches.toNat < UInt64.size)
    (hconflicts : r.conflicts.toNat + t.conflicts.toNat < UInt64.size) : ∃ u, r.add t = .ok u := by
  unfold Report.add
  rw [Word.add_ok hrows, Word.add_ok hbatches, Word.add_ok hconflicts]
  exact ⟨_, rfl⟩

namespace Bench

structure Sums (r : Report) (tallies : List Tally) (u : Report) : Prop where
  rows : u.rows.toNat = r.rows.toNat + Word.total (tallies.map Tally.rows)
  batches : u.batches.toNat = r.batches.toNat + Word.total (tallies.map Tally.batches)
  conflicts : u.conflicts.toNat = r.conflicts.toNat + Word.total (tallies.map Tally.conflicts)
  latency : u.latency = (tallies.map Tally.latency).foldl .merge r.latency

theorem collect_eq_ok {r u : Report} {outcomes : List (Except Failure Tally)}
    (h : collect r outcomes = .ok u) : ∃ tallies, outcomes = tallies.map .ok ∧ Sums r tallies u := by
  induction outcomes generalizing r with
  | nil =>
    cases h
    exact ⟨[], rfl, rfl, rfl, rfl, rfl⟩
  | cons outcome rest ih =>
    cases outcome with
    | error why => cases h
    | ok tally =>
      rw [collect] at h
      split at h
      · rename_i next hadd
        obtain ⟨tallies, rfl, hsums⟩ := ih h
        obtain ⟨hrows, hbatches, hconflicts, hlatency⟩ := Report.add_eq_ok hadd
        refine ⟨tally :: tallies, rfl, ?_, ?_, ?_, ?_⟩
        · rw [hsums.rows, hrows, List.map_cons, Word.total, Nat.add_assoc]
        · rw [hsums.batches, hbatches, List.map_cons, Word.total, Nat.add_assoc]
        · rw [hsums.conflicts, hconflicts, List.map_cons, Word.total, Nat.add_assoc]
        · rw [hsums.latency, hlatency, List.map_cons, List.foldl_cons]
      · cases h

def talliesOf (outcomes : List (Except Failure Tally)) : List Tally := outcomes.filterMap Except.toOption

/-- While no sum overflows, workers add up unless one of them failed. -/
theorem collect_cases {r : Report} {outcomes : List (Except Failure Tally)}
    (hrows : r.rows.toNat + Word.total ((talliesOf outcomes).map Tally.rows) < UInt64.size)
    (hbatches : r.batches.toNat + Word.total ((talliesOf outcomes).map Tally.batches) < UInt64.size)
    (hconflicts : r.conflicts.toNat + Word.total ((talliesOf outcomes).map Tally.conflicts) < UInt64.size) :
    (∃ u, collect r outcomes = .ok u) ∨
      ∃ why, .error why ∈ outcomes ∧ collect r outcomes = .error (.failed why) := by
  induction outcomes generalizing r with
  | nil => exact .inl ⟨r, rfl⟩
  | cons outcome rest ih =>
    cases outcome with
    | error why => exact .inr ⟨why, List.mem_cons_self, rfl⟩
    | ok tally =>
      have htallies : talliesOf (.ok tally :: rest) = tally :: talliesOf rest := rfl
      rw [htallies, List.map_cons, Word.total, ← Nat.add_assoc] at hrows hbatches hconflicts
      obtain ⟨next, hadd⟩ := @Report.add_ok r tally (by omega) (by omega) (by omega)
      obtain ⟨hnext, hnext', hnext'', _⟩ := Report.add_eq_ok hadd
      rw [← hnext] at hrows
      rw [← hnext'] at hbatches
      rw [← hnext''] at hconflicts
      simp only [collect, hadd]
      rcases ih hrows hbatches hconflicts with hok | ⟨why, hmem, hwhy⟩
      · exact .inl hok
      · exact .inr ⟨why, List.mem_cons_of_mem _ hmem, hwhy⟩

theorem merge_all {h : Histogram} (hf : h.Faithful) {others : List Histogram}
    (ho : ∀ other ∈ others, other.Faithful)
    (hn : h.total.toNat + Word.total (others.map Histogram.total) < UInt64.size) :
    (others.foldl .merge h).Faithful ∧
      (others.foldl .merge h).total.toNat = h.total.toNat + Word.total (others.map Histogram.total) := by
  induction others generalizing h with
  | nil => exact ⟨hf, rfl⟩
  | cons other others ih =>
    rw [List.map_cons, Word.total, ← Nat.add_assoc] at hn
    obtain ⟨hmerge, htotal⟩ := hf.merge (ho other List.mem_cons_self) (by omega)
    rw [← htotal] at hn
    obtain ⟨hall, hsum⟩ := ih hmerge (fun o hm => ho o (List.mem_cons_of_mem _ hm)) hn
    refine ⟨hall, ?_⟩
    rw [List.foldl_cons, hsum, htotal, List.map_cons, Word.total, Nat.add_assoc]

theorem ended_of_next {w : Worker} (h : w.next = none) : ∃ stop, w.stage = .ended stop := by
  unfold Worker.next at h
  split at h <;> simp_all

/-- If all workers have ended and none counts as failed, each one ended well. -/
theorem outcomes_ok {workers : List Worker} {tallies : List Tally}
    (hended : ∀ w ∈ workers, w.next = none) (h : workers.filterMap outcome? = tallies.map .ok) :
    (∀ w ∈ workers, w.stage = .ended none) ∧ tallies = workers.map Worker.tally := by
  induction workers generalizing tallies with
  | nil =>
    rw [List.filterMap_nil, eq_comm, List.map_eq_nil_iff] at h
    exact ⟨by simp, h⟩
  | cons w rest ih =>
    obtain ⟨stop, hstage⟩ := ended_of_next (hended w List.mem_cons_self)
    have hfails (why : Failure) (hout : outcome? w = some (.error why)) : False := by
      rw [List.filterMap_cons_some hout] at h
      cases tallies <;> simp at h
    cases stop with
    | none =>
      have hout : outcome? w = some (.ok w.tally) := by simp [outcome?, Worker.result?, hstage]
      rw [List.filterMap_cons_some hout] at h
      cases tallies with
      | nil => simp at h
      | cons tally tallies =>
        rw [List.map_cons, List.cons.injEq, Except.ok.injEq] at h
        obtain ⟨hall, htallies⟩ := ih (fun v hv => hended v (List.mem_cons_of_mem _ hv)) h.2
        refine ⟨List.forall_mem_cons.mpr ⟨hstage, hall⟩, ?_⟩
        rw [List.map_cons, ← h.1, ← htallies]
    | some stop =>
      cases stop with
      | failed why => exact (hfails why (by simp [outcome?, Worker.result?, hstage])).elim
      | crashed how => exact (hfails .workerPanicked (by simp [outcome?, Worker.result?, hstage])).elim

end Bench

end InsertBench
