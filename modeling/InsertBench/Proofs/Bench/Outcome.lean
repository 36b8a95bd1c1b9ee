import InsertBench.Proofs.Bench.Complete
import InsertBench.Proofs.Bench.WholeBatches

/-! # What a run comes to

The keys that a table with row locks held before a run decide what the run comes to, whatever its
schedule. It succeeds if none of them is among the keys that are inserted and, if the rows are counted
afterwards, there was none at all. Otherwise a worker fails by the least such key that is dealt to it.
-/
namespace InsertBench

namespace RowLocks

variable {rows old : Rows} {keys : List Int64}

theorem size_eq (h : ∀ key, key ∈ rows ↔ key ∈ old ∨ key ∈ keys) (hfresh : ∀ key ∈ keys, key ∉ old)
    (hnodup : keys.Nodup) : rows.size = old.size + keys.length := by
  have hboth : (old.keys ++ keys).Nodup := by
    refine List.nodup_append'.mpr ⟨Std.ExtTreeMap.nodup_keys, hnodup, ?_⟩
    intro key hkey hnew
    exact hfresh key hnew (Std.ExtTreeMap.mem_keys.mp hkey)
  have hperm : rows.keys.Perm (old.keys ++ keys) := by
    apply (List.perm_ext_iff_of_nodup Std.ExtTreeMap.nodup_keys hboth).mpr
    intro key
    rw [List.mem_append, Std.ExtTreeMap.mem_keys, Std.ExtTreeMap.mem_keys]
    exact h key
  have hlength := hperm.length_eq
  rwa [List.length_append, Std.ExtTreeMap.length_keys, Std.ExtTreeMap.length_keys] at hlength

theorem size_le (rows : Rows) : rows.size ≤ UInt64.size := by
  have hinj : Function.Injective fun key : Int64 => key.toUInt64.toNat := by
    intro key other he
    have hwords := congrArg UInt64.toInt64 (UInt64.toNat_inj.mp he)
    rwa [Int64.toInt64_toUInt64, Int64.toInt64_toUInt64] at hwords
  have hnodup : (rows.keys.map fun key => key.toUInt64.toNat).Nodup :=
    Std.ExtTreeMap.nodup_keys.map hinj
  have hsub : (rows.keys.map fun key => key.toUInt64.toNat) ⊆ List.range UInt64.size := by
    intro n hn
    obtain ⟨key, _, rfl⟩ := List.mem_map.mp hn
    exact List.mem_range.mpr key.toUInt64.toNat_lt_size
  have hle := (List.subperm_of_subset hnodup hsub).length_le
  rwa [List.length_map, List.length_range, Std.ExtTreeMap.length_keys] at hle

theorem count_eq_iff {n : Nat} (h : rows.size = old.size + n) (hpos : 0 < n) (hlt : n < UInt64.size) :
    rows.size.toUInt64 = n.toUInt64 ↔ ∀ key, key ∉ old := by
  have hle := size_le rows
  rw [h] at hle ⊢
  have hempty : (∀ key, key ∉ old) ↔ old.size = 0 := by
    rw [← Std.ExtTreeMap.eq_empty_iff_size_eq_zero, Std.ExtTreeMap.eq_empty_iff_forall_not_mem]
  rw [hempty, ← UInt64.toNat_inj, Word.toNat_toUInt64 hlt]
  change (old.size + n) % UInt64.size = n ↔ _
  have hsize : UInt64.size = 2 ^ 64 := rfl
  -- the only multiple of the word size that is left below the bound is zero
  rw [hsize] at hle hlt ⊢
  omega

end RowLocks

namespace Bench

open Crew (Event)
open Stepwise (Goes InStep Shows Blame duplicate inStep_of_reaches visibleAt)

variable {b : Bench} {createdAt : Int64} {base : Nat} {s t : RowLocks} {old : Rows} {log : List Event}
  {d : Crew RowLocks} {todo : Nat → List RowLocks.Operation} {place : Nat} {w : Worker}

def blamed (place : Nat) (key : Int64) : Stop := .failed (.during (.work place.toUInt64) (duplicate key))

theorem ended_cases (h : InStep b createdAt base old ⟨d, todo⟩) (hget : d.workers[place]? = some w)
    (hended : w.next = none) : w.stage = .ended none ∨
      ∃ key, Blame old (b.post createdAt place) key ∧ w.stage = .ended (some (blamed place key)) := by
  obtain ⟨stop, hstage⟩ := ended_of_next hended
  have hseated := h.seated hget
  rw [hstage, (h.workers hget).post] at hseated
  rcases hseated.ended with rfl | ⟨key, blame, rfl⟩
  · exact .inl hstage
  · exact .inr ⟨key, blame, hstage⟩

theorem mem_talliesOf {workers : List Worker} {tally : Tally}
    (h : tally ∈ talliesOf (workers.filterMap outcome?)) :
    ∃ w ∈ workers, w.stage = .ended none ∧ tally = w.tally := by
  obtain ⟨outcome, houtcome, htally⟩ := List.mem_filterMap.mp h
  obtain ⟨w, hmem, hw⟩ := List.mem_filterMap.mp houtcome
  refine ⟨w, hmem, ?_⟩
  cases outcome with
  | error why => cases htally
  | ok found =>
    cases htally
    obtain ⟨result, hresult, he⟩ := Option.map_eq_some_iff.mp hw
    cases result with
    | ok found' =>
      cases he
      obtain ⟨hstage, hfound⟩ := Worker.result?_eq_ok_iff.mp hresult
      exact ⟨hstage, hfound.symm⟩
    | error stop => cases stop <;> cases he

/-- All workers that did not fail have done so much at most, if each of them has its share at most. -/
theorem total_tallies_le_sum {workers : List Worker} (count : Tally → UInt64) (share : Nat → Nat)
    (hshare : ∀ place w, workers[place]? = some w → w.stage = .ended none →
      (count w.tally).toNat ≤ share place) :
    Word.total ((talliesOf (workers.filterMap outcome?)).map count) ≤
      ((List.range workers.length).map share).sum := by
  induction workers generalizing share with
  | nil => exact Nat.zero_le _
  | cons w rest ih =>
    have hrest := ih (share ∘ Nat.succ) fun place v hget => hshare (place + 1) v hget
    rw [List.length_cons, List.range_succ_eq_map, List.map_cons, List.map_map, List.sum_cons]
    rcases houtcome : outcome? w with _ | why | tally
    · rw [List.filterMap_cons_none houtcome]
      exact hrest.trans (Nat.le_add_left _ _)
    · rw [List.filterMap_cons_some houtcome]
      exact hrest.trans (Nat.le_add_left _ _)
    · obtain ⟨v, hmem, hstage, rfl⟩ := @mem_talliesOf [w] tally
        (by simp [talliesOf, houtcome, Except.toOption])
      obtain rfl := List.mem_singleton.mp hmem
      rw [List.filterMap_cons_some houtcome]
      exact Nat.add_le_add (hshare 0 v rfl hstage) hrest

theorem total_tallies_le {workers : List Worker} (count : Tally → UInt64) (most : Nat)
    (hmost : ∀ w ∈ workers, w.stage = .ended none → (count w.tally).toNat ≤ most) :
    Word.total ((talliesOf (workers.filterMap outcome?)).map count) ≤ workers.length * most := by
  have hsum := total_tallies_le_sum count (fun _ => most) fun place w hget =>
    hmost w (List.mem_of_getElem? hget)
  rwa [List.map_const', List.sum_replicate_nat, List.length_range] at hsum

/-- A worker has counted its own batches only, so that no sum over a crew exceeds the number of rows. -/
theorem total_batches_le (hw : b.workload.Accepted) {workers : List Worker}
    (hlength : workers.length = b.workload.crewSize)
    (hon : ∀ w ∈ workers, w.OnTrack ∧ w.post.workload = b.workload) :
    Word.total ((talliesOf (workers.filterMap outcome?)).map Tally.rows) ≤ b.workload.rowTotal ∧
      Word.total ((talliesOf (workers.filterMap outcome?)).map Tally.batches) ≤ b.workload.rowTotal := by
  have htotal : b.workload.crewSize * (b.workload.roundCount * b.workload.width) = b.workload.rowTotal := by
    rw [Workload.rowTotal, Nat.mul_right_comm, Nat.mul_comm]
  have hrows := total_tallies_le Tally.rows (b.workload.roundCount * b.workload.width) fun w hmem _ => by
    obtain ⟨htrack, hload⟩ := hon w hmem
    rw [htrack.rows, hload]
    exact Nat.mul_le_mul_right b.workload.width (hload ▸ htrack.batches_le)
  have hbatches := total_tallies_le Tally.batches b.workload.roundCount fun w hmem _ =>
    (hon w hmem).2 ▸ (hon w hmem).1.batches_le
  have hfew : b.workload.crewSize * b.workload.roundCount ≤ b.workload.rowTotal := by
    rw [← htotal]
    exact Nat.mul_le_mul_left _ (Nat.le_mul_of_pos_right _ hw.sizes.1)
  rw [hlength] at hrows hbatches
  exact ⟨by rwa [htotal] at hrows, hbatches.trans hfew⟩

/-- Workers add up unless one of them met a key of old. -/
theorem collect_inStep (h : InStep b createdAt base old ⟨d, todo⟩) (hended : ∀ w ∈ d.workers, w.next = none)
    (name : String) (elapsed : Elapsed) :
    (∃ report, collect (b.blank name elapsed) (d.workers.filterMap outcome?) = .ok report) ∨
      ∃ (place : Nat) (w : Worker) (key : Int64), d.workers[place]? = some w ∧
        Blame old (b.post createdAt place) key ∧ w.result? = some (.error (blamed place key)) ∧
        collect (b.blank name elapsed) (d.workers.filterMap outcome?) = .error (blamed place key) := by
  have hmost := h.accepted.rowTotal_lt
  have hsize : UInt64.size = 2 ^ 64 := rfl
  have hmember : ∀ w ∈ d.workers, w.OnTrack ∧ w.post.workload = b.workload ∧ w.tally.conflicts = 0 := by
    intro w hmem
    obtain ⟨place, hget⟩ := List.mem_iff_getElem?.mp hmem
    exact ⟨(h.workers hget).onTrack, h.workload hget, (h.workers hget).calm⟩
  obtain ⟨hrows, hbatches⟩ := @total_batches_le b h.accepted d.workers h.length fun w hmem =>
    ⟨(hmember w hmem).1, (hmember w hmem).2.1⟩
  have hconflicts := @total_tallies_le d.workers Tally.conflicts 0 fun w hmem _ => by
    rw [(hmember w hmem).2.2]
    exact Nat.le_refl _
  have hzero : (b.blank name elapsed).rows.toNat = 0 ∧ (b.blank name elapsed).batches.toNat = 0 ∧
      (b.blank name elapsed).conflicts.toNat = 0 := ⟨rfl, rfl, rfl⟩
  -- no sum exceeds the number of rows, so only a worker that failed is in the way
  rcases @collect_cases (b.blank name elapsed) (d.workers.filterMap outcome?) (by omega) (by omega) (by omega)
    with hok | ⟨why, hmem, hwhy⟩
  · exact .inl hok
  · obtain ⟨w, hw, hout⟩ := List.mem_filterMap.mp hmem
    obtain ⟨place, hget⟩ := List.mem_iff_getElem?.mp hw
    refine .inr ⟨place, w, ?_⟩
    rcases ended_cases h hget (hended w hw) with hstage | ⟨key, blame, hstage⟩
    · simp [outcome?, Worker.result?, hstage] at hout
    · have hresult : w.result? = some (.error (blamed place key)) := by rw [Worker.result?, hstage]
      rw [outcome?, hresult] at hout
      cases hout
      exact ⟨key, hget, blame, hresult, hwhy⟩

def Below (rows : UInt64) (key : Int64) : Prop := 0 ≤ key.toInt ∧ key.toInt < rows.toNat

theorem mem_allKeys (hw : b.workload.Accepted) {rows : UInt64} (hrows : b.workload.effectiveRows = .ok rows)
    {key : Int64} : key ∈ b.workload.firstKeys (fun _ => b.workload.roundCount) ↔ Below rows key := by
  have hmost := hw.rowTotal_lt
  have hsize : UInt64.size = 2 ^ 64 := rfl
  rw [hw.effectiveRows_eq, Except.ok.injEq] at hrows
  have htotal : rows.toNat = b.workload.rowTotal := by rw [← hrows, Word.toNat_toUInt64 (by omega)]
  rw [hw.perm_firstKeys.mem_iff, Workload.mem_keysBelow (by omega), Below, htotal]

structure Full (b : Bench) (createdAt : Int64) (s : RowLocks) (total : UInt64) (report : Report)
    (t : RowLocks) : Prop where
  rows : report.rows = total
  batches : ∃ rounds, b.workload.rounds = .ok rounds ∧
    report.batches.toNat = rounds.toNat * b.workload.threads.toNat
  conflicts : report.conflicts = 0
  table {key : Int64} {value : Bytes} : (t.table b.table).rows[key]? = some value ↔
    (s.table b.table).rows[key]? = some value ∨ Below total key ∧ value = (Row.generate createdAt key).encode

theorem shows_of_well (h : InStep b createdAt base old ⟨d, todo⟩) (hunder : b.Underway createdAt log d)
    (hwell : ∀ w ∈ d.workers, w.stage = .ended none) :
    Shows old b createdAt (fun _ => b.workload.roundCount) (d.store.table b.table).rows := by
  have hall : ∀ place < b.workload.crewSize, visibleAt ⟨d, todo⟩ place = b.workload.roundCount := by
    intro place hp
    obtain ⟨w, hget, _⟩ := hunder.worker hp
    rw [← visibleAt_of_ended h hget (hwell w (List.mem_of_getElem? hget))]
    exact (hunder.all_batches hwell hget).1
  obtain ⟨hrows, hfresh⟩ := h.shows
  simp only [Workload.firstKeys_congr hall] at hrows hfresh
  exact ⟨hrows, hfresh⟩

theorem no_conflicts (h : InStep b createdAt base old ⟨d, todo⟩) :
    Word.total ((d.workers.map Worker.tally).map Tally.conflicts) = 0 := by
  rw [List.map_map, Word.total_const (n := 0)]
  · rfl
  · intro word hword
    obtain ⟨w, hw, rfl⟩ := List.mem_map.mp hword
    obtain ⟨place, hget⟩ := List.mem_iff_getElem?.mp hw
    rw [Function.comp_apply, (h.workers hget).calm]
    rfl

/-- After a full run the count of rows tells whether the table was empty before. -/
theorem count_of_shows (hw : b.workload.Accepted) {rows : Rows} {total : UInt64}
    (htotal : b.workload.effectiveRows = .ok total)
    (h : Shows old b createdAt (fun _ => b.workload.roundCount) rows) :
    rows.size.toUInt64 = total ↔ ∀ key, key ∉ old := by
  have hmost := hw.rowTotal_lt
  have hsize : UInt64.size = 2 ^ 64 := rfl
  have hlength : (b.workload.firstKeys fun _ => b.workload.roundCount).length = b.workload.rowTotal := by
    rw [hw.perm_firstKeys.length_eq, List.length_map, List.length_range]
  have hpos : 0 < b.workload.rowTotal := by
    obtain ⟨hwidth, hcrew, _, hround⟩ := hw.sizes
    exact Nat.mul_pos (Nat.mul_pos hround hcrew) hwidth
  have hgained := RowLocks.size_eq (fun _ => h.mem_iff) (fun _ => h.fresh)
    (hw.nodup_firstKeys fun _ _ => Nat.le_refl _)
  rw [hlength] at hgained
  rw [hw.effectiveRows_eq, Except.ok.injEq] at htotal
  rw [← htotal]
  exact RowLocks.count_eq_iff hgained hpos (by omega)

theorem check_cases {report : Report} {result : Except Stop Report}
    (h : b.check RowLocks.store report s = (result, t)) : t = s ∧
      (result = .ok report ∧ (b.verify = true → s.rowCount b.table = report.rows) ∨
        result = .error (.failed (.rowsDiffer (s.rowCount b.table) report.rows)) ∧
          b.verify = true ∧ s.rowCount b.table ≠ report.rows) := by
  unfold check at h
  by_cases hverify : b.verify = true
  · simp only [if_pos hverify, RowLocks.store] at h
    by_cases hcount : s.rowCount b.table = report.rows
    · rw [if_pos hcount] at h
      cases h
      exact ⟨rfl, .inl ⟨rfl, fun _ => hcount⟩⟩
    · rw [if_neg hcount] at h
      cases h
      exact ⟨rfl, .inr ⟨rfl, hverify, hcount⟩⟩
  · rw [if_neg hverify] at h
    cases h
    exact ⟨rfl, .inl ⟨rfl, fun he => absurd he hverify⟩⟩

/-- How a run ends on a table with row locks. -/
inductive Ends (b : Bench) (createdAt : Int64) (base : Nat) (s : RowLocks) (total : UInt64)
    (log : List Event) : Except Stop Report → RowLocks → Prop
  | full {report : Report} {t : RowLocks} (full : b.Full createdAt s total report t)
      (apart : ∀ key ∈ (s.table b.table).rows, ¬ Below total key)
      (counted : b.verify = true → ∀ key, key ∉ (s.table b.table).rows) : Ends _ _ _ _ _ _ (.ok report) t
  | miscounted {t : RowLocks} (apart : ∀ key ∈ (s.table b.table).rows, ¬ Below total key)
      (checked : b.verify = true) (held : ¬ ∀ key, key ∉ (s.table b.table).rows) :
      Ends _ _ _ _ _ _ (.error (.failed (.rowsDiffer (t.rowCount b.table) total))) t
  | stopped {d : Crew RowLocks} {place : Nat} {w : Worker} {key : Int64} {t : RowLocks}
      (reached : b.Reaches createdAt RowLocks.store base (Goes base) s none log d)
      (ended : ∀ v ∈ d.workers, v.next = none)
      (here : d.workers[place]? = some w) (inside : place < b.workload.crewSize)
      (blame : Blame (s.table b.table).rows (b.post createdAt place) key)
      (failed : w.result? = some (.error (blamed place key))) :
      Ends _ _ _ _ _ _ (.error (blamed place key)) t

theorem ends_of_collect (h : InStep b createdAt base (s.table b.table).rows ⟨d, todo⟩)
    (hunder : b.Underway createdAt log d) (hended : ∀ w ∈ d.workers, w.next = none) {total : UInt64}
    (htotal : b.workload.effectiveRows = .ok total) {name : String} {elapsed : Elapsed} {report : Report}
    (hcollect : collect (b.blank name elapsed) (d.workers.filterMap outcome?) = .ok report)
    {result : Except Stop Report} (hcheck : b.check RowLocks.store report d.store = (result, t)) :
    b.Ends createdAt base s total log result t := by
  have hcomplete := hunder.complete h.accepted hended hcollect
  obtain ⟨tallies, houtcomes, hsums⟩ := collect_eq_ok hcollect
  obtain ⟨hwell, rfl⟩ := outcomes_ok hended houtcomes
  obtain rfl : total = report.rows := Except.ok.inj (htotal.symm.trans hcomplete.rows)
  have hshows := shows_of_well h hunder hwell
  have hkeys {key : Int64} := @mem_allKeys _ h.accepted _ htotal key
  have hcount : d.store.rowCount b.table = report.rows ↔ ∀ key, key ∉ (s.table b.table).rows :=
    count_of_shows h.accepted htotal hshows
  have hconflicts : report.conflicts = 0 := by
    apply UInt64.toNat_inj.mp
    rw [hsums.conflicts, no_conflicts h]
    rfl
  have hapart : ∀ key ∈ (s.table b.table).rows, ¬ Below report.rows key := by
    intro key hold hbelow
    exact hshows.fresh (hkeys.mpr hbelow) hold
  obtain ⟨rfl, ⟨rfl, hcounted⟩ | ⟨rfl, hverify, hdiffer⟩⟩ := check_cases hcheck
  · refine .full ⟨rfl, hcomplete.batches, hconflicts, ?_⟩ hapart fun hverify => hcount.mp (hcounted hverify)
    intro key value
    rw [hshows.rows, hkeys]
  · exact .miscounted hapart hverify fun hnone => hdiffer (hcount.mpr hnone)

theorem ends_of_returns (hw : b.workload.Accepted) (hq : s.Quiescent) {total : UInt64}
    (htotal : b.workload.effectiveRows = .ok total) {result : Except Stop Report}
    (h : b.Returns createdAt RowLocks.store base (Goes base) s none log result t) :
    b.Ends createdAt base s total log result t := by
  cases h with
  | unmanned hire =>
    obtain ⟨workers, he, _⟩ := @Stepwise.hire_manned _ _ _ (s.table b.table).rows _ _ hw _ _ _ hq.sound
      (Nat.le_of_eq (Nat.zero_add _)) (fun i _ _ => hq.sessions _) hire
    cases he
  | @manned _ d elapsed _ _ reached ended concluded =>
    obtain ⟨todo, hin⟩ := inStep_of_reaches hw hq reached
    rw [conclude] at concluded
    rcases collect_inStep hin ended (RowLocks.store.name d.store) elapsed with
      ⟨report, hcollect⟩ | ⟨place, w, key, hget, blame, hfailed, hcollect⟩
    · rw [hcollect] at concluded
      exact ends_of_collect hin (reached.underway Goes.follows hw) ended htotal hcollect concluded
    · rw [hcollect] at concluded
      cases concluded
      exact .stopped reached ended hget (hin.place_lt hget) blame hfailed

section Ends

variable {total : UInt64} {result : Except Stop Report}

end Ends

end Bench

end InsertBench
