import InsertBench.Proofs.Bench.Outcome
import InsertBench.Proofs.Crew.Hiring

/-! # Where a run can fault

A fault of a worker is a failure of the run. So on a store whose inserts meet no conflicts, a run faults
only where it opens a session itself, for an eager worker, or where it counts the rows.
-/
namespace InsertBench

variable {σ : Type} {store : Store σ} {base : Nat}

namespace Crew

variable {post : Nat → Post}

theorem Runs.answered {P : Request → Reply → Prop}
    (hP : ∀ {s seat request reply t}, store.call s seat request = some (reply, t) → P request reply)
    {c d : Crew σ} {log : List Event} (h : Runs store base c log d) {place : Nat} {request : Request}
    {reply : Reply} (hmem : .call place request reply ∈ log) : P request reply := by
  induction h with
  | done _ => cases hmem
  | @act _ _ _ actor _ _ _ first _ ih =>
    obtain ⟨w, hacted⟩ := acted_of_act first
    rcases List.mem_cons.mp hmem with rfl | hmem
    · obtain rfl : place = actor := hacted.turn
      exact hP (hacted.answered rfl)
    · exact ih hmem

theorem hire_stopped {left place : Nat} {s t : σ} {stop : Stop}
    (h : hire store base post left place s = some (.error stop, t)) :
    ∃ i, (post i).workload.sessionStart = .eager ∧ ∃ u seat why v,
      store.call u seat (.openSession (post i).table) = some (.error why, v) ∧
        stop = why.during (.openSession (post i).id) := by
  induction left generalizing place s with
  | zero => cases h
  | succ left ih =>
    cases hires_of_hire h with
    | inVain _ rest => exact ih rest
    | refused mode failed _ => exact ⟨place, mode, _, _, _, _, failed, rfl⟩

theorem hire_opened {left place : Nat} {s t : σ} {workers : List Worker} (hleft : 0 < left)
    (heager : (post place).workload.sessionStart = .eager)
    (h : hire store base post left place s = some (.ok workers, t)) :
    ∃ u seat verdict v, store.call u seat (.openSession (post place).table) = some (.ok verdict, v) := by
  obtain ⟨left, rfl⟩ := Nat.exists_eq_succ_of_ne_zero hleft.ne'
  cases hires_of_hire h with
  | joined joins _ =>
    cases joins with
    | lazy mode => simp [heager] at mode
    | eager _ opened => exact ⟨s, _, _, _, opened⟩

def Failing : Worker.Stage → Prop
  | .raising _ | .ended (some _) => True
  | _ => False

/-- A worker that is past the opening of its session has opened it, or it fails. -/
def Entered (table : String) (place : Nat) (log : List Event) (w : Worker) : Prop :=
  w.post.table = table ∧ (w.stage = .opening ∨ Failing w.stage ∨
    ∃ verdict, .call place (.openSession table) (.ok verdict) ∈ log)

theorem entered_keeps (table : String) : EachKeeps fun place => Entered table place := by
  rintro place log w event ⟨rfl, hentered⟩ hplace hn
  have hm := Worker.moves_of_next hn
  refine ⟨by rw [hm.post], .inr ?_⟩
  generalize w.after event = v at hm
  rcases hentered with hstage | hfailing | ⟨verdict, hmem⟩
  · cases hm with
    | @opened _ verdict _ =>
      obtain rfl : _ = place := hplace
      exact .inr ⟨verdict, List.mem_append_right _ List.mem_cons_self⟩
    | @openFailed _ stop _ => cases stop <;> exact .inl trivial
    | _ stage => cases hstage.symm.trans stage
  · cases hm with
    | raised _ => exact .inl trivial
    | _ stage =>
      rw [stage] at hfailing
      exact hfailing.elim
  · exact .inr ⟨verdict, List.mem_append_left _ hmem⟩

end Crew

namespace Bench

open Crew (Event)

variable {b : Bench} {createdAt : Int64} {s t : σ} {log : List Event} {d : Crew σ}

theorem Reaches.opened (hw : b.workload.Accepted)
    (h : b.Reaches createdAt store base (Crew.Runs store base) s none log d)
    (hwell : ∀ w ∈ d.workers, w.stage = .ended none) :
    ∃ u seat verdict v, store.call u seat (.openSession b.table) = some (.ok verdict, v) := by
  have hcrew : 0 < b.workload.threads.toNat := hw.sizes.2.1
  have hunder := h.underway Crew.Runs.follows hw
  obtain ⟨hire, run⟩ := h
  cases hstart : b.workload.sessionStart with
  | eager => exact Crew.hire_opened hcrew hstart hire
  | lazy =>
    obtain ⟨w, hget, hat⟩ := hunder.worker hcrew
    have heach := run.follows.each (Crew.entered_keeps b.table) fun place v hv => by
      rw [Crew.hire_hired hire, Crew.muster, List.getElem?_map] at hv
      obtain ⟨i, _, rfl⟩ := Option.map_eq_some_iff.mp hv
      have hnew : Crew.hired (b.post createdAt i) = .new (b.post createdAt i) := by
        rw [Crew.hired, show (b.post createdAt i).workload.sessionStart = .lazy from hstart]
      rw [hnew]
      exact ⟨rfl, .inl rfl⟩
    obtain ⟨_, hentered⟩ := heach 0 w hget
    rw [hwell w (List.mem_of_getElem? hget)] at hentered
    rcases hentered with hf | hf | ⟨verdict, hmem⟩
    · cases hf
    · exact hf.elim
    · have hcalled := run.answered (P := fun request reply => ∃ u seat v,
        store.call u seat request = some (reply, v)) (fun hcall => ⟨_, _, _, hcall⟩)
        (List.mem_filter.mp hmem).1
      obtain ⟨u, seat, v, hcall⟩ := hcalled
      exact ⟨u, seat, verdict, v, hcall⟩

/-- The workers that did not fail have met no more conflicts than the log shows. -/
theorem Underway.conflicts_le (h : b.Underway createdAt log d) :
    Word.total ((talliesOf (d.workers.filterMap outcome?)).map Tally.conflicts) ≤
      log.countP Event.isConflict := by
  refine (total_tallies_le_sum Tally.conflicts
    (fun place => (Crew.eventsOf log place).countP Event.isConflict)
    fun place w hget hstage => ?_).trans (le_of_eq ?_)
  · have htold := (h.each place w hget).told
    rw [Worker.Told, hstage] at htold
    exact htold.1.conflicts.ge
  · rw [h.manned.length, ← h.manned.perm_eventsOf.countP_eq, List.countP_flatMap]
    rfl

/-- As long as the conflicts have a word, the sums over a crew have words, so that a crew adds up or one of it
has failed. -/
theorem collect_underway (hw : b.workload.Accepted) (h : b.Underway createdAt log d)
    (hcounted : log.countP Event.isConflict < UInt64.size) (name : String) (elapsed : Elapsed) :
    (∃ report, collect (b.blank name elapsed) (d.workers.filterMap outcome?) = .ok report) ∨
      ∃ why, collect (b.blank name elapsed) (d.workers.filterMap outcome?) = .error (.failed why) := by
  have hmost := hw.rowTotal_lt
  have hsize : UInt64.size = 2 ^ 64 := rfl
  obtain ⟨hrows, hbatches⟩ := @total_batches_le b hw d.workers h.manned.length fun w hmem => by
    obtain ⟨place, hget⟩ := List.mem_iff_getElem?.mp hmem
    have hat := h.each place w hget
    exact ⟨hat.onTrack, by rw [hat.post]; rfl⟩
  have hconflicts := h.conflicts_le
  have hzero : (b.blank name elapsed).rows.toNat = 0 ∧ (b.blank name elapsed).batches.toNat = 0 ∧
      (b.blank name elapsed).conflicts.toNat = 0 := ⟨rfl, rfl, rfl⟩
  rcases @collect_cases (b.blank name elapsed) (d.workers.filterMap outcome?) (by omega) (by omega) (by omega)
    with hok | ⟨why, _, hwhy⟩
  · exact .inl hok
  · exact .inr ⟨why, hwhy⟩

theorem check_crashed {report : Report} {how : Fault}
    (h : b.check store report s = (.error (.crashed how), t)) :
    (store.rowCount s b.table).1 = .error (.crashed how) := by
  unfold check at h
  split at h
  · split at h
    · rename_i stop _ hcount
      cases stop <;> cases h
      rw [hcount]
    · split at h <;> cases h
  · cases h

/-- A store on which inserts meet no conflicts. -/
def Calm (store : Store σ) : Prop :=
  ∀ {s seat request reply t}, store.call s seat request = some (reply, t) → reply ≠ .ok .conflict

theorem Calm.countP (h : Calm store) {c : Crew σ} (hruns : Crew.Runs store base c log d) :
    log.countP Event.isConflict = 0 := by
  rw [List.countP_eq_zero]
  intro event hmem hconflict
  unfold Event.isConflict at hconflict
  split at hconflict
  · exact hruns.answered (P := fun _ reply => reply ≠ .ok .conflict) h hmem rfl
  · cases hconflict

/-- A run faults where it opens a session for an eager worker, or where it counts the rows of a table on
which sessions were opened. -/
theorem Returns.fault (hw : b.workload.Accepted) (hcalm : Calm store) {how : Fault}
    (h : b.Returns createdAt store base (Crew.Runs store base) s none log (.error (.crashed how)) t) :
    (b.workload.sessionStart = .eager ∧ ∃ u seat v,
      store.call u seat (.openSession b.table) = some (.error (.crashed how), v)) ∨
    (∃ u, (store.rowCount u b.table).1 = .error (.crashed how)) ∧ ∃ u seat verdict v,
      store.call u seat (.openSession b.table) = some (.ok verdict, v) := by
  generalize hresult : Except.error (Stop.crashed how) = result at h
  cases h with
  | unmanned hire =>
    cases hresult
    obtain ⟨i, heager, u, seat, why, v, hcall, hstop⟩ := Crew.hire_stopped hire
    cases why <;> cases hstop
    exact .inl ⟨heager, u, seat, v, hcall⟩
  | @manned _ d elapsed _ _ reached ended concluded =>
    subst hresult
    have hunder := reached.underway Crew.Runs.follows hw
    rw [conclude] at concluded
    have hcount : log.countP Event.isConflict < UInt64.size := by
      obtain ⟨_, run⟩ := reached
      rw [hcalm.countP run]
      decide
    rcases collect_underway hw hunder hcount (store.name d.store) elapsed with ⟨report, hok⟩ | ⟨why, hwhy⟩
    · rw [hok] at concluded
      obtain ⟨tallies, houtcomes, _⟩ := collect_eq_ok hok
      obtain ⟨hwell, rfl⟩ := outcomes_ok ended houtcomes
      exact .inr ⟨⟨_, check_crashed concluded⟩, reached.opened hw hwell⟩
    · rw [hwhy] at concluded
      cases concluded

end Bench

end InsertBench
