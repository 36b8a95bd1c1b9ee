import InsertBench.Proofs.Bench.Faults

/-! # Which error a run reports

Workers are waited for in the order of their numbers, and the first of them that failed decides how the
run is reported; when it failed, and who failed before it, does not matter. The rows are counted only if
nobody failed.
-/
namespace InsertBench

variable {σ : Type} {store : Store σ} {base : Nat}

/-- A store that notes of which tables the rows are counted. -/
def Store.counting (store : Store σ) : Store (σ × List String) where
  name s := store.name s.1
  call s seat request := (store.call s.1 seat request).map fun answer => (answer.1, answer.2, s.2)
  rowCount s table := ((store.rowCount s.1 table).1, (store.rowCount s.1 table).2, s.2 ++ [table])
  shut s := store.shut s.1

theorem Store.counting_call {s t : σ × List String} {seat : Nat} {request : Request} {reply : Reply}
    (h : store.counting.call s seat request = some (reply, t)) : t.2 = s.2 := by
  obtain ⟨answer, _, he⟩ := Option.map_eq_some_iff.mp h
  cases he
  rfl

/-- What a worker that ended early counts as for who waits for it. -/
def Stop.awaited : Stop → Failure
  | failed why => why
  | crashed _ => .workerPanicked

theorem Report.add_eq_error {r : Report} {t : Tally} {how : Fault} (h : r.add t = .error how) :
    how = .addOverflow := by
  have hadd {a b : UInt64} {how : Fault} (h : Word.add a b = .error how) : how = .addOverflow := by
    unfold Word.add at h
    split at h <;> cases h
    rfl
  unfold Report.add at h
  cases hrows : Word.add r.rows t.rows with
  | error _ =>
    rw [hrows] at h
    cases h
    exact hadd hrows
  | ok rows =>
    cases hbatches : Word.add r.batches t.batches with
    | error _ =>
      rw [hrows, hbatches] at h
      cases h
      exact hadd hbatches
    | ok batches =>
      cases hconflicts : Word.add r.conflicts t.conflicts with
      | error _ =>
        rw [hrows, hbatches, hconflicts] at h
        cases h
        exact hadd hconflicts
      | ok conflicts =>
        rw [hrows, hbatches, hconflicts] at h
        cases h

namespace Crew

theorem Runs.keeps_store {P : σ → Prop}
    (hcall : ∀ s seat request reply t, P s → store.call s seat request = some (reply, t) → P t)
    {c d : Crew σ} {log : List Event} (h : Runs store base c log d) (hc : P c.store) : P d.store := by
  induction h with
  | done _ => exact hc
  | @act _ next _ _ _ event _ first _ ih =>
    obtain ⟨w, hacted⟩ := acted_of_act first
    apply ih
    by_cases hquiet : ∀ request, event.action ≠ .call request
    · rwa [hacted.kept hquiet]
    · cases event with
      | call place request reply =>
        obtain rfl := hacted.turn
        exact hcall _ _ _ _ _ hc (hacted.answered rfl)
      | _ => simp [Event.action] at hquiet

end Crew

namespace Bench

open Crew (Event)

variable {b : Bench} {createdAt : Int64} {workers : List Worker} {place : Nat} {w : Worker} {stop : Stop}

/-- The worker with the smallest number of those that failed. -/
structure FirstToFail (workers : List Worker) (place : Nat) (w : Worker) (stop : Stop) : Prop where
  here : workers[place]? = some w
  failed : w.result? = some (.error stop)
  earlier : ∀ i < place, ∀ v, workers[i]? = some v → ∃ tally, v.result? = some (.ok tally)

theorem FirstToFail.not_lt {place' : Nat} {w' : Worker} {stop' : Stop}
    (h : FirstToFail workers place w stop) (h' : FirstToFail workers place' w' stop') : ¬ place < place' := by
  intro hlt
  obtain ⟨tally, hok⟩ := h'.earlier place hlt w h.here
  rw [h.failed] at hok
  cases hok

theorem FirstToFail.unique {place' : Nat} {w' : Worker} {stop' : Stop}
    (h : FirstToFail workers place w stop) (h' : FirstToFail workers place' w' stop') : stop = stop' := by
  obtain rfl : place = place' := by
    have hle := h.not_lt h'
    have hge := h'.not_lt h
    omega
  have hw := h.here
  rw [h'.here] at hw
  cases hw
  have hstop := h.failed
  rw [h'.failed] at hstop
  cases hstop
  rfl

theorem FirstToFail.cons {v : Worker} (h : FirstToFail workers place w stop)
    (hv : ∃ tally, v.result? = some (.ok tally)) : FirstToFail (v :: workers) (place + 1) w stop where
  here := h.here
  failed := h.failed
  earlier i hi u hu := by
    cases i with
    | zero =>
      cases hu
      exact hv
    | succ i => exact h.earlier i (Nat.lt_of_succ_lt_succ hi) u hu

/-- What adding up workers that have ended comes to: all of them reported, or the first that failed is
found, or else a sum has no word. -/
theorem collect_ended (hended : ∀ w ∈ workers, w.next = none) (r : Report) :
    ((∀ w ∈ workers, w.stage = .ended none) ∧ ∃ u, collect r (workers.filterMap outcome?) = .ok u) ∨
    (∃ place w stop, FirstToFail workers place w stop ∧
      collect r (workers.filterMap outcome?) = .error (.failed stop.awaited)) ∨
    collect r (workers.filterMap outcome?) = .error (.crashed .addOverflow) := by
  induction workers generalizing r with
  | nil => exact .inl ⟨by simp, r, rfl⟩
  | cons w rest ih =>
    obtain ⟨hw, hrest⟩ := List.forall_mem_cons.mp hended
    obtain ⟨stop, hstage⟩ := ended_of_next hw
    cases stop with
    | some stop =>
      have hresult : w.result? = some (.error stop) := by rw [Worker.result?, hstage]
      have houtcome : outcome? w = some (.error stop.awaited) := by
        rw [outcome?, hresult]
        cases stop <;> rfl
      refine .inr (.inl ⟨0, w, stop, ⟨rfl, hresult, fun i hi => absurd hi (Nat.not_lt_zero i)⟩, ?_⟩)
      rw [List.filterMap_cons_some houtcome]
      rfl
    | none =>
      have hresult : w.result? = some (.ok w.tally) := Worker.result?_eq_ok_iff.mpr ⟨hstage, rfl⟩
      have houtcome : outcome? w = some (.ok w.tally) := by rw [outcome?, hresult]; rfl
      rw [List.filterMap_cons_some houtcome, collect]
      cases hadd : r.add w.tally with
      | error how =>
        obtain rfl := Report.add_eq_error hadd
        exact .inr (.inr rfl)
      | ok next =>
        rcases ih hrest next with ⟨hall, hok⟩ | ⟨place, v, stop, hfirst, hcollect⟩ | hfull
        · exact .inl ⟨List.forall_mem_cons.mpr ⟨hstage, hall⟩, hok⟩
        · exact .inr (.inl ⟨place + 1, v, stop, hfirst.cons ⟨_, hresult⟩, hcollect⟩)
        · exact .inr (.inr hfull)

def NoneFailed (workers : List Worker) : Prop := ∀ w ∈ workers, ∃ tally, w.result? = some (.ok tally)

def rowsReported (workers : List Worker) : Nat := (workers.map fun w => w.tally.rows.toNat).sum

/-- The end of a run in which nobody failed and so many rows were reported: the rows are counted once if
that is asked for, and not at all otherwise. -/
structure Audits (b : Bench) (store : Store σ) (reported : Nat) (s : σ) (result : Except Stop Report) (t : σ)
    (counts : List String) : Prop where
  unchecked : b.verify = false →
    (∃ report, result = .ok report ∧ report.rows.toNat = reported) ∧ t = s ∧ counts = []
  checked : b.verify = true → t = (store.rowCount s b.table).2 ∧ counts = [b.table]
  fails_iff : (∃ stop, result = .error stop) ↔ b.verify = true ∧
    ((∃ stop, (store.rowCount s b.table).1 = .error stop) ∨
      ∃ stored, (store.rowCount s b.table).1 = .ok stored ∧ stored.toNat ≠ reported)
  uncounted (stop : Stop) : b.verify = true → (store.rowCount s b.table).1 = .error stop →
    result = .error (stop.during .countRows)
  differs (stored : UInt64) : b.verify = true → (store.rowCount s b.table).1 = .ok stored →
    stored.toNat ≠ reported → ∃ claimed : UInt64, claimed.toNat = reported ∧
      result = .error (.failed (.rowsDiffer stored claimed))

/-- What a run comes to once all of its workers have ended, and of which tables the rows are counted. -/
structure Blames (b : Bench) (store : Store σ) (workers : List Worker) (s : σ) (result : Except Stop Report)
    (t : σ) (counts : List String) : Prop where
  first : ¬ NoneFailed workers → ∃ place w stop, FirstToFail workers place w stop
  failed (place : Nat) (w : Worker) (stop : Stop) : FirstToFail workers place w stop →
    result = .error (.failed stop.awaited) ∧ t = s ∧ counts = []
  audits : NoneFailed workers → b.Audits store (rowsReported workers) s result t counts

variable {s t : σ} {counts : List String} {result : Except Stop Report} {report : Report}

theorem FirstToFail.not_noneFailed (h : FirstToFail workers place w stop) : ¬ NoneFailed workers := by
  intro hnone
  obtain ⟨tally, hok⟩ := hnone w (List.mem_of_getElem? h.here)
  rw [h.failed] at hok
  cases hok

theorem audits_of_check (h : b.check store.counting report (s, []) = (result, t, counts)) :
    b.Audits store report.rows.toNat s result t counts := by
  have hrow : store.counting.rowCount (s, []) b.table =
      ((store.rowCount s b.table).1, (store.rowCount s b.table).2, [b.table]) := rfl
  unfold check at h
  cases hverify : b.verify with
  | false =>
    rw [if_neg (by simp [hverify])] at h
    cases h
    constructor
    case unchecked => exact fun _ => ⟨⟨report, rfl, rfl⟩, rfl, rfl⟩
    all_goals simp [hverify]
  | true =>
    rw [if_pos hverify, hrow] at h
    cases hcount : (store.rowCount s b.table).1 with
    | error stop =>
      simp only [hcount] at h
      cases h
      constructor <;> simp [hverify, hcount]
    | ok stored =>
      simp only [hcount] at h
      by_cases heq : stored = report.rows
      · rw [if_pos heq] at h
        cases h
        constructor <;> simp [hverify, hcount, heq]
      · rw [if_neg heq] at h
        cases h
        have hne : stored.toNat ≠ report.rows.toNat := fun he => heq (UInt64.toNat_inj.mp he)
        constructor <;> simp [hverify, hcount, hne]

theorem Reaches.uncounted {log : List Event} {d : Crew (σ × List String)}
    (h : b.Reaches createdAt store.counting base (Crew.Runs store.counting base) (s, []) none log d) :
    d.store.2 = [] := by
  obtain ⟨hire, run⟩ := h
  refine run.keeps_store (P := fun u => u.2 = []) (fun _ _ _ _ _ hnone hcall => ?_) ?_
  · rw [Store.counting_call hcall, hnone]
  · refine Crew.hire_keeps (P := fun u => u.2 = []) hire rfl (Nat.le_of_eq (Nat.zero_add _)) ?_ ?_
    · intro _ _ _ _ _ hnone hcall
      rw [Store.counting_call hcall, hnone]
    · intro _ _ _ _ _ hnone hcall
      rw [Store.counting_call hcall, hnone]

theorem noneFailed_of_stages (h : ∀ w ∈ workers, w.stage = .ended none) : NoneFailed workers :=
  fun w hmem => ⟨w.tally, Worker.result?_eq_ok_iff.mpr ⟨h w hmem, rfl⟩⟩

theorem rows_of_collect {r u : Report} (hended : ∀ w ∈ workers, w.next = none)
    (h : collect r (workers.filterMap outcome?) = .ok u) :
    u.rows.toNat = r.rows.toNat + rowsReported workers := by
  obtain ⟨tallies, houtcomes, hsums⟩ := collect_eq_ok h
  obtain ⟨_, rfl⟩ := outcomes_ok hended houtcomes
  rw [hsums.rows, Word.total_eq_sum, List.map_map, List.map_map]
  rfl

/-- Whichever workers fail, and in whichever order, the run reports the failure of the one with the smallest
number, and counts no rows then; if none fails it counts them if that is asked for, and fails if the count
fails or differs.

The second case cannot be left out, though no run lives to see it. Conflicts have a word of 64 bits, in each
tally and in their sum, and every addition is checked: once `2 ^ 64` calls have been answered with a conflict
the addition is a fault, whether or not a worker failed. -/
theorem blames_of_reaches (hw : b.workload.Accepted) {log : List Event} {d : Crew (σ × List String)}
    (elapsed : Elapsed)
    (reached : b.Reaches createdAt store.counting base (Crew.Runs store.counting base) (s, []) none log d)
    (ended : ∀ w ∈ d.workers, w.next = none)
    (concluded : b.conclude store.counting elapsed d.workers d.store = (result, t, counts)) :
    b.Blames store d.workers d.store.1 result t counts ∨
      UInt64.size ≤ log.countP Event.isConflict ∧ result = .error (.crashed .addOverflow) := by
  have hnone := reached.uncounted
  have hunder := reached.underway Crew.Runs.follows hw
  obtain ⟨⟨u, counted⟩, halt, workers⟩ := d
  obtain rfl : counted = [] := hnone
  rw [conclude] at concluded
  dsimp only at concluded ended ⊢
  rcases collect_ended ended (b.blank (store.counting.name (u, [])) elapsed) with
    ⟨hwell, report, hok⟩ | ⟨place, w, stop, hfirst, hcollect⟩ | hfull
  · rw [hok] at concluded
    have hrows := rows_of_collect ended hok
    have haudits := audits_of_check concluded
    rw [hrows, show (b.blank (store.counting.name (u, [])) elapsed).rows.toNat = 0 from rfl,
      Nat.zero_add] at haudits
    have hall := noneFailed_of_stages hwell
    exact .inl ⟨fun hnot => absurd hall hnot, fun _ _ _ hfirst => absurd hall hfirst.not_noneFailed,
      fun _ => haudits⟩
  · rw [hcollect] at concluded
    cases concluded
    refine .inl ⟨fun _ => ⟨place, w, stop, hfirst⟩, fun _ _ stop' hfirst' => ?_,
      fun hall => absurd hall hfirst.not_noneFailed⟩
    rw [hfirst'.unique hfirst]
    exact ⟨rfl, rfl, rfl⟩
  · have hmany : UInt64.size ≤ log.countP Event.isConflict := by
      refine Nat.le_of_not_lt fun hlt => ?_
      rcases collect_underway hw hunder hlt (store.counting.name (u, [])) elapsed with ⟨_, hok⟩ | ⟨_, hwhy⟩
      · rw [hok] at hfull
        cases hfull
      · rw [hwhy] at hfull
        cases hfull
    rw [hfull] at concluded
    cases concluded
    exact .inr ⟨hmany, rfl⟩

/-- A store that cannot begin a transaction on its first two seats: it faults on the one and fails on the
other. -/
def lame : Store Unit where
  name _ := "lame"
  call
    | _, 0, .beginTxn => some (.error (.crashed (.raised "boom")), ())
    | _, 1, .beginTxn => some (.error (.failed (.reported "no")), ())
    | _, _, _ => some (.ok .accepted, ())
  rowCount _ _ := (.ok 0, ())
  shut _ := .ok ()

def twoChecked : Bench := ⟨⟨2, 1, 2, .lazy, false, .unbounded⟩, "t", true⟩

/-- The second worker fails before the first one faults, and still the run is reported as a panic of the
first. On other seats nobody fails, the rows are counted once, and there are too few. -/
theorem blames_lame :
    (∃ (log : List Event) (d : Crew (Unit × List String)),
      twoChecked.Reaches 0 lame.counting 0 (Crew.Runs lame.counting 0) ((), []) none log d ∧
      log[7]? = some (.raiseHalt 1) ∧
        log[9]? = some (.call 0 .beginTxn (.error (.crashed (.raised "boom")))) ∧
      twoChecked.Blames lame d.workers () (.error (.failed .workerPanicked)) () []) ∧
    ∃ (log : List Event) (d : Crew (Unit × List String)),
      twoChecked.Reaches 0 lame.counting 2 (Crew.Runs lame.counting 2) ((), []) none log d ∧
      d.workers.map Worker.stage = [.ended none, .ended none] ∧
      twoChecked.Blames lame d.workers () (.error (.failed (.rowsDiffer 0 2))) () ["t"] := by
  have hw : twoChecked.workload.Accepted := by decide
  have hended {v w : Worker} (hv : v.next = none) (hnext : w.next = none) : ∀ u ∈ [v, w], u.next = none := by
    simp [hv, hnext]
  constructor
  · have hruns : Crew.Runs lame.counting 0
        ⟨((), []), false, [.new (twoChecked.post 0 0), .new (twoChecked.post 0 1)]⟩ _
        ⟨_, true, [⟨twoChecked.post 0 0, .zero 0, .ended (some (.crashed (.raised "boom"))), _⟩,
          ⟨twoChecked.post 0 1, .zero 1,
            .ended (some (.failed (.during (.work 1) (.during .beginTxn (.reported "no"))))), _⟩]⟩ :=
      .turn 0 rfl <| .turn 0 rfl <| .turn 1 rfl <| .turn 1 rfl <| .turn 1 rfl <| .turn 1 rfl <| .turn 1 rfl <|
        .turn 1 rfl <| .turn 0 rfl <| .turn 0 rfl <| .turn 0 rfl <| .done _
    have hreached : twoChecked.Reaches 0 lame.counting 0 (Crew.Runs lame.counting 0) ((), []) none _ _ :=
      .hired rfl hruns
    have hblames := blames_of_reaches hw ⟨0, 0⟩ hreached (hended rfl rfl) rfl
    exact ⟨_, _, hreached, rfl, rfl, hblames.resolve_right fun hfull => nomatch hfull.2⟩
  · have hruns : Crew.Runs lame.counting 2
        ⟨((), []), false, [.new (twoChecked.post 0 0), .new (twoChecked.post 0 1)]⟩ _
        ⟨_, false, [⟨twoChecked.post 0 0, ⟨0, 1, 1, 0, _⟩, .ended none, _⟩,
          ⟨twoChecked.post 0 1, ⟨1, 1, 1, 0, _⟩, .ended none, _⟩]⟩ :=
      .turn 0 rfl <| .turn 0 rfl <| .turn 0 rfl <| .turn 0 rfl <| .turn 0 rfl <| .turn 0 rfl <| .turn 0 rfl <|
        .turn 0 rfl <| .turn 1 rfl <| .turn 1 rfl <| .turn 1 rfl <| .turn 1 rfl <|
          .turn 1 rfl <| .turn 1 rfl <|
        .turn 1 rfl <| .turn 1 rfl <| .done _
    have hreached : twoChecked.Reaches 0 lame.counting 2 (Crew.Runs lame.counting 2) ((), []) none _ _ :=
      .hired rfl hruns
    have hblames := blames_of_reaches hw ⟨0, 0⟩ hreached (hended rfl rfl) rfl
    exact ⟨_, _, hreached, rfl, hblames.resolve_right fun hfull => nomatch hfull.2⟩

end Bench

end InsertBench
