import InsertBench.Proofs.Contest.Tracked

/-! # Batches that overlap exclude each other

At every moment a table holds its old rows and all rows of each batch whose commit has come so far as to
make them visible. No two such batches have a key in common, a batch that stops has never been one of them,
and only batches that have not ended hold locks.
-/
namespace InsertBench.Contest

open RowLocks (Operation Event Quiescent)

/-- How batches at once on one table have fared so far. -/
structure Exclusive (name : String) (base : Nat) (plans : List Batch.Plan) (old : Rows) (log : List Event)
    (c : Contest) : Prop where
  lineup : c.contenders.map Contender.plan = plans
  committed {place : Nat} {x : Contender} {conflicts : UInt64} : c.contenders[place]? = some x →
    x.progress = .over (.ok conflicts) → applies log (base + place) = 1 ∧
      ∀ offset < x.plan.workload.width, ∃ key, x.plan.key offset = .ok key ∧
        (c.store.table name).rows[key]? = some (x.plan.value key)
  stopped {place : Nat} {x : Contender} {stop : Stop} : c.contenders[place]? = some x →
    x.progress = .over (.error stop) → applies log (base + place) = 0
  rows {key : Int64} {value : Bytes} : (c.store.table name).rows[key]? = some value ↔
    old[key]? = some value ∨ ∃ place x, c.contenders[place]? = some x ∧ applies log (base + place) = 1 ∧
      ∃ offset < x.plan.workload.width, x.plan.key offset = .ok key ∧ x.plan.value key = value
  apart {place other : Nat} {x y : Contender} {conflicts conflicts' : UInt64} : place ≠ other →
    c.contenders[place]? = some x → x.progress = .over (.ok conflicts) →
    c.contenders[other]? = some y → y.progress = .over (.ok conflicts') →
      ∀ offset < x.plan.workload.width, ∀ offset' < y.plan.workload.width,
        x.plan.key offset ≠ y.plan.key offset'
  holders {key : Int64} {id : UInt64} : (c.store.table name).locks[key]? = some id →
    ∃ place x b txn, c.contenders[place]? = some x ∧ x.progress = .more b ∧
      c.store.sessions[base + place]? = some ⟨name, some txn⟩ ∧ txn.id = id ∧ key ∈ txn.keys
  moves {place : Nat} {x : Contender} {b : Batch} : c.contenders[place]? = some x → x.progress = .more b →
    ∃ event d, event.seat = base + place ∧ Step base c event d
  unlocked : (∀ x ∈ c.contenders, ∃ result, x.progress = .over result) → (c.store.table name).locks = ∅

variable {name : String} {base : Nat} {plans : List Batch.Plan} {old : Rows} {log : List Event} {c : Contest}
  {s₀ s : RowLocks}

theorem tracked_entered (hsound : RowLocks.Sound s)
    (hunlocked : ∀ key : Int64, (s.table name).locks[key]? = none)
    (hseated : ∀ place < plans.length, s.sessions[base + place]? = some ⟨name, none⟩) :
    Tracked name base plans (s.table name).rows [] (entered plans s) := by
  constructor
  case lineup => simp [entered, Function.comp_def]
  case sound => exact hsound
  case holds =>
    intro place x hx
    obtain ⟨plan, hplan, rfl⟩ := Option.map_eq_some_iff.mp ((List.getElem?_map ..).symm.trans hx)
    rw [show (entered plans s).store = s from rfl, hseated place (List.getElem?_eq_some_iff.mp hplan).1]
    exact .starting
  case others =>
    intro seat txn hf
    refine .inr (List.eq_nil_iff_forall_not_mem.mpr fun key hkey => ?_)
    have hlock := hsound.lock_of_write hf hkey
    rw [hunlocked] at hlock
    cases hlock
  case shows =>
    constructor
    · intro key value
      simp [entered, applies]
    · intro place other p q key _ _ hwon
      simp [applies] at hwon

variable {place : Nat} {x : Contender} {b : Batch} {key : Int64} {id : UInt64}

theorem Tracked.dealt (h : Tracked name base plans old log c) (hx : c.contenders[place]? = some x)
    (hwon : applies log (base + place) = 1) : x.plan.Dealt x.plan.workload.width := by
  have hholds := h.holds hx
  rw [hwon] at hholds
  exact hholds.dealt

theorem Tracked.won_of_ok (h : Tracked name base plans old log c) (hx : c.contenders[place]? = some x)
    {conflicts : UInt64} (hprogress : x.progress = .over (.ok conflicts)) :
    applies log (base + place) = 1 := by
  have hholds := h.holds hx
  rw [hprogress] at hholds
  exact hholds.of_ok

theorem Tracked.holder (h : Tracked name base plans old log c)
    (hlock : (c.store.table name).locks[key]? = some id) :
    ∃ place x b txn, c.contenders[place]? = some x ∧ x.progress = .more b ∧
      c.store.sessions[base + place]? = some ⟨name, some txn⟩ ∧ txn.id = id ∧ key ∈ txn.keys := by
  obtain ⟨seat, txn, hf, hid, hkey⟩ := h.sound.write_of_lock hlock
  rcases h.others hf with ⟨place, hlt, rfl⟩ | hnone
  · rw [← h.lineup, List.length_map] at hlt
    have hx := List.getElem?_eq_getElem hlt
    have hholds := h.holds hx
    cases hprogress : c.contenders[place].progress with
    | more b => exact ⟨place, _, b, txn, hx, hprogress, hf, hid, hkey⟩
    | _ result =>
      rw [hprogress, hf] at hholds
      cases hholds.idle
  · rw [hnone] at hkey
    cases hkey

theorem Tracked.moves (h : Tracked name base plans old log c) (hx : c.contenders[place]? = some x)
    (hprogress : x.progress = .more b) : ∃ event d, event.seat = base + place ∧ Step base c event d := by
  obtain ⟨plan, progress, todo⟩ := x
  subst hprogress
  obtain ⟨op, rest, hleft, hacts⟩ := (h.holds hx).acts
  obtain ⟨⟨reply, t⟩, hperforms⟩ := Option.isSome_iff_exists.mp hacts
  cases rest with
  | nil => exact ⟨_, _, rfl, .last hx hleft hperforms⟩
  | cons next rest => exact ⟨_, _, rfl, .part hx hleft hperforms⟩

theorem Tracked.exclusive (h : Tracked name base plans old log c) : Exclusive name base plans old log c := by
  constructor
  case lineup => exact h.lineup
  case committed =>
    intro place x conflicts hx hprogress
    have hwon := h.won_of_ok hx hprogress
    refine ⟨hwon, fun offset ho => ⟨_, h.dealt hx hwon offset ho, ?_⟩⟩
    exact h.shows.rows.mpr (.inr ⟨place, x.plan, h.plan hx, hwon, Batch.Plan.mem_rows.mpr ⟨offset, ho, rfl⟩⟩)
  case stopped =>
    intro place x stop hx hprogress
    have hholds := h.holds hx
    rw [hprogress] at hholds
    exact hholds.of_error
  case rows =>
    intro key value
    rw [h.shows.rows]
    apply or_congr_right
    constructor
    · rintro ⟨place, p, hp, hwon, hrow⟩
      rw [← h.lineup, List.getElem?_map] at hp
      obtain ⟨x, hx, rfl⟩ := Option.map_eq_some_iff.mp hp
      exact ⟨place, x, hx, hwon, (h.dealt hx hwon).mem_rows.mp hrow⟩
    · rintro ⟨place, x, hx, hwon, hrow⟩
      exact ⟨place, x.plan, h.plan hx, hwon, (h.dealt hx hwon).mem_rows.mpr hrow⟩
  case apart =>
    intro place other x y conflicts conflicts' hne hx hprogress hy hprogress' offset ho offset' ho' hsame
    have hwon := h.won_of_ok hx hprogress
    have hwon' := h.won_of_ok hy hprogress'
    rw [h.dealt hx hwon offset ho, h.dealt hy hwon' offset' ho'] at hsame
    have hkey := Batch.Plan.keyAt_mem ho'
    rw [← Except.ok.inj hsame] at hkey
    exact hne (h.shows.apart (h.plan hx) (h.plan hy) hwon hwon' (Batch.Plan.keyAt_mem ho) hkey)
  case holders => exact h.holder
  case moves => exact h.moves
  case unlocked =>
    intro hover
    apply Std.ExtTreeMap.ext_getElem?
    intro key
    rw [Std.ExtTreeMap.getElem?_empty, Option.eq_none_iff_forall_ne_some]
    intro id hlock
    obtain ⟨place, x, b, txn, hx, hprogress, _⟩ := h.holder hlock
    obtain ⟨result, hresult⟩ := hover x (List.mem_of_getElem? hx)
    rw [hresult] at hprogress
    cases hprogress

/-- Batches at once on one table exclude each other, in any order of their operations. -/
theorem exclusive_of_runs {before : List Event} (hq : Quiescent s₀) (hreach : s₀.Reaches before s)
    (hunlocked : ∀ key : Int64, (s.table name).locks[key]? = none)
    (hseated : ∀ place < plans.length, s.sessions[base + place]? = some ⟨name, none⟩)
    (hruns : Runs base (entered plans s) log c) :
    Exclusive name base plans (s.table name).rows log c :=
  (hruns.tracked (tracked_entered (hreach.sound hq.sound) hunlocked hseated)).exclusive

def patient : Batch.Plan := ⟨⟨2, 2, 1, .lazy, true, .unbounded⟩, 7, 0, 0⟩

/-- One row, which is the second one of `patient`, and no second attempt. -/
def hasty : Batch.Plan := ⟨⟨2, 1, 1, .lazy, false, .bounded 0⟩, 9, 0, 1⟩

/-- An empty table with two sessions on it. -/
def twoSeats : RowLocks := ⟨.insert ∅ "t" .empty, .insert (.insert ∅ 0 ⟨"t", none⟩) 1 ⟨"t", none⟩, 0, 2⟩

/-- One batch meets the lock of another one and gives up while the other one commits. -/
theorem exclusive_overlapping : ∃ (before log : List Event) (c : Contest),
    RowLocks.empty.Reaches before twoSeats ∧ Runs 0 (entered [patient, hasty] twoSeats) log c ∧
      (c.contenders.map Contender.progress =
        [.over (.ok 0), .over (.error (.failed (.gaveUp 0 1 1 1)))]) ∧
      Exclusive "t" 0 [patient, hasty] ∅ log c := by
  have hreach : RowLocks.empty.Reaches _ twoSeats :=
    .step (.step .start (show RowLocks.empty.step 0 (.openSession "t") = some _ from rfl))
      (show RowLocks.step _ 1 (.openSession "t") = some (_, twoSeats) from rfl)
  have hruns : Runs 0 (entered [patient, hasty] twoSeats) _ _ :=
    .last 0 rfl rfl rfl <| .last 0 rfl rfl rfl <| .last 0 rfl rfl rfl <| .last 1 rfl rfl rfl <|
      .last 1 rfl rfl rfl <| .part 1 rfl rfl rfl <| .last 0 rfl rfl rfl <| .part 0 rfl rfl rfl <|
      .last 1 rfl rfl rfl <| .part 0 rfl rfl rfl <| .last 0 rfl rfl rfl .start
  have hseated : ∀ place < 2, twoSeats.sessions[0 + place]? = some ⟨"t", none⟩
    | 0, _ => rfl
    | 1, _ => rfl
  exact ⟨_, _, _, hreach, hruns, rfl,
    exclusive_of_runs RowLocks.quiescent_empty hreach (fun _ => rfl) hseated hruns⟩

end InsertBench.Contest
