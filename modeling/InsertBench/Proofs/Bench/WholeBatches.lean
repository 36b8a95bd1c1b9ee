import InsertBench.Proofs.Stepwise.Hired

/-! # Whole batches, in order

At every moment of a run on tables with row locks, between any two operations, the table has gained of
each thread exactly the rows of its first batches so far: a batch appears as a whole or not at all, and
never before an earlier batch of its thread.
-/
namespace InsertBench.Bench

open Stepwise (Goes InStep inStep_of_reaches visible visibleAt_eq)

def Appeared (b : Bench) (s : RowLocks) (d : Crew RowLocks) (key : Int64) : Prop :=
  key ∈ (d.store.table b.table).rows ∧ key ∉ (s.table b.table).rows

/-- A table has gained the rows of so many first batches of each thread. -/
structure WholeBatches (b : Bench) (createdAt : Int64) (s : RowLocks) (d : Crew RowLocks)
    (batches : Nat → Nat) : Prop where
  le {thread : Nat} : thread < b.workload.crewSize → batches thread ≤ b.workload.roundCount
  rows {key : Int64} {value : Bytes} : (d.store.table b.table).rows[key]? = some value ↔
    (s.table b.table).rows[key]? = some value ∨ ∃ thread < b.workload.crewSize, ∃ round < batches thread,
      key ∈ b.workload.batchKeys thread round ∧ value = (Row.generate createdAt key).encode
  appeared {thread round : Nat} : thread < b.workload.crewSize → round < batches thread →
    ∀ key ∈ b.workload.batchKeys thread round, b.Appeared s d key
  hidden {thread round : Nat} : thread < b.workload.crewSize → round < b.workload.roundCount →
    batches thread ≤ round → ∀ key ∈ b.workload.batchKeys thread round, ¬ b.Appeared s d key
  reports {thread : Nat} {w : Worker} {tally : Tally} : d.workers[thread]? = some w →
    w.result? = some (.ok tally) →
      tally.batches.toNat = batches thread ∧ tally.rows.toNat = batches thread * b.workload.width

variable {b : Bench} {createdAt : Int64} {base : Nat} {s : RowLocks} {log : List Crew.Event}
  {d : Crew RowLocks} {todo : Nat → List RowLocks.Operation}

theorem visibleAt_of_ended {old : Rows} (h : InStep b createdAt base old ⟨d, todo⟩) {thread : Nat}
    {w : Worker} (hget : d.workers[thread]? = some w) (hstage : w.stage = .ended none) :
    w.tally.batches.toNat = Stepwise.visibleAt ⟨d, todo⟩ thread := by
  have hseated := h.seated hget
  rw [visibleAt_eq hget]
  dsimp only at hseated ⊢
  rw [hstage] at hseated ⊢
  generalize hs : d.store.sessions[base + thread]? = session at hseated
  generalize todo thread = left at hseated
  cases hseated
  rfl

theorem wholeBatches_of_inStep (h : InStep b createdAt base (s.table b.table).rows ⟨d, todo⟩) :
    b.WholeBatches createdAt s d (Stepwise.visibleAt ⟨d, todo⟩) := by
  have hrows {key : Int64} {value : Bytes} := @Stepwise.Shows.rows _ _ _ _ _ h.shows key value
  have hfirst {thread round : Nat} {key : Int64} (ht : thread < b.workload.crewSize)
      (hr : round < Stepwise.visibleAt ⟨d, todo⟩ thread) (hkey : key ∈ b.workload.batchKeys thread round) :
      key ∈ b.workload.firstKeys (Stepwise.visibleAt ⟨d, todo⟩) := by
    obtain ⟨offset, ho, rfl⟩ := Workload.mem_batchKeys.mp hkey
    exact Workload.mem_firstKeys.mpr ⟨thread, ht, round, hr, offset, ho, rfl⟩
  constructor
  case le => exact fun _ => h.visible_le _
  case rows =>
    intro key value
    rw [hrows]
    apply or_congr_right
    constructor
    · rintro ⟨hkey, rfl⟩
      obtain ⟨thread, ht, round, hr, offset, ho, rfl⟩ := Workload.mem_firstKeys.mp hkey
      exact ⟨thread, ht, round, hr, Workload.mem_batchKeys.mpr ⟨offset, ho, rfl⟩, rfl⟩
    · rintro ⟨thread, ht, round, hr, hkey, rfl⟩
      exact ⟨hfirst ht hr hkey, rfl⟩
  case appeared =>
    intro thread round ht hr key hkey
    exact ⟨h.shows.mem_iff.mpr (.inr (hfirst ht hr hkey)), h.shows.fresh (hfirst ht hr hkey)⟩
  case hidden =>
    intro thread round ht hr hle key hkey happeared
    obtain ⟨offset, ho, rfl⟩ := Workload.mem_batchKeys.mp hkey
    rcases h.shows.mem_iff.mp happeared.1 with hold | hseen
    · exact happeared.2 hold
    · obtain ⟨thread', ht', round', hr', offset', ho', he⟩ := Workload.mem_firstKeys.mp hseen
      obtain ⟨rfl, rfl, _⟩ :=
        Workload.keyAt_inj h.accepted ht' ht (hr'.trans_le (h.visible_le _)) hr ho' ho he
      omega
  case reports =>
    intro thread w tally hget hresult
    obtain ⟨hstage, rfl⟩ := Worker.result?_eq_ok_iff.mp hresult
    have hbatches := visibleAt_of_ended h hget hstage
    refine ⟨hbatches, ?_⟩
    rw [(h.workers hget).onTrack.rows, hbatches, h.workload hget]

/-- At every moment of a run, whatever becomes of it, a table has gained whole batches only, and of each
thread the first ones. -/
theorem wholeBatches_of_reaches (hw : b.workload.Accepted) (hq : s.Quiescent)
    (h : b.Reaches createdAt RowLocks.store base (Goes base) s none log d) :
    ∃ batches, b.WholeBatches createdAt s d batches := by
  obtain ⟨todo, hin⟩ := inStep_of_reaches hw hq h
  exact ⟨_, wholeBatches_of_inStep hin⟩

def twoBatches : Bench := ⟨⟨2, 1, 1, .lazy, false, .unbounded⟩, "t", false⟩

/-- The commit of the first batch is half done: its row is visible and still locked. -/
theorem wholeBatches_half_committed : ∃ (log : List Crew.Event) (d : Crew RowLocks),
    twoBatches.Reaches 0 RowLocks.store 0 (Goes 0) (RowLocks.holding "t" (.insert ∅ 7 [1])) none log d ∧
      (d.store.table "t").locks[(0 : Int64)]? = some 0 ∧
      (d.store.table "t").rows[(0 : Int64)]?.isSome = true ∧
      ∃ batches, twoBatches.WholeBatches 0 (RowLocks.holding "t" (.insert ∅ 7 [1])) d batches := by
  have hw : twoBatches.workload.Accepted := by decide
  have hruns : Stepwise.Runs 0 ⟨⟨RowLocks.holding "t" (.insert ∅ 7 [1]), false,
      [.new (twoBatches.post 0 0)]⟩, fun _ => []⟩ _ _ :=
    .last 0 rfl rfl rfl rfl <| .other 0 0 rfl nofun <| .other 0 0 rfl nofun <| .last 0 rfl rfl rfl rfl <|
      .last 0 rfl rfl rfl rfl <| .part 0 rfl rfl rfl rfl <| .done _
  have hreaches : twoBatches.Reaches 0 RowLocks.store 0 (Goes 0) _ none _ _ := .hired rfl ⟨_, hruns⟩
  exact ⟨_, _, hreaches, rfl, rfl, wholeBatches_of_reaches hw (RowLocks.quiescent_holding _ _) hreaches⟩

end InsertBench.Bench
