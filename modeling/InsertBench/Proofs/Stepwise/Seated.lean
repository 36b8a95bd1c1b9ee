import InsertBench.Proofs.RowLocks.Effect
import InsertBench.Proofs.Stepwise.Basic
import InsertBench.Proofs.Worker.OnTrack

/-! # Workers at their seats

On tables with row locks the session at the seat of a worker is determined by how far the worker has
come: its transaction holds the rows of the running batch so far, and nothing else. A worker can fail
in one way only, by a key that was in the table before the run, and that key is the least of its share.
-/
namespace InsertBench

def Workload.Deals (w : Workload) (thread : Nat) (key : Int64) : Prop :=
  ∃ round < w.roundCount, ∃ offset < w.width, w.keyAt thread round offset = key

namespace Post

def row (p : Post) (key : Int64) : Bytes := (Row.generate p.createdAt key).encode

/-- The rows of a round before an offset, latest first. -/
def written (p : Post) (round offset : Nat) : List (Int64 × Bytes) :=
  ((List.range offset).map fun o =>
    (p.workload.keyAt p.id.toNat round o, p.row (p.workload.keyAt p.id.toNat round o))).reverse

theorem written_succ (p : Post) (round offset : Nat) : p.written round (offset + 1) =
    (p.workload.keyAt p.id.toNat round offset, p.row (p.workload.keyAt p.id.toNat round offset)) ::
      p.written round offset := by
  simp [written, List.range_succ]

theorem mem_written {p : Post} {round offset : Nat} {key : Int64} {value : Bytes} :
    (key, value) ∈ p.written round offset ↔
      (∃ o < offset, p.workload.keyAt p.id.toNat round o = key) ∧ value = p.row key := by
  simp only [written, List.mem_reverse, List.mem_map, List.mem_range, Prod.mk.injEq]
  constructor
  · rintro ⟨o, ho, rfl, rfl⟩
    exact ⟨⟨o, ho, rfl⟩, rfl⟩
  · rintro ⟨⟨o, ho, rfl⟩, rfl⟩
    exact ⟨o, ho, rfl, rfl⟩

theorem mem_keys_written {p : Post} {round offset : Nat} {key : Int64} :
    key ∈ (p.written round offset).map Prod.fst ↔
      ∃ o < offset, p.workload.keyAt p.id.toNat round o = key := by
  constructor
  · intro hkey
    obtain ⟨⟨_, value⟩, hmem, rfl⟩ := List.mem_map.mp hkey
    exact (mem_written.mp hmem).1
  · intro hkey
    exact List.mem_map_of_mem (mem_written.mpr ⟨hkey, rfl⟩)

end Post

namespace Stepwise

open RowLocks (Session Txn Operation Effect Declined)
open Worker (Moves)

/-- A key that was in the table before the run, and the least such key that is dealt to a worker. -/
structure Blame (old : Rows) (p : Post) (key : Int64) : Prop where
  dealt : p.workload.Deals p.id.toNat key
  held : key ∈ old
  least {other : Int64} : p.workload.Deals p.id.toNat other → other ∈ old → key ≤ other

def duplicate (key : Int64) : Failure := .during (.insertKey key) (.duplicateKey key)

def inTxn (p : Post) (txn : Txn) : Option Session := some ⟨p.table, some txn⟩
def idle (p : Post) : Option Session := some ⟨p.table, none⟩

/-- What the session of a worker is, and which operations are left of its call, by its stage. -/
inductive Seated (old : Rows) (p : Post) : Option Session → List Operation → Worker.Stage → Prop
  | opening : Seated old p none [] .opening
  | polling {round : Nat} : Seated old p (idle p) [] (.polling round)
  | clocking {round : Nat} : Seated old p (idle p) [] (.starting round)
  | starting {round : Nat} {since : UInt64} :
      Seated old p (idle p) [] (.running round since ⟨0, .starting⟩)
  | writing {round offset : Nat} {since id : UInt64} {key : Int64} :
      Seated old p (inTxn p ⟨id, p.written round offset, false, .live⟩) []
        (.running round since ⟨0, .writing offset key⟩)
  | preparing {round : Nat} {since id name : UInt64} :
      Seated old p (inTxn p ⟨id, p.written round p.workload.width, false, .live⟩) []
        (.running round since ⟨0, .preparing name⟩)
  | committing {round : Nat} {since id : UInt64} {prepared : Bool} :
      Seated old p (inTxn p ⟨id, p.written round p.workload.width, prepared, .live⟩) []
        (.running round since ⟨0, .committing⟩)
  | applied {round : Nat} {since id : UInt64} {prepared : Bool} :
      Seated old p (inTxn p ⟨id, p.written round p.workload.width, prepared, .applied⟩)
        [.releaseLocks, .dropTxn] (.running round since ⟨0, .committing⟩)
  | released {round : Nat} {since id : UInt64} {prepared : Bool} :
      Seated old p (inTxn p ⟨id, [], prepared, .released⟩) [.dropTxn]
        (.running round since ⟨0, .committing⟩)
  | rollingBack {round offset : Nat} {since id : UInt64} {key : Int64} (blame : Blame old p key)
      (inside : offset < p.workload.width) :
      Seated old p (inTxn p ⟨id, p.written round offset, false, .live⟩) []
        (.running round since ⟨0, .rollingBack (.failed (duplicate key))⟩)
  | stopping {round : Nat} {since : UInt64} : Seated old p (idle p) [] (.stopping round since 0)
  | closing : Seated old p (idle p) [] .closing
  | releasing {key : Int64} (blame : Blame old p key) :
      Seated old p (idle p) [] (.releasing (.failed (.during (.work p.id) (duplicate key))))
  | raising {key : Int64} (blame : Blame old p key) :
      Seated old p none [] (.raising (.during (.work p.id) (duplicate key)))
  | done : Seated old p none [] (.ended none)
  | failed {key : Int64} (blame : Blame old p key) :
      Seated old p none [] (.ended (some (.failed (.during (.work p.id) (duplicate key)))))

/-- The number of batches of a worker that are visible. -/
def visible (t : Tally) (todo : List Operation) : Worker.Stage → Nat
  | .stopping .. => t.batches.toNat + 1
  | _ => if todo = [] then t.batches.toNat else t.batches.toNat + 1

variable {old : Rows} {p : Post} {w v : Worker} {s : RowLocks} {seat : Nat} {session : Option Session}
  {todo : List Operation} {name : String} {table : RowLocks.Table}

theorem Seated.deals (h : Seated old w.post session todo w.stage) (hon : w.OnTrack) {txn : Txn}
    (hs : session = some ⟨name, some txn⟩) {key : Int64} (hkey : key ∈ txn.keys) :
    w.post.workload.Deals w.post.id.toNat key := by
  have hstage := hon.stage
  have hwritten {round offset : Nat} (hr : round < w.post.workload.roundCount)
      (ho : offset ≤ w.post.workload.width) (hmem : key ∈ (w.post.written round offset).map Prod.fst) :
      w.post.workload.Deals w.post.id.toNat key := by
    obtain ⟨o, hlt, he⟩ := Post.mem_keys_written.mp hmem
    exact ⟨round, hr, o, hlt.trans_le ho, he⟩
  generalize hw : w.stage = stage at h hstage
  cases h with
  | writing =>
    cases hs
    exact hwritten hstage.1 hstage.2.2.1.le hkey
  | preparing =>
    cases hs
    exact hwritten hstage.1 (Nat.le_refl _) hkey
  | committing =>
    cases hs
    exact hwritten hstage.1 (Nat.le_refl _) hkey
  | applied =>
    cases hs
    exact hwritten hstage.1 (Nat.le_refl _) hkey
  | released =>
    cases hs
    simp [Txn.keys] at hkey
  | rollingBack _ inside =>
    cases hs
    exact hwritten hstage.1 inside.le hkey
  | _ => cases hs

theorem Seated.ended {stop : Option Stop} (h : Seated old p session todo (.ended stop)) : stop = none ∨
    ∃ key, Blame old p key ∧ stop = some (.failed (.during (.work p.id) (duplicate key))) := by
  cases h with
  | done => exact .inl rfl
  | failed blame => exact .inr ⟨_, blame, rfl⟩

theorem seated_phaseAt (hfit : w.post.Fit) {round offset : Nat} (hr : round < w.post.workload.roundCount)
    (ho : offset ≤ w.post.workload.width) {since id : UInt64} :
    Seated old w.post (inTxn w.post ⟨id, w.post.written round offset, false, .live⟩) []
      (.running round since ⟨0, (w.plan round).phaseAt offset⟩) := by
  rw [(Worker.plan_fit hfit hr).keyed.phaseAt_eq]
  split
  · exact .writing
  · rename_i hlast
    obtain rfl : offset = w.post.workload.width := Nat.le_antisymm ho (Nat.not_lt.mp hlast)
    split
    · exact .preparing
    · exact .committing

theorem seated_goOn (hfit : w.post.Fit) (round : Nat) :
    Seated old w.post (idle w.post) [] (w.goOn round).stage := by
  rw [Worker.goOn_eq hfit]
  dsimp only [Worker.moveTo]
  split
  · exact .polling
  · exact .closing

theorem visible_goOn (hfit : w.post.Fit) (round : Nat) :
    visible (w.goOn round).tally [] (w.goOn round).stage = w.tally.batches.toNat := by
  rw [Worker.goOn_eq hfit]
  dsimp only [Worker.moveTo]
  split <;> rfl

/-- A worker has gone on: its session is left as it should be, and no more and no fewer rows than before
are visible. -/
structure Settled (old : Rows) (s : RowLocks) (w : Worker) (todo : List Operation)
    (session : Option Session) (name : String) (table : RowLocks.Table) (v : Worker)
    (left : List Operation) : Prop where
  here : name = w.post.table
  rows : table.rows = (s.table name).rows
  seated : Seated old w.post session left v.stage
  conflicts : v.tally.conflicts = w.tally.conflicts
  visible : visible v.tally left v.stage = visible w.tally todo w.stage

/-- The key that a worker is about to insert is locked by nobody, and it is to blame if it is there. -/
def Clear (old : Rows) (p : Post) (table : RowLocks.Table) (stage : Worker.Stage) : Prop :=
  ∀ {round offset : Nat} {since conflicts : UInt64} {key : Int64},
    stage = .running round since ⟨conflicts, .writing offset key⟩ →
      table.locks[key]? = none ∧ (key ∈ table.rows → Blame old p key)

theorem Seated.last (h : Seated old w.post s.sessions[seat]? todo w.stage) (hon : w.OnTrack)
    (hclear : Clear old w.post (s.table w.post.table) w.stage) {place : Nat} {request : Request}
    {op : Operation} {reply : Reply} (hm : Moves w (.call place request reply) v)
    (hleft : ahead todo request = [op]) (he : Effect s seat op reply session name table) :
    Settled old s w todo session name table v [] := by
  have hfit := hon.fit
  have hstage := hon.stage
  generalize hs : s.sessions[seat]? = found at h
  -- the stage tells the session, and with it which effects and which replies are left
  cases hm with
  | redone stage _ | gaveUp stage | left stage =>
    rw [stage] at h
    cases h
  | openFailed stage | beginFailed stage | closeFailed stage =>
    rw [stage] at h
    cases h
    cases hleft
    cases he
  | opened stage =>
    rw [stage] at h
    cases h
    cases hleft
    cases he with
    | opened free =>
      refine ⟨rfl, rfl, seated_goOn hfit 0, ?_, ?_⟩
      · rw [Worker.goOn_eq hfit]
        rfl
      · rw [visible_goOn hfit, stage]
        rfl
  | begun stage =>
    rw [stage] at h hstage
    cases h
    cases hleft
    cases he with
    | begun here =>
      rw [hs] at here
      cases here
      have hseated := @seated_phaseAt old w hfit _ 0 hstage.1 (Nat.zero_le _)
      exact ⟨rfl, rfl, hseated, rfl, by rw [stage]; rfl⟩
  | inserted stage =>
    rw [stage] at h hstage
    obtain ⟨hr, _, ho, rfl⟩ := hstage
    cases h
    cases hleft
    cases he with
    | inserted here =>
      rw [hs] at here
      cases here
      refine ⟨rfl, rfl, ?_, rfl, by rw [stage]; rfl⟩
      have hseated := @seated_phaseAt old w hfit _ _ hr ho
      rw [Post.written_succ, ← Worker.plan_keyAt hr] at hseated
      exact hseated
    | declined _ _ why => cases why
  | lockedOut stage =>
    have hfree := hclear stage
    rw [stage] at h
    cases h
    cases hleft
    cases he with
    | declined here _ why =>
      rw [hs] at here
      cases here
      cases why with
      | lockedOut _ locked _ =>
        rw [hfree.1] at locked
        cases locked
  | insertFailed stage =>
    have hfree := hclear stage
    rw [stage] at h hstage
    cases h
    cases hleft
    cases he with
    | declined here _ why =>
      rw [hs] at here
      cases here
      cases why with
      | afterPrepare prepared => cases prepared
      | twice _ locked =>
        rw [hfree.1] at locked
        cases locked
      | present _ _ committed =>
        exact ⟨rfl, rfl, .rollingBack (hfree.2 committed) hstage.2.2.1, rfl, by rw [stage]; rfl⟩
  | prepared stage =>
    rw [stage] at h
    cases h
    cases hleft
    cases he with
    | prepared here =>
      rw [hs] at here
      cases here
      exact ⟨rfl, rfl, .committing, rfl, by rw [stage]; rfl⟩
  | prepareFailed stage =>
    rw [stage] at h
    cases h
    cases hleft
    cases he with
    | preparedBefore here _ prepared =>
      rw [hs] at here
      cases here
      cases prepared
  | committed stage =>
    rw [stage] at h
    cases h with
    | committing => cases hleft
    | applied => cases hleft
    | released =>
      cases hleft
      cases he with
      | dropped here =>
        rw [hs] at here
        cases here
        exact ⟨rfl, rfl, .stopping, rfl, by rw [stage]; rfl⟩
  | commitFailed stage =>
    rw [stage] at h
    cases h with
    | committing => cases hleft
    | applied => cases hleft
    | released =>
      cases hleft
      cases he
  | rolledBack stage =>
    rw [stage] at h
    cases h with
    | rollingBack blame =>
      cases hleft
      cases he with
      | dropped here =>
        rw [hs] at here
        cases here
        exact ⟨rfl, rfl, .releasing blame, rfl, by rw [stage]; rfl⟩
  | closed stage =>
    rw [stage] at h
    cases h
    cases hleft
    cases he with
    | closed here =>
      rw [hs] at here
      cases here
      exact ⟨rfl, rfl, .done, rfl, by rw [stage]; rfl⟩
  | released stage =>
    rw [stage] at h
    cases h with
    | releasing blame =>
      cases hleft
      cases he with
      | closed here =>
        rw [hs] at here
        cases here
        exact ⟨rfl, rfl, .raising blame, rfl, by rw [stage]; rfl⟩

theorem Seated.other (h : Seated old w.post session todo w.stage) (hon : w.OnTrack)
    (hcalm : w.tally.conflicts = 0) {event : Crew.Event} (hm : Moves w event v)
    (hquiet : ∀ request, event.action ≠ .call request) :
    Seated old w.post session todo v.stage ∧ v.tally.conflicts = 0 ∧
      visible v.tally todo v.stage = visible w.tally todo w.stage := by
  have hstage := hon.stage
  cases hm with
  | carriedOn stage =>
    rw [stage] at h
    cases h
    exact ⟨.clocking, hcalm, by rw [stage]; rfl⟩
  | halted stage =>
    rw [stage] at h
    cases h
    exact ⟨.closing, hcalm, by rw [stage]; rfl⟩
  | started stage =>
    rw [stage] at h
    cases h
    exact ⟨.starting, hcalm, by rw [stage]; rfl⟩
  | counted stage added =>
    rw [stage] at h
    cases h
    rename_i tally
    obtain ⟨_, _, hbatches, hconflicts, _⟩ := Worker.addBatch_eq_ok added
    rw [hcalm] at hconflicts
    refine ⟨seated_goOn (w := { w with tally }) hon.fit _, ?_, ?_⟩
    · rw [Worker.goOn_eq (w := { w with tally }) hon.fit]
      exact UInt64.toNat_inj.mp hconflicts
    · rw [visible_goOn (w := { w with tally }) hon.fit, stage]
      exact hbatches
  | uncounted stage overflow =>
    rw [stage] at h hstage
    cases h
    have hnone : w.tally.conflicts.toNat + (0 : UInt64).toNat < UInt64.size := by rw [hcalm]; decide
    obtain ⟨_, hok⟩ := hon.addBatch_ok (by rw [hstage.2]; exact hstage.1) hnone _
    rw [hok] at overflow
    cases overflow
  | raised stage =>
    rw [stage] at h
    cases h with
    | raising blame => exact ⟨.failed blame, hcalm, by rw [stage]; rfl⟩
  | _ => exact absurd rfl (hquiet _)

/-- What an operation does that is not the last one of its call: it applies the rows of a batch, or else
it leaves the rows alone. -/
inductive Halfway (old : Rows) (s : RowLocks) (w : Worker) (seat : Nat) (session : Option Session)
    (table : RowLocks.Table) : List Operation → List Operation → Prop
  | apply {id : UInt64} {prepared : Bool}
      (here : s.sessions[seat]? =
        inTxn w.post ⟨id, w.post.written w.tally.batches.toNat w.post.workload.width, prepared, .live⟩)
      (rows : table.rows = RowLocks.withWrites (s.table w.post.table).rows
        (w.post.written w.tally.batches.toNat w.post.workload.width))
      (seated : Seated old w.post session [.releaseLocks, .dropTxn] w.stage)
      (before : visible w.tally [] w.stage = w.tally.batches.toNat)
      (after : visible w.tally [.releaseLocks, .dropTxn] w.stage = w.tally.batches.toNat + 1) :
      Halfway old s w seat session table [] [.releaseLocks, .dropTxn]
  | release (rows : table.rows = (s.table w.post.table).rows)
      (seated : Seated old w.post session [.dropTxn] w.stage)
      (visible : visible w.tally [.dropTxn] w.stage = visible w.tally [.releaseLocks, .dropTxn] w.stage) :
      Halfway old s w seat session table [.releaseLocks, .dropTxn] [.dropTxn]

theorem Seated.part (h : Seated old w.post s.sessions[seat]? todo w.stage) (hon : w.OnTrack)
    {request : Request} (hn : w.next = some (.call request)) {op next : Operation} {rest : List Operation}
    {reply : Reply} (hleft : ahead todo request = op :: next :: rest)
    (he : Effect s seat op reply session name table) :
    name = w.post.table ∧ Halfway old s w seat session table todo (next :: rest) := by
  have hstage := hon.stage
  generalize hs : s.sessions[seat]? = found at h
  generalize stage : w.stage = now at h hstage
  cases h with
  | committing =>
    simp only [Worker.next, stage, Option.some.injEq, Worker.Action.call.injEq] at hn
    subst hn
    cases hleft
    obtain ⟨_, rfl, _⟩ := hstage
    cases he with
    | applied here =>
      rw [hs] at here
      cases here
      exact ⟨rfl, .apply hs rfl (by rw [stage]; exact .applied) (by rw [stage]; rfl) (by rw [stage]; rfl)⟩
  | applied =>
    cases hleft
    cases he with
    | released here =>
      rw [hs] at here
      cases here
      exact ⟨rfl, .release rfl (by rw [stage]; exact .released) (by rw [stage]; rfl)⟩
  | released => cases hleft
  | polling | clocking | stopping | raising | done | failed => simp [Worker.next, stage] at hn
  | _ =>
    simp only [Worker.next, stage, Option.some.injEq, Worker.Action.call.injEq] at hn
    subst hn
    cases hleft

end Stepwise

end InsertBench
