import InsertBench.Proofs.Batch.Rows
import InsertBench.Proofs.Contest.Basic

/-! # What a batch holds

How far a batch has come tells what its session holds: which rows its transaction has written, and whether
they are visible. A batch can commit only with all its rows, and it can end only with its transaction let
go of.
-/
namespace InsertBench

/-- The first offsets of a batch are dealt their keys. -/
def Batch.Plan.Dealt (p : Plan) (offset : Nat) : Prop := ∀ o < offset, p.key o = .ok (p.keyAt o)

theorem Batch.Plan.Dealt.mem_rows {p : Plan} (h : p.Dealt p.workload.width) {key : Int64} {value : Bytes} :
    (key, value) ∈ p.rows ↔ ∃ offset < p.workload.width, p.key offset = .ok key ∧ p.value key = value := by
  rw [Plan.mem_rows]
  refine exists_congr fun offset => and_congr_right fun ho => ?_
  rw [h offset ho]
  constructor
  · intro hrow
    cases hrow
    exact ⟨rfl, rfl⟩
  · rintro ⟨hkey, rfl⟩
    cases hkey
    rfl

namespace Contest

open RowLocks (Session Txn Operation Effect Table withWrites)
open Stepwise (ahead)

/-- The session of a batch on a table, by the operations that are left of its call and by how far it has
come, and how often its rows were made visible. -/
inductive Holds (name : String) (p : Batch.Plan) :
    Option Session → List Operation → Batch.Progress → Nat → Prop
  | starting {conflicts : UInt64} :
      Holds name p (some ⟨name, none⟩) [] (.more ⟨conflicts, .starting⟩) 0
  | writing {conflicts id : UInt64} {offset : Nat} (inside : offset < p.workload.width)
      (dealt : p.Dealt (offset + 1)) :
      Holds name p (some ⟨name, some ⟨id, (p.rows.take offset).reverse, false, .live⟩⟩) []
        (.more ⟨conflicts, .writing offset (p.keyAt offset)⟩) 0
  | backingOut {conflicts id : UInt64} {key : Int64} {writes : List (Int64 × Bytes)} :
      Holds name p (some ⟨name, some ⟨id, writes, false, .live⟩⟩) [] (.more ⟨conflicts, .backingOut key⟩) 0
  | backedOut {conflicts id : UInt64} {key : Int64} :
      Holds name p (some ⟨name, some ⟨id, [], false, .released⟩⟩) [.dropTxn]
        (.more ⟨conflicts, .backingOut key⟩) 0
  | preparing {conflicts id mark : UInt64} (dealt : p.Dealt p.workload.width) :
      Holds name p (some ⟨name, some ⟨id, p.rows.reverse, false, .live⟩⟩) []
        (.more ⟨conflicts, .preparing mark⟩) 0
  | committing {conflicts id : UInt64} {prepared : Bool} (dealt : p.Dealt p.workload.width) :
      Holds name p (some ⟨name, some ⟨id, p.rows.reverse, prepared, .live⟩⟩) []
        (.more ⟨conflicts, .committing⟩) 0
  | applied {conflicts id : UInt64} {prepared : Bool} (dealt : p.Dealt p.workload.width) :
      Holds name p (some ⟨name, some ⟨id, p.rows.reverse, prepared, .applied⟩⟩) [.releaseLocks, .dropTxn]
        (.more ⟨conflicts, .committing⟩) 1
  | released {conflicts id : UInt64} {prepared : Bool} (dealt : p.Dealt p.workload.width) :
      Holds name p (some ⟨name, some ⟨id, [], prepared, .released⟩⟩) [.dropTxn]
        (.more ⟨conflicts, .committing⟩) 1
  | rollingBack {conflicts id : UInt64} {writes : List (Int64 × Bytes)} {why : Stop} :
      Holds name p (some ⟨name, some ⟨id, writes, false, .live⟩⟩) [] (.more ⟨conflicts, .rollingBack why⟩) 0
  | committed {conflicts : UInt64} (dealt : p.Dealt p.workload.width) :
      Holds name p (some ⟨name, none⟩) [] (.over (.ok conflicts)) 1
  | stopped {stop : Stop} : Holds name p (some ⟨name, none⟩) [] (.over (.error stop)) 0

variable {name other : String} {p : Batch.Plan} {s : RowLocks} {seat : Nat} {b : Batch} {op : Operation}
  {reply : Reply} {session : Option Session} {table : Table} {todo : List Operation}
  {progress : Batch.Progress} {applies : Nat}

theorem Holds.dealt (h : Holds name p session todo progress 1) : p.Dealt p.workload.width := by
  cases h with
  | applied dealt | released dealt | committed dealt => exact dealt

theorem Holds.idle {result : Except Stop UInt64} (h : Holds name p session todo (.over result) applies) :
    session = some ⟨name, none⟩ := by
  cases h <;> rfl

theorem Holds.of_ok {conflicts : UInt64} (h : Holds name p session todo (.over (.ok conflicts)) applies) :
    applies = 1 := by
  cases h
  rfl

theorem Holds.of_error {stop : Stop} (h : Holds name p session todo (.over (.error stop)) applies) :
    applies = 0 := by
  cases h
  rfl

/-- Once so many rows are written, the next one comes, or else the end of the transaction. -/
theorem holds_phaseAt {offset : Nat} (hdealt : p.Dealt offset) (ho : offset ≤ p.workload.width)
    (conflicts id : UInt64) :
    Holds name p (some ⟨name, some ⟨id, (p.rows.take offset).reverse, false, .live⟩⟩) []
      (.more ⟨conflicts, p.phaseAt offset⟩) 0 := by
  unfold Batch.Plan.phaseAt
  split
  · rename_i hlt
    split
    · rename_i key hkey
      obtain rfl := Batch.Plan.key_of_ok hlt hkey
      refine .writing hlt fun o ho => ?_
      rcases Nat.lt_succ_iff_lt_or_eq.mp ho with ho | rfl
      · exact hdealt o ho
      · exact hkey
    · exact .rollingBack
  · rename_i hlast
    obtain rfl : offset = p.workload.width := Nat.le_antisymm ho (Nat.not_lt.mp hlast)
    rw [List.take_of_length_le (Nat.le_of_eq Batch.Plan.length_rows)]
    split
    · split
      · exact .preparing hdealt
      · exact .rollingBack
    · exact .committing hdealt

theorem holds_redo (conflicts : UInt64) (key : Int64) :
    Holds name p (some ⟨name, none⟩) [] (Batch.redo p ⟨conflicts, .backingOut key⟩ key) 0 := by
  rcases Batch.redo_cases p ⟨conflicts, .backingOut key⟩ key with
    ⟨_, _, _, hredo⟩ | ⟨_, _, _, hredo⟩ | ⟨_, hredo⟩ <;> rw [hredo]
  · exact .starting
  · exact .stopped
  · exact .stopped

/-- The last operation of a call leaves the rows alone, and the batch with what it should hold. -/
theorem Holds.last (h : Holds name p s.sessions[seat]? todo (.more b) applies)
    (hleft : ahead todo (b.next p) = [op]) (he : Effect s seat op reply session other table) :
    other = name ∧ op ≠ .applyWrites ∧ table.rows = (s.table name).rows ∧
      Holds name p session [] (b.answer p reply) applies := by
  generalize hs : s.sessions[seat]? = found at h
  cases h with
  | starting =>
    cases hleft
    cases he with
    | begun here =>
      rw [hs] at here
      cases here
      exact ⟨rfl, by simp, rfl, holds_phaseAt (fun o ho => absurd ho (Nat.not_lt_zero o)) (Nat.zero_le _) _ _⟩
  | @writing _ _ offset inside dealt =>
    cases hleft
    cases he with
    | inserted here =>
      rw [hs] at here
      cases here
      refine ⟨rfl, by simp, rfl, ?_⟩
      show Holds _ p (some ⟨_, some ⟨_, p.row offset :: _, _, _⟩⟩) _ _ _
      rw [← Batch.Plan.reverse_take_rows inside]
      exact holds_phaseAt dealt inside _ _
    | declined here _ why =>
      rw [hs] at here
      cases here
      cases why with
      | afterPrepare prepared => cases prepared
      | lockedOut => exact ⟨rfl, by simp, rfl, .backingOut⟩
      | twice | present => exact ⟨rfl, by simp, rfl, .rollingBack⟩
  | backedOut =>
    cases hleft
    cases he with
    | dropped here =>
      rw [hs] at here
      cases here
      exact ⟨rfl, by simp, rfl, holds_redo _ _⟩
  | preparing dealt =>
    cases hleft
    cases he with
    | prepared here =>
      rw [hs] at here
      cases here
      exact ⟨rfl, by simp, rfl, .committing dealt⟩
    | preparedBefore here _ prepared =>
      rw [hs] at here
      cases here
      cases prepared
  | released dealt =>
    cases hleft
    cases he with
    | dropped here =>
      rw [hs] at here
      cases here
      exact ⟨rfl, by simp, rfl, .committed dealt⟩
  | rollingBack =>
    cases hleft
    cases he with
    | dropped here =>
      rw [hs] at here
      cases here
      exact ⟨rfl, by simp, rfl, .stopped⟩
  | backingOut | committing _ | applied _ => cases hleft

/-- What an operation does that is not the last one of its call: it makes the rows of a batch visible, or
else it leaves the rows alone. -/
inductive Halfway (name : String) (p : Batch.Plan) (s : RowLocks) (seat : Nat) (b : Batch)
    (session : Option Session) (table : Table) : Nat → Operation → List Operation → Prop
  | apply {id : UInt64} {prepared : Bool} {rest : List Operation}
      (here : s.sessions[seat]? = some ⟨name, some ⟨id, p.rows.reverse, prepared, .live⟩⟩)
      (rows : table.rows = withWrites (s.table name).rows p.rows.reverse)
      (holds : Holds name p session rest (.more b) 1) :
      Halfway name p s seat b session table 0 .applyWrites rest
  | release {rest : List Operation} {applies : Nat} (rows : table.rows = (s.table name).rows)
      (holds : Holds name p session rest (.more b) applies) :
      Halfway name p s seat b session table applies .releaseLocks rest

theorem Holds.part (h : Holds name p s.sessions[seat]? todo (.more b) applies) {next : Operation}
    {rest : List Operation} (hleft : ahead todo (b.next p) = op :: next :: rest)
    (he : Effect s seat op reply session other table) :
    other = name ∧ Halfway name p s seat b session table applies op (next :: rest) := by
  generalize hs : s.sessions[seat]? = found at h
  cases h with
  | committing dealt =>
    cases hleft
    cases he with
    | applied here =>
      rw [hs] at here
      cases here
      exact ⟨rfl, .apply hs rfl (.applied dealt)⟩
  | applied dealt =>
    cases hleft
    cases he with
    | released here =>
      rw [hs] at here
      cases here
      exact ⟨rfl, .release rfl (.released dealt)⟩
  | backingOut =>
    cases hleft
    cases he with
    | released here =>
      rw [hs] at here
      cases here
      exact ⟨rfl, .release rfl .backedOut⟩
  | starting | writing _ _ | backedOut | preparing _ | released _ | rollingBack => cases hleft

/-- No batch ever waits for another one: its next operation is answered. -/
theorem Holds.acts (h : Holds name p s.sessions[seat]? todo (.more b) applies) :
    ∃ op rest, ahead todo (b.next p) = op :: rest ∧ (s.step seat op).isSome = true := by
  generalize hs : s.sessions[seat]? = found at h
  cases h with
  | starting => exact ⟨.beginTxn, _, rfl, by simp [RowLocks.step, RowLocks.beginTxn, hs]⟩
  | writing => exact ⟨_, _, rfl, RowLocks.isSome_insert hs rfl _ _⟩
  | preparing =>
    exact ⟨.prepare, _, rfl, by simp [RowLocks.step, RowLocks.prepare, RowLocks.txn?_eq_some hs]⟩
  | committing =>
    exact ⟨.applyWrites, _, rfl, by simp [RowLocks.step, RowLocks.applyWrites, RowLocks.txn?_eq_some hs]⟩
  | backingOut | applied =>
    exact ⟨.releaseLocks, _, rfl, by simp [RowLocks.step, RowLocks.releaseLocks, RowLocks.txn?_eq_some hs]⟩
  | backedOut | released | rollingBack =>
    exact ⟨.dropTxn, _, rfl, by simp [RowLocks.step, RowLocks.dropTxn, RowLocks.txn?_eq_some hs]⟩

end Contest

end InsertBench
