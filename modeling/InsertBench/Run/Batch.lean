import InsertBench.Row.Codec
import InsertBench.Row.Generate
import InsertBench.Store.Contract
import InsertBench.Workload.Basic

/-! # Batches

A batch inserts its rows in one transaction. A conflict rolls the transaction back and redoes it from
the first row with the same keys, as often as the retry policy allows; whatever else fails ends the
batch. A batch is a machine that makes one call after another, and `answer` says how it goes on after
a reply. However a store replies, it ends: `answer_decreases`.
-/
namespace InsertBench

/-- What a batch inserts: the rows of a thread in a round. -/
structure Batch.Plan where
  workload : Workload
  createdAt : Int64
  thread : UInt64
  round : UInt64
deriving DecidableEq

inductive Batch.Phase
  | starting
  /-- Before the insert at an offset, with its key. -/
  | writing (offset : Nat) (key : Int64)
  /-- After a conflict on a key. -/
  | backingOut (key : Int64)
  | preparing (id : UInt64)
  | committing
  /-- Letting go of the transaction before ending for a reason. -/
  | rollingBack (why : Stop)
deriving DecidableEq

structure Batch where
  /-- Attempts that were rolled back on a conflict. -/
  conflicts : UInt64
  phase : Batch.Phase
deriving DecidableEq

namespace Batch

def start : Batch := ⟨0, .starting⟩

namespace Plan

def key (p : Plan) (offset : Nat) : Except Fault Int64 :=
  p.workload.partition.key p.thread p.round offset.toUInt64

def value (p : Plan) (key : Int64) : Bytes := (Row.generate p.createdAt key).encode

/-- What comes after the row at an offset is inserted, or after the begin for offset zero: the next row,
or else the commit. The first key of a batch is unique in a run and names it when it is prepared. -/
def phaseAt (p : Plan) (offset : Nat) : Phase :=
  if offset < p.workload.rowsPerTxn.toNat then
    match p.key offset with
    | .ok key => .writing offset key
    | .error how => .rollingBack (.crashed how)
  else if p.workload.twoPhase then
    match p.key 0 with
    | .ok key => .preparing key.toUInt64
    | .error how => .rollingBack (.crashed how)
  else .committing

end Plan

def next (p : Plan) (b : Batch) : Request :=
  match b.phase with
  | .starting => .beginTxn
  | .writing _ key => .insert key (p.value key)
  | .backingOut _ => .abort
  | .preparing id => .prepare id
  | .committing => .commit
  | .rollingBack _ => .dropTxn

/-- The next call as it is made, and the buffer after it. All rows that go through a buffer are written
into it one after another, so each insert finds what the last row left there. -/
def ask (p : Plan) (b : Batch) (buffer : Bytes) : Request × Bytes :=
  match b.phase with
  | .writing _ key =>
    let buffer := (Row.generate p.createdAt key).encodeInto buffer
    (.insert key buffer, buffer)
  | _ => (b.next p, buffer)

/-- What is left in the buffer does not show in any call. -/
@[simp] theorem ask_fst (p : Plan) (b : Batch) (buffer : Bytes) : (b.ask p buffer).1 = b.next p := by
  unfold ask
  split
  · rename_i offset key hphase
    rw [Row.encodeInto_eq_encode]
    simp only [next, hphase, Plan.value]
  · rfl

inductive Progress
  | more (b : Batch)
  /-- The batch committed after so many conflicts, or stopped. -/
  | over (result : Except Stop UInt64)

/-- After a rollback: the conflict is counted, and the batch starts again if that is allowed. -/
def redo (p : Plan) (b : Batch) (key : Int64) : Progress :=
  match Word.add b.conflicts 1 with
  | .error how => .over (.error (.crashed how))
  | .ok conflicts =>
    if p.workload.retry.allows conflicts then .more ⟨conflicts, .starting⟩
    else .over (.error (.failed (.gaveUp p.thread p.round conflicts key)))

def answer (p : Plan) (b : Batch) (reply : Reply) : Progress :=
  match b.phase, reply with
  | .starting, .ok _ => .more { b with phase := p.phaseAt 0 }
  | .starting, .error stop => .over (.error (stop.during .beginTxn))
  | .writing offset _, .ok .accepted => .more { b with phase := p.phaseAt (offset + 1) }
  | .writing _ key, .ok .conflict => .more { b with phase := .backingOut key }
  | .writing _ key, .error stop => .more { b with phase := .rollingBack (stop.during (.insertKey key)) }
  | .backingOut key, .ok _ => b.redo p key
  | .backingOut _, .error stop => .over (.error (stop.during .abortTxn))
  | .preparing _, .ok _ => .more { b with phase := .committing }
  | .preparing _, .error stop => .more { b with phase := .rollingBack (stop.during .prepareTxn) }
  | .committing, .ok _ => .over (.ok b.conflicts)
  | .committing, .error stop => .over (.error (stop.during .commitTxn))
  | .rollingBack why, _ => .over (.error why)

/-- Conflicts that can still be counted. -/
def patience (b : Batch) : Nat := UInt64.size - b.conflicts.toNat

/-- A bound for the calls that are left in an attempt. -/
def callsLeft (p : Plan) (b : Batch) : Nat :=
  match b.phase with
  | .starting => p.workload.rowsPerTxn.toNat + 4
  | .writing offset _ => p.workload.rowsPerTxn.toNat - offset + 3
  | .preparing _ => 2
  | .committing => 1
  | .backingOut _ | .rollingBack _ => 0

theorem callsLeft_phaseAt (p : Plan) (b : Batch) (offset : Nat) :
    callsLeft p { b with phase := p.phaseAt offset } ≤ 2 ∨
      offset < p.workload.rowsPerTxn.toNat ∧
        callsLeft p { b with phase := p.phaseAt offset } = p.workload.rowsPerTxn.toNat - offset + 3 := by
  unfold Plan.phaseAt
  split
  · rename_i hlt
    split
    · exact .inr ⟨hlt, rfl⟩
    · exact .inl (by simp [callsLeft])
  · split
    · split <;> exact .inl (by simp [callsLeft])
    · exact .inl (by simp [callsLeft])

theorem redo_cases (p : Plan) (b : Batch) (key : Int64) :
    (∃ total : UInt64, total.toNat = b.conflicts.toNat + 1 ∧ p.workload.retry.allows total = true ∧
      b.redo p key = .more ⟨total, .starting⟩) ∨
    (∃ total : UInt64, total.toNat = b.conflicts.toNat + 1 ∧ p.workload.retry.allows total = false ∧
      b.redo p key = .over (.error (.failed (.gaveUp p.thread p.round total key)))) ∨
    b.conflicts.toNat + 1 = UInt64.size ∧ b.redo p key = .over (.error (.crashed .addOverflow)) := by
  unfold redo
  by_cases hlt : b.conflicts.toNat + 1 < UInt64.size
  · have hadd : Word.add b.conflicts 1 = .ok (b.conflicts + 1) := if_pos hlt
    have htotal : (b.conflicts + 1).toNat = b.conflicts.toNat + 1 := (Word.add_eq_ok_iff.mp hadd).symm
    rw [hadd]
    cases hallows : p.workload.retry.allows (b.conflicts + 1) with
    | true => exact .inl ⟨_, htotal, hallows, by simp [hallows]⟩
    | false => exact .inr (.inl ⟨_, htotal, hallows, by simp [hallows]⟩)
  · have hadd : Word.add b.conflicts 1 = .error .addOverflow := if_neg hlt
    have hmost := b.conflicts.toNat_lt_size
    exact .inr (.inr ⟨by omega, by rw [hadd]⟩)

theorem redo_decreases {p : Plan} {b c : Batch} {key : Int64} (h : b.redo p key = .more c) :
    c.patience < b.patience := by
  rcases redo_cases p b key with ⟨total, htotal, _, hredo⟩ | ⟨_, _, _, hredo⟩ | ⟨_, hredo⟩ <;>
    rw [hredo] at h <;> cases h
  have := total.toNat_lt_size
  simp only [patience]
  omega

theorem answer_decreases {p : Plan} {b c : Batch} {reply : Reply} (h : b.answer p reply = .more c) :
    c.patience < b.patience ∨ c.patience = b.patience ∧ callsLeft p c < callsLeft p b := by
  obtain ⟨conflicts, phase⟩ := b
  cases phase with
  | starting =>
    cases reply with
    | ok _ =>
      obtain rfl := Progress.more.inj h
      refine .inr ⟨rfl, ?_⟩
      rcases callsLeft_phaseAt p ⟨conflicts, .starting⟩ 0 with hle | ⟨_, heq⟩
      · exact Nat.lt_of_le_of_lt hle (by simp only [callsLeft]; omega)
      · rw [heq]
        simp only [callsLeft]
        omega
    | error _ => cases h
  | writing offset key =>
    match reply, h with
    | .ok .accepted, h =>
      obtain rfl := Progress.more.inj h
      refine .inr ⟨rfl, ?_⟩
      rcases callsLeft_phaseAt p ⟨conflicts, .writing offset key⟩ (offset + 1) with hle | ⟨hlt, heq⟩
      · exact Nat.lt_of_le_of_lt hle (by simp only [callsLeft]; omega)
      · rw [heq]
        simp only [callsLeft]
        omega
    | .ok .conflict, h =>
      obtain rfl := Progress.more.inj h
      exact .inr ⟨rfl, Nat.succ_pos _⟩
    | .error _, h =>
      obtain rfl := Progress.more.inj h
      exact .inr ⟨rfl, Nat.succ_pos _⟩
  | backingOut key =>
    cases reply with
    | ok _ => exact .inl (redo_decreases h)
    | error _ => cases h
  | preparing id =>
    cases reply with
    | ok _ =>
      obtain rfl := Progress.more.inj h
      exact .inr ⟨rfl, Nat.lt_succ_self 1⟩
    | error _ =>
      obtain rfl := Progress.more.inj h
      exact .inr ⟨rfl, Nat.succ_pos 1⟩
  | committing => cases reply <;> cases h
  | rollingBack why => cases h

/-- Runs a batch through the session of a seat, and leaves the buffer for the next one. There is no result
if a call is never answered. -/
def run {σ : Type} (store : Store σ) (seat : Nat) (p : Plan) (buffer : Bytes) (b : Batch) (s : σ) :
    Option (Except Stop UInt64 × Bytes × σ) :=
  match store.call s seat (b.ask p buffer).1 with
  | none => none
  | some (reply, s) =>
    match _h : b.answer p reply with
    | .more c => run store seat p (b.ask p buffer).2 c s
    | .over result => some (result, (b.ask p buffer).2, s)
termination_by (b.patience, callsLeft p b)
decreasing_by
  rcases answer_decreases _h with hlt | ⟨heq, hlt⟩
  · exact Prod.Lex.left _ _ hlt
  · rw [heq]
    exact Prod.Lex.right _ hlt

end Batch

end InsertBench
