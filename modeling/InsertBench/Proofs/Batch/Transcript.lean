import InsertBench.Proofs.Batch.Grammar

/-! # What a batch commits

The calls through a session tell what each committed transaction holds and how it was prepared. A batch
that commits adds one transaction with all its rows, however often it was redone before.
-/
namespace InsertBench

/-- What was inserted in a transaction, in order, and the id that it was prepared with, if it was. -/
structure Transaction where
  rows : List (Int64 × Bytes)
  name : Option UInt64

structure Transcript where
  /-- What was begun last. -/
  current : Transaction
  commits : List Transaction

namespace Transcript

def blank : Transcript := ⟨⟨[], none⟩, []⟩

def note (t : Transcript) : Exchange → Transcript
  | (.beginTxn, .ok _) => { t with current := ⟨[], none⟩ }
  | (.insert key value, .ok .accepted) =>
    { t with current := { t.current with rows := t.current.rows ++ [(key, value)] } }
  | (.prepare id, .ok _) => { t with current := { t.current with name := some id } }
  | (.commit, .ok _) => { t with commits := t.commits ++ [t.current] }
  | _ => t

end Transcript

def committed (log : List Exchange) : List Transaction := (log.foldl .note Transcript.blank).commits

def Exchange.isConflict : Exchange → Bool
  | (.insert .., .ok .conflict) => true
  | _ => false

def conflictsIn (log : List Exchange) : Nat := log.countP Exchange.isConflict

namespace Batch

def Plan.transaction (p : Plan) : Transaction :=
  ⟨p.rows, if p.workload.twoPhase then some (p.keyAt 0).toUInt64 else none⟩

variable {p : Plan} {log attempt : List Exchange} {conflicts count : UInt64} {result : Except Stop UInt64}

theorem foldl_inserting (t : Transcript) (begun : Verdict) (rows : List (Int64 × Bytes)) :
    (inserting begun rows).foldl .note t = { t with current := ⟨rows, none⟩ } := by
  have hrows (before : List (Int64 × Bytes)) :
      (rows.map fun row => ((.insert row.1 row.2, .ok .accepted) : Exchange)).foldl Transcript.note
        { t with current := ⟨before, none⟩ } = { t with current := ⟨before ++ rows, none⟩ } := by
    induction rows generalizing before with
    | nil => rw [List.append_nil]; rfl
    | cons row rows ih =>
      rw [List.append_cons]
      exact ih _
  exact hrows []

theorem conflictsIn_append (log more : List Exchange) :
    conflictsIn (log ++ more) = conflictsIn log + conflictsIn more := List.countP_append

theorem conflictsIn_inserting (begun : Verdict) (rows : List (Int64 × Bytes)) :
    conflictsIn (inserting begun rows) = 0 := by
  rw [conflictsIn, List.countP_eq_zero]
  intro exchange hmem
  rcases List.mem_cons.mp hmem with rfl | hmem
  · simp [Exchange.isConflict]
  · obtain ⟨row, _, rfl⟩ := List.mem_map.mp hmem
    simp [Exchange.isConflict]

theorem BackedOut.tells {key : Int64} (h : BackedOut p key attempt) :
    conflictsIn attempt = 1 ∧ ∀ t : Transcript, (attempt.foldl .note t).commits = t.commits := by
  cases h with
  | mk here =>
    constructor
    · rw [conflictsIn_append, conflictsIn_inserting]
      rfl
    · intro t
      rw [List.foldl_append, foldl_inserting]
      rfl

theorem Redone.tells (h : Redone p log conflicts) :
    conflictsIn log = conflicts.toNat ∧ ∀ t : Transcript, (log.foldl .note t).commits = t.commits := by
  induction h with
  | none => exact ⟨rfl, fun _ => rfl⟩
  | again _ backedOut count _ ih =>
    refine ⟨by rw [conflictsIn_append, ih.1, backedOut.tells.1, count], ?_⟩
    intro t
    rw [List.foldl_append, backedOut.tells.2, ih.2]

/-- A batch that commits adds its transaction, and has met as many conflicts as it returns. -/
theorem Says.tells (h : Says p log (.ok count)) : conflictsIn log = count.toNat ∧
    ∀ t : Transcript, (log.foldl .note t).commits = t.commits ++ [p.transaction] := by
  obtain ⟨redone, conflicts, last, hredone, hlast, rfl⟩ := h
  cases hlast with
  | @committed begun verdict prepared ready =>
    constructor
    · rw [conflictsIn_append, hredone.tells.1, conflictsIn_append, conflictsIn_append, conflictsIn_inserting]
      cases ready <;> rfl
    · intro t
      rw [List.foldl_append, List.foldl_append, List.foldl_append, foldl_inserting]
      cases ready with
      | onePhase one => simp [Transcript.note, Plan.transaction, one, hredone.tells.2]
      | twoPhase two => simp [Transcript.note, Plan.transaction, two, hredone.tells.2]

/-- A batch whose calls all succeed commits, unless it meets more conflicts than it may or can count. -/
theorem Says.result_ok (h : Says p log result) (hok : ∀ exchange ∈ log, ∃ verdict, exchange.2 = .ok verdict)
    (hpatient : ∀ most, p.workload.retry = .bounded most → commitCalls log = 0 → conflictsIn log ≤ most.toNat)
    (hcounted : conflictsIn log < UInt64.size) : ∃ count, result = .ok count := by
  obtain ⟨redone, conflicts, last, hredone, hlast, rfl⟩ := h
  have hfails {request : Request} {stop : Stop} (hmem : (request, .error stop) ∈ last) : False := by
    obtain ⟨verdict, hv⟩ := hok _ (List.mem_append_right _ hmem)
    cases hv
  have hcommits (backedOut : ∃ key, BackedOut p key last) : commitCalls (redone ++ last) = 0 ∧
      conflictsIn (redone ++ last) = conflicts.toNat + 1 := by
    obtain ⟨key, hback⟩ := backedOut
    exact ⟨by rw [commitCalls_append, hredone.balanced.2, hback.balanced.2],
      by rw [conflictsIn_append, hredone.tells.1, hback.tells.1]⟩
  cases hlast with
  | committed ready => exact ⟨_, rfl⟩
  | gaveUp backedOut total refused =>
    obtain ⟨hnone, htotal⟩ := hcommits ⟨_, backedOut⟩
    cases hretry : p.workload.retry with
    | unbounded => simp [hretry, Retry.allows] at refused
    | bounded most =>
      have hle := hpatient most hretry hnone
      simp only [hretry, Retry.allows, decide_eq_false_iff_not, UInt64.le_iff_toNat_le] at refused
      omega
  | uncounted backedOut full =>
    have := (hcommits ⟨_, backedOut⟩).2
    omega
  | beginFailed => exact (hfails List.mem_cons_self).elim
  | insertFailed _ | prepareFailed _ | commitFailed _ =>
    exact (hfails (List.mem_append_right _ List.mem_cons_self)).elim
  | abortFailed _ =>
    exact (hfails (List.mem_append_right _ (List.mem_cons_of_mem _ List.mem_cons_self))).elim

end Batch

end InsertBench
