import InsertBench.Proofs.Batch.Attempts

/-! # The grammar of a batch's calls

All calls of a batch follow one grammar, whatever is replied to them. It lets a batch commit at most once,
and ends every transaction exactly once.
-/
namespace InsertBench.Batch

/-- Whether a transaction is open after a call, if one was open before or not. There is no answer for a
call out of place. -/
def txnAfter : Bool → Exchange → Option Bool
  | false, (.beginTxn, .ok _) => some true
  | false, (.beginTxn, .error _) => some false
  | true, (.insert .., _) | true, (.prepare _, _) => some true
  | true, (.commit, _) | true, (.abort, _) | true, (.dropTxn, _) => some false
  | _, _ => none

/-- Every transaction that begins is ended once, before the next one begins. -/
def Balanced (log : List Exchange) : Prop := log.foldlM txnAfter false = some false

def commitCalls (log : List Exchange) : Nat := (log.map Prod.fst).count .commit

/-- The calls of a batch follow the grammar, however a store replies, and wherever they stop. -/
structure Grammatical (p : Plan) : Prop where
  keys {offset : Nat} : offset < p.workload.width → p.key offset = .ok (p.keyAt offset)
  complete {log : List Exchange} {result : Except Stop UInt64} : Runs p .start log (.over result) →
    Says p log result ∧ commitCalls log ≤ 1 ∧ Balanced log
  underway {log : List Exchange} {b : Batch} : Runs p .start log (.more b) →
    ∃ more result, Runs p .start (log ++ more) (.over result)
  executed {σ : Type} {store : Store σ} {seat : Nat} {buffer kept : Bytes} {s t : σ}
    {result : Except Stop UInt64} : run store seat p buffer .start s = some (result, kept, t) →
      ∃ log, store.Serves seat s log t ∧ Runs p .start log (.over result)

variable {p : Plan} {log more attempt : List Exchange} {result : Except Stop UInt64} {conflicts : UInt64}

theorem foldlM_inserting (begun : Verdict) (rows : List (Int64 × Bytes)) :
    (inserting begun rows).foldlM txnAfter false = some true := by
  have hrows : (rows.map fun row => ((.insert row.1 row.2, .ok .accepted) : Exchange)).foldlM txnAfter true =
      some true := by
    induction rows with
    | nil => rfl
    | cons row rows ih => exact ih
  exact hrows

theorem commitCalls_inserting (begun : Verdict) (rows : List (Int64 × Bytes)) :
    commitCalls (inserting begun rows) = 0 := by
  rw [commitCalls, map_fst_inserting, List.count_eq_zero]
  simp

theorem Balanced.append (h : Balanced log) (k : Balanced more) : Balanced (log ++ more) := by
  rw [Balanced, List.foldlM_append, h]
  exact k

theorem commitCalls_append : commitCalls (log ++ more) = commitCalls log + commitCalls more := by
  rw [commitCalls, List.map_append, List.count_append]
  rfl

theorem balanced_inserting {begun : Verdict} {rows : List (Int64 × Bytes)}
    (h : more.foldlM txnAfter true = some false) : Balanced (inserting begun rows ++ more) := by
  rw [Balanced, List.foldlM_append, foldlM_inserting]
  exact h

theorem BackedOut.balanced {key : Int64} (h : BackedOut p key attempt) :
    Balanced attempt ∧ commitCalls attempt = 0 := by
  cases h with
  | mk here =>
    refine ⟨balanced_inserting rfl, ?_⟩
    rw [commitCalls_append, commitCalls_inserting]
    rfl

theorem Redone.balanced (h : Redone p log conflicts) : Balanced log ∧ commitCalls log = 0 := by
  induction h with
  | none => exact ⟨rfl, rfl⟩
  | again _ backedOut _ _ ih =>
    refine ⟨ih.1.append backedOut.balanced.1, ?_⟩
    rw [commitCalls_append, ih.2, backedOut.balanced.2]

theorem Last.balanced (h : Last p conflicts attempt result) : Balanced attempt ∧ commitCalls attempt ≤ 1 := by
  cases h with
  | beginFailed => exact ⟨rfl, Nat.zero_le _⟩
  | insertFailed here | abortFailed here | prepareFailed two =>
    refine ⟨balanced_inserting rfl, ?_⟩
    rw [commitCalls_append, commitCalls_inserting]
    exact Nat.zero_le _
  | gaveUp backedOut _ _ | uncounted backedOut _ =>
    exact ⟨backedOut.balanced.1, by rw [backedOut.balanced.2]; exact Nat.zero_le _⟩
  | commitFailed ready | committed ready =>
    rw [List.append_assoc]
    cases ready <;>
      exact ⟨balanced_inserting rfl, by rw [commitCalls_append, commitCalls_inserting]; exact Nat.le_refl _⟩

theorem Says.balanced (h : Says p log result) : Balanced log ∧ commitCalls log ≤ 1 := by
  obtain ⟨redone, conflicts, last, hredone, hlast, rfl⟩ := h
  refine ⟨hredone.balanced.1.append hlast.balanced.1, ?_⟩
  rw [commitCalls_append, hredone.balanced.2, Nat.zero_add]
  exact hlast.balanced.2

theorem exists_end (p : Plan) (b : Batch) : ∃ log result, Runs p b log (.over result) := by
  let gone : Reply := .error (.failed .workerPanicked)
  have hdropped (conflicts : UInt64) (why : Stop) :
      Runs p ⟨conflicts, .rollingBack why⟩ [(.dropTxn, gone)] (.over (.error why)) := runs_one gone rfl
  obtain ⟨conflicts, phase⟩ := b
  cases phase with
  | starting | backingOut _ | committing | rollingBack _ => exact ⟨_, _, runs_one gone rfl⟩
  | writing _ _ | preparing _ => exact ⟨_, _, (runs_one gone rfl).trans (hdropped conflicts _)⟩

/-- If no key of a batch overflows, its calls follow the grammar, whatever is replied to them. -/
theorem grammatical_of_keyed (h : p.Keyed) : Grammatical p where
  keys := h.key_eq
  complete hruns := ⟨hruns.stands h, (hruns.stands h).balanced.2, (hruns.stands h).balanced.1⟩
  underway {log b} hruns := by
    obtain ⟨more, result, hend⟩ := exists_end p b
    exact ⟨more, result, hruns.trans hend⟩
  executed := runs_of_run

/-- The second batch of a thread meets a conflict on its second row, and is redone, prepared and
committed. -/
theorem grammatical_redone :
    let p : Plan := ⟨⟨8, 2, 2, .lazy, true, .bounded 1⟩, 7, 1, 1⟩
    p.Keyed ∧ ∃ log, Runs p .start log (.over (.ok 1)) ∧ log.length = 9 ∧
      Says p log (.ok 1) ∧ commitCalls log ≤ 1 ∧ Balanced log := by
  intro p
  have hfit : p.Fit := ⟨by decide, by decide, by decide⟩
  have turn {b c : Batch} {log : List Exchange} {progress : Progress} (reply : Reply)
      (first : b.answer p reply = .more c) (rest : Runs p c log progress) :
      Runs p b ((b.next p, reply) :: log) progress := (runs_one reply first).trans rest
  have hruns : Runs p .start _ (.over (.ok 1)) :=
    turn (.ok .accepted) rfl <| turn (.ok .accepted) rfl <| turn (.ok .conflict) rfl <|
      turn (.ok .accepted) rfl <|
      turn (.ok .accepted) rfl <| turn (.ok .accepted) rfl <| turn (.ok .accepted) rfl <|
      turn (.ok .accepted) rfl <| runs_one (.ok .accepted) rfl
  exact ⟨hfit.keyed, _, hruns, rfl, (grammatical_of_keyed hfit.keyed).complete hruns⟩

end InsertBench.Batch
