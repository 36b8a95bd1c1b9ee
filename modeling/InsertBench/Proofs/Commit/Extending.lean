import InsertBench.Proofs.Commit.Buffered
import InsertBench.Proofs.Commit.RowLocks
import InsertBench.Proofs.Commit.SingleWriter

/-! # What a transaction leaves of its inserts

With row locks and with buffered writes a commit extends the table by the rows whose inserts were accepted,
and nothing is left of an insert that was refused. With a single writer the row of a refused insert is
stored all the same, in the place of the one that it was refused for.
-/
namespace InsertBench

namespace RowLocks

variable {s t : RowLocks} {calls : List Call}

theorem sound_of_takes (hs : Sound s) (h : store.Takes s calls t) : Sound t := by
  induction h with
  | start => exact hs
  | call _ last ih => exact steps_keep (P := Sound) (fun hP hstep => hP.step hstep) last ih

end RowLocks

namespace SingleWriter

variable {s t u : SingleWriter} {seat : Nat} {name : String} {calls : List Exchange}

theorem Overwrites.extends (h : Overwrites name calls t u) (hall : askedRows calls = acceptedRows calls) :
    view.Extends name (acceptedRows calls) t u where
  distinct := h.distinct
  value table key := by
    rw [← hall]
    exact h.value table key

end SingleWriter

/-- Whatever the store was at the beginning, whoever is at work in other sessions, and whatever was accepted
and refused: what a commit makes of the table of its session. -/
theorem rows_of_commit {seat : Nat} {name : String} {calls : List Call} :
    (∀ {idle s t u : RowLocks} {earlier : List Call}, RowLocks.Quiescent idle →
      RowLocks.store.Takes idle earlier s → RowLocks.view.table s seat = some name →
      RowLocks.store.Commits seat s calls t u →
        RowLocks.view.Extends name (acceptedRows (callsAt calls seat)) t u) ∧
    (∀ {s t u : Buffered}, Buffered.view.table s seat = some name → Buffered.store.Commits seat s calls t u →
      Buffered.view.Extends name (acceptedRows (callsAt calls seat)) t u) ∧
    ∀ {s t u : SingleWriter}, SingleWriter.view.table s seat = some name →
      SingleWriter.store.Commits seat s calls t u →
        SingleWriter.Overwrites name (callsAt calls seat) t u ∧
        (askedRows (callsAt calls seat) = acceptedRows (callsAt calls seat) →
          SingleWriter.view.Extends name (acceptedRows (callsAt calls seat)) t u) := by
  refine ⟨?_, ?_, ?_⟩
  · intro idle s t u earlier hidle hearlier hname hcommits
    exact RowLocks.extends_of_commits (RowLocks.sound_of_takes hidle.sound hearlier) hcommits hname
  · intro s t u hname hcommits
    exact Buffered.extends_of_commits hcommits hname
  · intro s t u hname hcommits
    have hoverwrites := SingleWriter.overwrites_of_commits hcommits hname
    exact ⟨hoverwrites, hoverwrites.extends⟩

def committing (key : Int64) (value : Bytes) : List Call :=
  [⟨0, .openSession "t", .ok .accepted⟩, ⟨0, .beginTxn, .ok .accepted⟩, ⟨0, .insert key value, .ok .accepted⟩,
    ⟨0, .commit, .ok .accepted⟩]

/-- Another row of the key 5 is refused, and one of the key 7 accepted. -/
def refusingFive : List Call :=
  [⟨0, .insert 5 [2], .error (.failed (.duplicateKey 5))⟩, ⟨0, .insert 7 [3], .ok .accepted⟩]

theorem rows_of_commit_refusingFive :
    (∃ s t u, RowLocks.store.Commits 0 s refusingFive t u ∧ RowLocks.view.Extends "t" [(7, [3])] t u) ∧
    (∃ s t u, Buffered.store.Commits 0 s refusingFive t u ∧ Buffered.view.Extends "t" [(7, [3])] t u) ∧
    ∃ s t u, SingleWriter.store.Commits 0 s refusingFive t u ∧
      SingleWriter.Overwrites "t" (callsAt refusingFive 0) t u := by
  obtain ⟨hlocks, hbuffered, hwriter⟩ := @rows_of_commit 0 "t" refusingFive
  refine ⟨?_, ?_, ?_⟩
  · obtain ⟨s, t, u, hname, hearlier, hcommits⟩ : ∃ s t u, RowLocks.view.table s 0 = some "t" ∧
        RowLocks.store.Takes .empty (committing 5 [1]) s ∧ RowLocks.store.Commits 0 s refusingFive t u :=
      ⟨_, _, _, rfl, .call (.call (.call (.call .start rfl) rfl) rfl) rfl,
        ⟨.accepted, _, rfl, .call (.call .start rfl) rfl⟩, by decide, ⟨.accepted, rfl⟩⟩
    exact ⟨s, t, u, hcommits, hlocks RowLocks.quiescent_empty hearlier hname hcommits⟩
  · obtain ⟨s, t, u, hname, hearlier, hcommits⟩ : ∃ s t u, Buffered.view.table s 0 = some "t" ∧
        Buffered.store.Takes .empty (committing 5 [1]) s ∧ Buffered.store.Commits 0 s refusingFive t u :=
      ⟨_, _, _, rfl, .call (.call (.call (.call .start rfl) rfl) rfl) rfl,
        ⟨.accepted, _, rfl, .call (.call .start rfl) rfl⟩, by decide, ⟨.accepted, rfl⟩⟩
    exact ⟨s, t, u, hcommits, hbuffered hname hcommits⟩
  · obtain ⟨s, t, u, hname, hearlier, hcommits⟩ : ∃ s t u, SingleWriter.view.table s 0 = some "t" ∧
        SingleWriter.store.Takes .empty (committing 5 [1]) s ∧
          SingleWriter.store.Commits 0 s refusingFive t u :=
      ⟨_, _, _, rfl, .call (.call (.call (.call .start rfl) rfl) rfl) rfl,
        ⟨.accepted, _, rfl, .call (.call .start rfl) rfl⟩, by decide, ⟨.accepted, rfl⟩⟩
    exact ⟨s, t, u, hcommits, (hwriter hname hcommits).1⟩

/-- The key 5 is inserted again, and refused. -/
def refusedAgain : List Call := [⟨0, .insert 5 [2], .error (.failed (.duplicateKey 5))⟩]

/-- A row that was refused is stored in the place of the committed one, so that the commit does more than
extend the table by the rows that were accepted, of which there are none. -/
theorem refused_row_stored : ∃ s t u : SingleWriter, SingleWriter.store.Takes .empty (committing 5 [1]) s ∧
    SingleWriter.store.Commits 0 s refusedAgain t u ∧ SingleWriter.view.value t "t" 5 = some [1] ∧
    SingleWriter.view.value u "t" 5 = some [2] ∧
    ¬ SingleWriter.view.Extends "t" (acceptedRows (callsAt refusedAgain 0)) t u := by
  obtain ⟨s, t, u, hearlier, hcommits, hbefore, hafter⟩ : ∃ s t u : SingleWriter,
      SingleWriter.store.Takes .empty (committing 5 [1]) s ∧ SingleWriter.store.Commits 0 s refusedAgain t u ∧
        SingleWriter.view.value t "t" 5 = some [1] ∧ SingleWriter.view.value u "t" 5 = some [2] :=
    ⟨_, _, _, .call (.call (.call (.call .start rfl) rfl) rfl) rfl,
      ⟨⟨.accepted, _, rfl, .call .start rfl⟩, by decide, ⟨.accepted, rfl⟩⟩, rfl, rfl⟩
  refine ⟨s, t, u, hearlier, hcommits, hbefore, hafter, fun hextends => ?_⟩
  have hkept := hextends.value "t" 5
  rw [hbefore, hafter] at hkept
  exact absurd hkept (by decide)

end InsertBench
