import InsertBench.Proofs.Serial.Buffered
import InsertBench.Proofs.Serial.RowLocks
import InsertBench.Proofs.Serial.SingleWriter

/-! # Stores agree on serial use

With row locks, with a single writer and with buffered writes, pending rows are kept in three different
ways. One transaction at a time cannot tell them apart: all of them answer as the book does.
-/
namespace InsertBench.Serial

structure CountAlike (b : Book) (s : RowLocks) (t : SingleWriter) (u : Buffered) : Prop where
  rowLocks : CountsAs RowLocks.store s b
  singleWriter : CountsAs SingleWriter.store t b
  buffered : CountsAs Buffered.store u b

/-- The stores answer one use after another, each time all of them with an answer of the kind that the
book has, and every table counts as many rows in each of them before, between and after the uses. -/
def InConcert : Book → RowLocks → SingleWriter → Buffered → List Use → Prop
  | b, s, t, u, [] => CountAlike b s t u
  | b, s, t, u, use :: rest => CountAlike b s t u ∧ ∃ s' t' u',
      Gives RowLocks.store s use (b.reply use) s' ∧ Gives SingleWriter.store t use (b.reply use) t' ∧
        Gives Buffered.store u use (b.reply use) u' ∧ InConcert (b.after use) s' t' u' rest

theorem inConcert {b : Book} {s : RowLocks} {t : SingleWriter} {u : Buffered} {uses : List Use}
    (hb : b.WellKept) (hs : RowLocks.Mirrors b s) (ht : SingleWriter.Mirrors b t)
    (hu : Buffered.Mirrors b u) (h : Disciplined b uses) : InConcert b s t u uses := by
  -- the counts come along in the induction, since they have to agree at every step
  have hcounts : CountAlike b s t u := ⟨hs.counts hb, ht.counts hb, hu.counts hb⟩
  induction uses generalizing b s t u with
  | nil => exact hcounts
  | cons use rest ih =>
    obtain ⟨ha, hrest⟩ := h
    have hafter : (b.after use).WellKept := hb.turn (hb.turn_of_allows ha)
    obtain ⟨s', hs', hs⟩ := RowLocks.refines.gives hs hb ha
    obtain ⟨t', ht', ht⟩ := SingleWriter.refines.gives ht hb ha
    obtain ⟨u', hu', hu⟩ := Buffered.refines.gives hu hb ha
    refine ⟨hcounts, s', t', u', hs', ht', hu', ?_⟩
    exact ih hafter hs ht hu hrest ⟨hs.counts hafter, ht.counts hafter, hu.counts hafter⟩

/-- Whatever clients do that have one transaction at a time, a fresh store of any of the three designs
gives the answers that the others give. -/
theorem inConcert_of_disciplined {uses : List Use} (h : Disciplined blank uses) :
    InConcert blank .empty .empty .empty uses :=
  inConcert Book.wellKept_blank RowLocks.mirrors_empty SingleWriter.mirrors_empty Buffered.mirrors_empty h

/-- Keys inserted twice, before and after a commit, and a key inserted again after a rollback. -/
def mixed : List Use :=
  [.count "t", .call 0 (.openSession "t"), .call 1 (.openSession "t"), .call 0 .beginTxn,
    .call 0 (.insert 5 [1]), .call 0 (.insert 5 [2]), .call 0 (.insert 7 []), .call 0 (.prepare 1),
    .call 0 .commit, .call 1 .beginTxn, .call 1 (.insert 5 []), .call 1 (.insert 5 []), .count "t",
    .call 1 (.insert 9 []), .call 1 .abort, .call 0 .beginTxn, .call 0 (.insert 9 []),
    .call 1 .dropSession, .call 0 .commit, .call 0 .close, .count "t", .count "u"]

theorem inConcert_mixed : Disciplined blank mixed ∧ InConcert blank .empty .empty .empty mixed := by
  have h : Disciplined blank mixed := by decide
  exact ⟨h, inConcert_of_disciplined h⟩

example : (mixed.foldl Book.after blank).committed "t" = [9, 7, 5] := by decide

end InsertBench.Serial
