import InsertBench.Store.Contract

/-! # What a store needs of the system

A store may keep its rows in files. Calls that use these can fail for reasons of the system, whatever
the store itself would answer.
-/
namespace InsertBench

/-- Why the system fails, by how often it was needed before. -/
abbrev Troubles : Type := Nat → Option String

namespace Troubles

def calm : Troubles := fun _ => none

/-- What becomes of an answer and a store on a system that was needed so often before. If it is needed here,
then the store is given as a failure leaves it. -/
def meet {α σ : Type} (troubles : Troubles) (before : Nat) (left? : Option σ) (answer : Except Stop α × σ) :
    Except Stop α × σ × Nat :=
  match left?, troubles before with
  | none, _ => (answer.1, answer.2, before)
  | some _, none => (answer.1, answer.2, before + 1)
  | some left, some text => (.error (.failed (.reported text)), left, before + 1)

end Troubles

structure Needs (σ : Type) where
  /-- The store after a call for which the system failed; there is none for a call that does not need the
  system. Of the rows this says no more than is sure: a run looks at none of them after a failure. -/
  call : σ → Nat → Request → Option σ
  rowCount : σ → Bool
  shut : σ → Bool

/-- The store on a system with such troubles, together with how often it has needed the system. What has to
wait, or is out of place, does not need it. -/
def Store.under {σ : Type} (store : Store σ) (needs : Needs σ) (troubles : Troubles) : Store (σ × Nat) where
  name s := store.name s.1
  call s seat request :=
    (store.call s.1 seat request).map (troubles.meet s.2 (needs.call s.1 seat request))
  rowCount s table :=
    troubles.meet s.2 (if needs.rowCount s.1 then some s.1 else none) (store.rowCount s.1 table)
  shut s :=
    (troubles.meet s.2 (if needs.shut s.1 then some s.1 else none) (store.shut s.1, s.1)).1

end InsertBench
