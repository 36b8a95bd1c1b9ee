import InsertBench.Proofs.RowLocks.History
import InsertBench.Proofs.Stepwise.Basic

/-! # Batches at once

Any number of batches run at once on tables with row locks, each through a session of its own. They go on
one operation at a time and in any order, so others may act while a call of a batch is half done.
-/
namespace InsertBench

structure Contender where
  plan : Batch.Plan
  progress : Batch.Progress
  /-- The operations that are left of a call that the batch has begun. -/
  todo : List RowLocks.Operation

structure Contest where
  store : RowLocks
  contenders : List Contender

namespace Contest

open RowLocks (Operation Event)
open Stepwise (ahead)

def entered (plans : List Batch.Plan) (s : RowLocks) : Contest :=
  ⟨s, plans.map fun plan => ⟨plan, .more .start, []⟩⟩

/-- The next operation of one batch; with the last one of a call the batch has its reply. Batches sit on
consecutive seats of the store, of which the first one is given. -/
inductive Step (base : Nat) (c : Contest) : Event → Contest → Prop
  | part {place : Nat} {plan : Batch.Plan} {b : Batch} {todo rest : List Operation} {op next : Operation}
      {reply : Reply} {s : RowLocks} (here : c.contenders[place]? = some ⟨plan, .more b, todo⟩)
      (left : ahead todo (b.next plan) = op :: next :: rest)
      (performs : c.store.step (base + place) op = some (reply, s)) :
      Step base c ⟨base + place, op, reply⟩ ⟨s, c.contenders.set place ⟨plan, .more b, next :: rest⟩⟩
  | last {place : Nat} {plan : Batch.Plan} {b : Batch} {todo : List Operation} {op : Operation}
      {reply : Reply} {s : RowLocks} (here : c.contenders[place]? = some ⟨plan, .more b, todo⟩)
      (left : ahead todo (b.next plan) = [op])
      (performs : c.store.step (base + place) op = some (reply, s)) :
      Step base c ⟨base + place, op, reply⟩ ⟨s, c.contenders.set place ⟨plan, b.answer plan reply, []⟩⟩

/-- What batches at once come to in any order of their operations, and what happened. -/
inductive Runs (base : Nat) (c : Contest) : List Event → Contest → Prop
  | start : Runs base c [] c
  | step {log : List Event} {d e : Contest} {event : Event} (before : Runs base c log d)
      (last : Step base d event e) : Runs base c (log ++ [event]) e

variable {base place : Nat} {c d e : Contest} {log more : List Event} {plan : Batch.Plan} {b : Batch}

theorem Runs.trans (h : Runs base c log d) (k : Runs base d more e) : Runs base c (log ++ more) e := by
  induction k with
  | start => rwa [List.append_nil]
  | step _ last ih =>
    rw [← List.append_assoc]
    exact .step ih last

section Turns

variable {todo : List Operation} {op : Operation} {reply : Reply} {s : RowLocks}

theorem Runs.part (place : Nat) {next : Operation} {rest : List Operation}
    (here : c.contenders[place]? = some ⟨plan, .more b, todo⟩)
    (left : ahead todo (b.next plan) = op :: next :: rest)
    (performs : c.store.step (base + place) op = some (reply, s))
    (more : Runs base ⟨s, c.contenders.set place ⟨plan, .more b, next :: rest⟩⟩ log d) :
    Runs base c (⟨base + place, op, reply⟩ :: log) d :=
  (Runs.step .start (.part here left performs)).trans more

theorem Runs.last (place : Nat) (here : c.contenders[place]? = some ⟨plan, .more b, todo⟩)
    (left : ahead todo (b.next plan) = [op]) (performs : c.store.step (base + place) op = some (reply, s))
    (more : Runs base ⟨s, c.contenders.set place ⟨plan, b.answer plan reply, []⟩⟩ log d) :
    Runs base c (⟨base + place, op, reply⟩ :: log) d :=
  (Runs.step .start (.last here left performs)).trans more

end Turns

end Contest

end InsertBench
