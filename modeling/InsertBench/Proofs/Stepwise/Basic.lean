import Mathlib.Logic.Function.Basic
import InsertBench.Proofs.Crew.Schedule
import InsertBench.Store.RowLocks

/-! # Calls in steps

A commit is carried out in several operations, and other workers may act between them. So a crew on
tables with row locks goes on operation by operation; a worker goes on itself when the last operation
of its call is done. Crews that make whole calls go on in this way too: `goes_of_runs`.
-/
namespace InsertBench

structure Stepwise where
  crew : Crew RowLocks
  /-- The operations that are left of a call that a worker has begun. -/
  todo : Nat → List RowLocks.Operation

namespace Stepwise

open RowLocks (Operation)
open Crew (Event Follows)

/-- The operations before a worker: what is left of its call, or else all of the next call. -/
def ahead (todo : List Operation) (request : Request) : List Operation :=
  if todo = [] then RowLocks.operations request else todo

inductive Step (base : Nat) (c : Stepwise) : List Event → Stepwise → Prop
  | part {place : Nat} {w : Worker} {request : Request} {op next : Operation} {rest : List Operation}
      {reply : Reply} {s : RowLocks} (here : c.crew.workers[place]? = some w)
      (calls : w.next = some (.call request)) (left : ahead (c.todo place) request = op :: next :: rest)
      (performs : c.crew.store.step (base + place) op = some (reply, s)) :
      Step base c [] ⟨{ c.crew with store := s }, Function.update c.todo place (next :: rest)⟩
  | last {place : Nat} {w : Worker} {request : Request} {op : Operation} {reply : Reply} {s : RowLocks}
      (here : c.crew.workers[place]? = some w) (calls : w.next = some (.call request))
      (left : ahead (c.todo place) request = [op])
      (performs : c.crew.store.step (base + place) op = some (reply, s)) :
      Step base c [.call place request reply]
        ⟨{ c.crew with store := s }.setWorker place (w.answer reply), Function.update c.todo place []⟩
  | other {place : Nat} {now : UInt64} {event : Event} {d : Crew RowLocks}
      (acts : c.crew.act RowLocks.store base place now = some (event, d))
      (quiet : ∀ request, event.action ≠ .call request) : Step base c [event] ⟨d, c.todo⟩

inductive Runs (base : Nat) : Stepwise → List Event → Stepwise → Prop
  | done (c : Stepwise) : Runs base c [] c
  | step {c d e : Stepwise} {events log : List Event} (first : Step base c events d)
      (rest : Runs base d log e) : Runs base c (events ++ log) e

/-- A crew comes to this, operation by operation. -/
def Goes (base : Nat) (c : Crew RowLocks) (log : List Event) (d : Crew RowLocks) : Prop :=
  ∃ todo, Runs base ⟨c, fun _ => []⟩ log ⟨d, todo⟩

variable {base : Nat} {c d e : Stepwise} {log more : List Event}

section Turns

variable {w : Worker} {request : Request} {op : Operation} {reply : Reply} {s : RowLocks}

theorem Runs.part (place : Nat) {next : Operation} {rest : List Operation}
    (here : c.crew.workers[place]? = some w) (calls : w.next = some (.call request))
    (left : ahead (c.todo place) request = op :: next :: rest)
    (performs : c.crew.store.step (base + place) op = some (reply, s))
    (more : Runs base ⟨{ c.crew with store := s }, Function.update c.todo place (next :: rest)⟩ log e) :
    Runs base c log e :=
  .step (.part here calls left performs) more

theorem Runs.last (place : Nat) (here : c.crew.workers[place]? = some w)
    (calls : w.next = some (.call request)) (left : ahead (c.todo place) request = [op])
    (performs : c.crew.store.step (base + place) op = some (reply, s))
    (more : Runs base ⟨{ c.crew with store := s }.setWorker place (w.answer reply),
      Function.update c.todo place []⟩ log e) : Runs base c (.call place request reply :: log) e :=
  .step (.last here calls left performs) more

theorem Runs.other (place : Nat) (now : UInt64) {event : Event} {d : Crew RowLocks}
    (acts : c.crew.act RowLocks.store base place now = some (event, d))
    (quiet : ∀ request, event.action ≠ .call request) (more : Runs base ⟨d, c.todo⟩ log e) :
    Runs base c (event :: log) e :=
  .step (.other acts quiet) more

end Turns

theorem Runs.trans (h : Runs base c log d) (k : Runs base d more e) : Runs base c (log ++ more) e := by
  induction h with
  | done c => exact k
  | step first _ ih =>
    rw [List.append_assoc]
    exact .step first (ih k)

theorem Runs.follows (h : Runs base c log d) : Follows c.crew log d.crew := by
  induction h with
  | done c => exact .done _
  | @step c d e events log first _ ih =>
    cases first with
    | part => exact .drift ih
    | @last place w request op reply s here calls left performs =>
      have hacted : Crew.Acted { c.crew with store := s } (.call place request reply)
          ({ c.crew with store := s }.setWorker place (w.answer reply)) w :=
        ⟨here, calls, rfl, by simp [Crew.setWorker, Event.action], by simp⟩
      exact .drift (.act hacted ih)
    | other acts quiet =>
      obtain ⟨w, hacted⟩ := Crew.acted_of_act acts
      exact .act hacted.toActed ih

theorem Goes.follows {c d : Crew RowLocks} (h : Goes base c log d) : Follows c log d := by
  obtain ⟨todo, hruns⟩ := h
  exact hruns.follows

theorem Runs.keeps {P : Stepwise → Prop} (hstep : ∀ c events d, P c → Step base c events d → P d)
    (h : Runs base c log d) (hc : P c) : P d := by
  induction h with
  | done c => exact hc
  | step first _ ih => exact ih (hstep _ _ _ hc first)

theorem runs_of_steps {place : Nat} {w : Worker} {request : Request} {before reply : Reply}
    {s : RowLocks} {ops : List Operation} (here : c.crew.workers[place]? = some w)
    (calls : w.next = some (.call request)) (hleft : ahead (c.todo place) request = ops) (hne : ops ≠ [])
    (hsteps : c.crew.store.steps (base + place) before ops = some (reply, s)) :
    Runs base c [.call place request reply]
      ⟨{ c.crew with store := s }.setWorker place (w.answer reply), Function.update c.todo place []⟩ := by
  induction ops generalizing c before with
  | nil => exact absurd rfl hne
  | cons op rest ih =>
    simp only [RowLocks.steps] at hsteps
    split at hsteps
    · rename_i found t hperforms
      cases rest with
      | nil =>
        cases hsteps
        exact .step (.last here calls hleft hperforms) (.done _)
      | cons next rest =>
        let d : Stepwise := ⟨{ c.crew with store := t }, Function.update c.todo place (next :: rest)⟩
        have hd : ahead (d.todo place) request = next :: rest := by simp [d, ahead]
        have hrest := @ih d found here hd (by simp) hsteps
        simp only [d, Function.update_idem] at hrest
        exact .step (.part here calls hleft hperforms) hrest
    · cases hsteps

theorem operations_ne_nil (request : Request) : RowLocks.operations request ≠ [] := by
  cases request <;> simp [RowLocks.operations]

theorem goes_of_runs {c d : Crew RowLocks} (h : Crew.Runs RowLocks.store base c log d) :
    Goes base c log d := by
  refine ⟨fun _ => [], ?_⟩
  induction h with
  | done c => exact .done _
  | @act c d e place now event log first _ ih =>
    have hfirst : Runs base ⟨c, fun _ => []⟩ [event] ⟨d, fun _ => []⟩ := by
      obtain ⟨w, hacted⟩ := Crew.acted_of_act first
      by_cases hquiet : ∀ request, event.action ≠ .call request
      · exact .step (.other first hquiet) (.done _)
      · cases event with
        | call worker request reply =>
          obtain rfl : worker = place := hacted.turn
          have hd : d = { c with store := d.store }.setWorker worker (w.answer reply) := by
            have hworkers := hacted.workers
            have hhalt := hacted.halt
            cases d
            simp_all [Crew.setWorker, Event.action, Event.worker, Worker.after]
          have hruns := @runs_of_steps base ⟨c, fun _ => []⟩ worker w request _ _ _ _ hacted.here hacted.next
            rfl (operations_ne_nil request) (hacted.answered rfl)
          rw [hd]
          rwa [Function.update_eq_self_iff.mpr rfl] at hruns
        | _ => exact absurd (fun _ he => by cases he) hquiet
    exact hfirst.trans ih

end Stepwise

end InsertBench
