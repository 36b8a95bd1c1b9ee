import InsertBench.Proofs.Batch.Transcript
import InsertBench.Proofs.Crew.Account

/-! # Rounds of a worker

The calls of a worker about transactions are those of its batches, one round after another: a batch comes
only after the batches of all rounds before it have committed. So what a worker has committed is known
from the number of its rounds alone.
-/
namespace InsertBench

def Post.plan (p : Post) (round : Nat) : Batch.Plan := ⟨p.workload, p.createdAt, p.id, round.toUInt64⟩

namespace Crew

def Event.exchange? : Event → Option Exchange
  | .call _ (.openSession _) _ | .call _ .close _ | .call _ .dropSession _ => none
  | .call _ request reply => some (request, reply)
  | _ => none

def exchanges (log : List Event) : List Exchange := log.filterMap Event.exchange?

theorem exchanges_quiet {log : List Event} {event : Event} (h : event.exchange? = none) :
    exchanges (log ++ [event]) = exchanges log := by
  simp [exchanges, List.filterMap_append, h]

theorem exchanges_next {log : List Event} {place : Nat} (p : Batch.Plan) (b : Batch) (reply : Reply) :
    exchanges (log ++ [.call place (b.next p) reply]) = exchanges log ++ [(b.next p, reply)] := by
  have hexchange : Event.exchange? (.call place (b.next p) reply) = some (b.next p, reply) := by
    obtain ⟨conflicts, phase⟩ := b
    cases phase <;> rfl
  simp [exchanges, List.filterMap_append, hexchange]

theorem conflictsIn_exchanges (log : List Event) :
    conflictsIn (exchanges log) = log.countP Event.isConflict := by
  rw [conflictsIn, exchanges, List.countP_filterMap]
  apply List.countP_congr
  intro event _
  cases event with
  | call _ request reply =>
    cases request with
    | insert key value =>
      rcases reply with _ | (_ | _) <;> simp [Event.exchange?, Exchange.isConflict, Event.isConflict]
    | _ => simp [Event.exchange?, Exchange.isConflict, Event.isConflict]
  | readHalt | raiseHalt | readClock => simp [Event.exchange?, Event.isConflict]

end Crew

namespace Worker

open Crew (Event exchanges)

/-- The batches of the first rounds, all of which committed, and how many conflicts they met. -/
inductive Rounds (p : Post) : Nat → Nat → List Exchange → Prop
  | none : Rounds p 0 0 []
  | next {round conflicts : Nat} {log batch : List Exchange} {count : UInt64}
      (before : Rounds p round conflicts log)
      (commits : Batch.Runs (p.plan round) .start batch (.over (.ok count))) :
      Rounds p (round + 1) (conflicts + count.toNat) (log ++ batch)

def StageRan (calls : List Exchange) (p : Post) (t : Tally) : Stage → Prop
  | .opening | .polling _ | .starting _ | .closing | .leaving | .ended none =>
    Rounds p t.batches.toNat t.conflicts.toNat calls
  | .running round _ batch => ∃ before now, Rounds p round t.conflicts.toNat before ∧
      Batch.Runs (p.plan round) .start now (.more batch) ∧ calls = before ++ now
  | .stopping round _ conflicts => Rounds p (round + 1) (t.conflicts.toNat + conflicts.toNat) calls
  | _ => True

/-- A worker has made the calls of the rounds that it has counted, and those of the one it is in. -/
def Ran (log : List Event) (w : Worker) : Prop := StageRan (exchanges log) w.post w.tally w.stage

variable {p : Post} {w : Worker} {log : List Event} {event : Event}

theorem ran_new {post : Post} : Ran [] (new post) := .none

theorem ran_goOn {t : Tally} (hfit : w.post.Fit) (round : Nat)
    (h : Rounds w.post t.batches.toNat t.conflicts.toNat (exchanges log)) :
    Ran log ({ w with tally := t }.goOn round) := by
  rw [goOn_eq (w := { w with tally := t }) hfit]
  unfold Ran
  dsimp only [moveTo]
  split <;> exact h

theorem ran_fail (w : Worker) (stop : Stop) : Ran log (w.fail stop) := by
  cases stop <;> trivial

theorem Ran.running (h : Ran log w) {round : Nat} {since : UInt64} {batch : Batch}
    (stage : w.stage = .running round since batch) (place : Nat) (reply : Reply) :
    Ran (log ++ [.call place (batch.next (w.plan round)) reply]) (w.answer reply) := by
  rw [Ran, stage] at h
  obtain ⟨before, now, hbefore, hnow, hcalls⟩ := h
  have hcall := hnow.call reply
  have hcalls : exchanges (log ++ [.call place (batch.next (w.plan round)) reply]) =
      before ++ (now ++ [(batch.next (w.plan round), reply)]) := by
    rw [Crew.exchanges_next, hcalls, List.append_assoc]
  simp only [Ran, hcalls, answer, stage]
  change Batch.Runs (w.post.plan round) _ _ (batch.answer (w.plan round) reply) at hcall
  generalize batch.answer (w.plan round) reply = progress at hcall
  cases progress with
  | more later => exact ⟨_, _, hbefore, hcall, rfl⟩
  | _ result =>
    cases result with
    | ok count => exact .next hbefore hcall
    | error stop => trivial

theorem Ran.moves (h : Ran log w) (hon : w.OnTrack) {v : Worker} (hm : Moves w event v)
    (hidle : ∀ round since batch, w.stage ≠ .running round since batch) : Ran (log ++ [event]) v := by
  have hstage := hon.stage
  unfold Ran at h
  cases hm with
  | opened stage =>
    rw [stage] at h
    apply ran_goOn (t := w.tally) hon.fit
    rw [Crew.exchanges_quiet rfl]
    exact h
  | openFailed stage => exact ran_fail w _
  | carriedOn stage | halted stage =>
    rw [stage] at h
    rw [Ran, Crew.exchanges_quiet rfl]
    exact h
  | started stage =>
    rw [stage] at h hstage
    rw [Ran, Crew.exchanges_quiet rfl]
    refine ⟨_, [], ?_, .start, (List.append_nil _).symm⟩
    rw [← hstage.2]
    exact h
  | counted stage added =>
    rw [stage] at h hstage
    obtain ⟨_, _, hbatches, hconflicts, _⟩ := addBatch_eq_ok added
    apply ran_goOn hon.fit
    rw [Crew.exchanges_quiet rfl, hbatches, hstage.2, hconflicts]
    exact h
  | uncounted _ _ => trivial
  | closed stage | left stage =>
    rw [stage] at h
    rw [Ran, Crew.exchanges_quiet rfl]
    exact h
  | closeFailed _ | released _ => exact ran_fail w _
  | raised _ => trivial
  | begun stage | beginFailed stage | inserted stage | lockedOut stage | insertFailed stage
  | redone stage _ | gaveUp stage | prepared stage | prepareFailed stage | committed stage
  | commitFailed stage | rolledBack stage => exact absurd stage (hidle _ _ _)

theorem Ran.after (h : Ran log w) (hon : w.OnTrack) (hn : w.next = some event.action) :
    Ran (log ++ [event]) (w.after event) := by
  rcases running_or_moves hn with ⟨round, since, batch, place, reply, stage, rfl⟩ | ⟨hm, hidle⟩
  · exact h.running stage place reply
  · exact h.moves hon hm hidle

/-- What a worker has committed after so many rounds. -/
theorem Rounds.committed {round conflicts : Nat} {calls : List Exchange} (h : Rounds p round conflicts calls)
    (hfit : p.Fit) (hr : round ≤ p.workload.roundCount) :
    committed calls = (List.range round).map fun r => (p.plan r).transaction := by
  induction h with
  | none => rfl
  | @next round conflicts log batch count _ commits ih =>
    have hkeyed : (p.plan round).Keyed := (plan_fit (w := new p) hfit hr).keyed
    rw [InsertBench.committed, List.foldl_append, ((commits.stands hkeyed).tells).2, List.range_succ,
      List.map_append, ← ih (Nat.le_of_succ_le hr)]
    rfl

end Worker

end InsertBench
