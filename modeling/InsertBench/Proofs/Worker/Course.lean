import InsertBench.Proofs.Bench.Returns
import InsertBench.Proofs.Worker.Rounds

/-! # The course of a worker

What the events of a worker show by the time it closes or drops its session, raises the halt flag or
ends. It closes its session only when all of its rounds are done or when it saw the flag up, it drops the
session only when a batch has failed, and it raises the flag only when it has failed itself.
-/
namespace InsertBench.Worker

open Crew (Event exchanges)

/-- How a worker comes to be done with its batches: well, or for a reason to give up. -/
inductive Finished (p : Post) (place : Nat) : List Event → Option Stop → Prop
  | through {log : List Event} {conflicts : Nat}
      (rounds : Rounds p p.workload.roundCount conflicts (exchanges log)) : Finished p place log none
  | halted {log : List Event} {round conflicts : Nat} (rounds : Rounds p round conflicts (exchanges log)) :
      Finished p place (log ++ [.readHalt place true]) none
  | failed {log : List Event} {round conflicts : Nat} {before now : List Exchange} {stop : Stop}
      (rounds : Rounds p round conflicts before)
      (fails : Batch.Runs (p.plan round) .start now (.over (.error stop)))
      (calls : exchanges log = before ++ now) : Finished p place log (some (stop.during (.work p.id)))
  /-- All batches so far have committed, but their conflicts have no word any more. -/
  | uncounted {log : List Event} {round conflicts : Nat} {time : UInt64} {how : Fault}
      (rounds : Rounds p (round + 1) conflicts (exchanges log)) (full : UInt64.size ≤ conflicts) :
      Finished p place (log ++ [.readClock place time]) (some (.crashed how))

/-- How a worker comes to return, well or for a reason: the session could not be opened, or it was
closed, or it was dropped. -/
inductive Driven (p : Post) (place : Nat) : List Event → Option Stop → Prop
  | unopened {stop : Stop} : Driven p place [.call place (.openSession p.table) (.error stop)]
      (some (stop.during (.openSession p.id)))
  | closed {log : List Event} {verdict : Verdict} (finished : Finished p place log none) :
      Driven p place (log ++ [.call place .close (.ok verdict)]) none
  | closeFailed {log : List Event} {stop : Stop} (finished : Finished p place log none) :
      Driven p place (log ++ [.call place .close (.error stop)]) (some (stop.during (.closeSession p.id)))
  | dropped {log : List Event} {why : Stop} {reply : Reply} (finished : Finished p place log (some why))
      (unclosed : ∀ reply, .call place .close reply ∉ log) :
      Driven p place (log ++ [.call place .dropSession reply]) (some why)

theorem Driven.ne_nil {p : Post} {place : Nat} {log : List Event} {result : Option Stop}
    (h : Driven p place log result) : log ≠ [] := by
  cases h <;> simp

def Stage.isOver : Stage → Bool
  | .raising _ | .ended _ => true
  | _ => false

def StageCourse (p : Post) (place : Nat) (log : List Event) : Stage → Prop
  | .opening => log = []
  | .closing => Finished p place log none
  | .releasing why => Finished p place log (some why)
  | .raising why => Driven p place log (some (.failed why))
  | .leaving => False
  | .ended (some (.failed why)) =>
    ∃ before, log = before ++ [.raiseHalt place] ∧ Driven p place before (some (.failed why))
  | .ended stop => Driven p place log stop
  | _ => True

structure Course (p : Post) (place : Nat) (log : List Event) (w : Worker) : Prop where
  post : w.post = p
  onTrack : w.OnTrack
  ran : Ran log w
  unclosed : w.stage.isOver = false → ∀ reply, .call place .close reply ∉ log
  stage : StageCourse p place log w.stage

variable {p : Post} {place : Nat} {log : List Event} {event : Event} {w : Worker}

theorem stageCourse_goOn {t : Tally} (hfit : w.post.Fit) {round conflicts : Nat}
    (hr : round ≤ w.post.workload.roundCount) (h : Rounds w.post round conflicts (exchanges log)) :
    StageCourse w.post place log ({ w with tally := t }.goOn round).stage := by
  rw [goOn_eq (w := { w with tally := t }) hfit]
  dsimp only [moveTo]
  split
  · trivial
  · rename_i hlast
    obtain rfl : round = w.post.workload.roundCount := Nat.le_antisymm hr (Nat.not_lt.mp hlast)
    exact .through h

theorem isOver_fail (w : Worker) (stop : Stop) : (w.fail stop).stage.isOver = true := by cases stop <;> rfl

theorem Moves.isOver_of_close {reply : Reply} {v : Worker} (h : Moves w (.call place .close reply) v) :
    v.stage.isOver = true := by
  cases h with
  | closed _ => rfl
  | closeFailed _ => exact isOver_fail _ _

theorem Moves.isOver {v : Worker} (h : Moves w event v) (hover : w.stage.isOver = true) :
    v.stage.isOver = true := by
  cases h with
  | raised _ => rfl
  | _ stage =>
    rw [stage] at hover
    cases hover

theorem stageCourse_fail {stop : Stop} (h : Driven p place log (some stop)) :
    StageCourse p place log (w.fail stop).stage := by
  cases stop <;> exact h

theorem Ran.answered (h : Ran log w) {round : Nat} {since : UInt64} {batch : Batch}
    (stage : w.stage = .running round since batch) (place : Nat) (reply : Reply) :
    (∃ later, (w.answer reply).stage = .running round since later) ∨
    (∃ conflicts, (w.answer reply).stage = .stopping round since conflicts) ∨
    ∃ (stop : Stop) (conflicts : Nat) (before now : List Exchange),
      (w.answer reply).stage = .releasing (stop.during (.work w.post.id)) ∧
        Rounds w.post round conflicts before ∧
        Batch.Runs (w.post.plan round) .start now (.over (.error stop)) ∧
        exchanges (log ++ [.call place (batch.next (w.plan round)) reply]) = before ++ now := by
  rw [Ran, stage] at h
  obtain ⟨before, now, hbefore, hnow, hcalls⟩ := h
  have hcall := hnow.call reply
  simp only [answer, stage]
  change Batch.Runs (w.post.plan round) _ _ (batch.answer (w.plan round) reply) at hcall
  generalize batch.answer (w.plan round) reply = progress at hcall
  rcases progress with later | result
  · exact .inl ⟨later, rfl⟩
  · cases result with
    | ok count => exact .inr (.inl ⟨count, rfl⟩)
    | error stop =>
      refine .inr (.inr ⟨stop, _, before, _, rfl, hbefore, hcall, ?_⟩)
      rw [Crew.exchanges_next, hcalls, List.append_assoc]
      rfl

/-- A batch that is over has committed, or else the worker gives up its session for its error. -/
theorem Course.running (h : Course p place log w) {round : Nat} {since : UInt64} {batch : Batch}
    (stage : w.stage = .running round since batch) (reply : Reply) :
    StageCourse p place (log ++ [.call place (batch.next (w.plan round)) reply]) (w.answer reply).stage := by
  obtain ⟨rfl, _, hran, _, _⟩ := h
  rcases hran.answered stage place reply with
    ⟨_, he⟩ | ⟨_, he⟩ | ⟨stop, _, before, now, he, hbefore, hfails, hcalls⟩ <;> rw [he]
  · trivial
  · trivial
  · exact .failed hbefore hfails hcalls

theorem Course.moves (h : Course p place log w) (hplace : event.worker = place) {v : Worker}
    (hm : Moves w event v) (hidle : ∀ round since batch, w.stage ≠ .running round since batch) :
    StageCourse p place (log ++ [event]) v.stage := by
  obtain ⟨rfl, hon, hran, hunclosed, hcourse⟩ := h
  have hstage := hon.stage
  rw [Ran] at hran
  cases hm with
  | opened stage =>
    rw [stage] at hran hstage
    apply stageCourse_goOn (t := w.tally) hon.fit (Nat.zero_le _)
    rw [Crew.exchanges_quiet rfl]
    rw [StageRan, show w.tally.batches.toNat = 0 from congrArg UInt64.toNat hstage] at hran
    exact hran
  | openFailed stage =>
    rw [stage] at hcourse
    obtain rfl : log = [] := hcourse
    obtain rfl := hplace
    exact stageCourse_fail .unopened
  | carriedOn _ | started _ => trivial
  | halted stage =>
    rw [stage] at hran
    obtain rfl := hplace
    exact .halted hran
  | counted stage added =>
    rw [stage] at hran hstage
    apply stageCourse_goOn hon.fit hstage.1
    rw [Crew.exchanges_quiet rfl]
    exact hran
  | uncounted stage overflow =>
    rw [stage] at hran hstage
    obtain rfl := hplace
    refine .uncounted hran (Nat.le_of_not_lt fun hsum => ?_)
    obtain ⟨_, hok⟩ := hon.addBatch_ok (by rw [hstage.2]; exact hstage.1) hsum _
    rw [hok] at overflow
    cases overflow
  | closed stage =>
    rw [stage] at hcourse
    obtain rfl := hplace
    exact .closed hcourse
  | closeFailed stage =>
    rw [stage] at hcourse
    obtain rfl := hplace
    exact stageCourse_fail (.closeFailed hcourse)
  | released stage =>
    rw [stage] at hcourse
    obtain rfl := hplace
    exact stageCourse_fail (.dropped hcourse (hunclosed (by rw [stage]; rfl)))
  | left stage =>
    rw [stage] at hcourse
    exact hcourse.elim
  | raised stage =>
    rw [stage] at hcourse
    obtain rfl := hplace
    exact ⟨log, rfl, hcourse⟩
  | begun stage | beginFailed stage | inserted stage | lockedOut stage | insertFailed stage
  | redone stage _ | gaveUp stage | prepared stage | prepareFailed stage | committed stage
  | commitFailed stage | rolledBack stage => exact absurd stage (hidle _ _ _)

theorem Course.after (h : Course p place log w) (hplace : event.worker = place)
    (hn : w.next = some event.action) : Course p place (log ++ [event]) (w.after event) where
  post := by rw [(moves_of_next hn).post, h.post]
  onTrack := h.onTrack.moves (moves_of_next hn)
  ran := h.ran.after h.onTrack hn
  unclosed hopen reply hmem := by
    have hm := moves_of_next hn
    rcases List.mem_append.mp hmem with hold | hnew
    · cases hover : w.stage.isOver with
      | false => exact h.unclosed hover reply hold
      | true => simp [hm.isOver hover] at hopen
    · obtain rfl := List.mem_singleton.mp hnew
      simp [hm.isOver_of_close] at hopen
  stage := by
    rcases running_or_moves hn with ⟨round, since, batch, other, reply, stage, rfl⟩ | ⟨hm, hidle⟩
    · obtain rfl := hplace
      exact h.running stage reply
    · exact h.moves hplace hm hidle

theorem Newly.course (h : Newly p w) (hfit : p.Fit) : Course p place [] w where
  post := h.post
  onTrack := h.onTrack hfit
  ran := by
    rcases h with rfl | rfl
    · exact ran_new
    · exact ran_goOn (w := new p) (t := .zero p.id) hfit 0 .none
  unclosed := by simp
  stage := by
    rcases h with rfl | rfl
    · rfl
    · exact stageCourse_goOn (w := new p) (t := .zero p.id) hfit (Nat.zero_le _) .none

theorem course_keeps (post : Nat → Post) :
    Crew.EachKeeps fun place log w => Course (post place) place log w :=
  fun _ _ _ _ h hplace hn => h.after hplace hn

section Failing

/-- A batch has failed after the batches of all rounds before it had committed. -/
def BatchFailed (p : Post) (calls : List Exchange) : Prop :=
  ∃ (round conflicts : Nat) (before now more : List Exchange) (stop : Stop), Rounds p round conflicts before ∧
    Batch.Runs (p.plan round) .start now (.over (.error stop)) ∧ calls = before ++ now ++ more

/-- Where the calls of a worker have brought it. -/
inductive Standing
  | within (round : Nat) (batch : Batch)
  | failed

namespace Standing

def reached (round : Nat) : Batch.Progress → Standing
  | .more batch => .within round batch
  | .over (.ok _) => .within (round + 1) .start
  | .over (.error _) => .failed

def note (p : Post) : Standing → Exchange → Standing
  | .within round batch, (_, reply) => reached round (batch.answer (p.plan round) reply)
  | .failed, _ => .failed

theorem foldl_failed (p : Post) (calls : List Exchange) : calls.foldl (note p) .failed = .failed := by
  induction calls with
  | nil => rfl
  | cons _ _ ih => exact ih

theorem foldl_runs {round : Nat} {calls : List Exchange} {progress : Batch.Progress}
    (h : Batch.Runs (p.plan round) .start calls progress) :
    calls.foldl (note p) (.within round .start) = reached round progress := by
  induction h with
  | start => rfl
  | call _ reply ih =>
    rw [List.foldl_append, ih]
    rfl

theorem foldl_rounds {round conflicts : Nat} {calls : List Exchange} (h : Rounds p round conflicts calls) :
    calls.foldl (note p) (.within 0 .start) = .within round .start := by
  induction h with
  | none => rfl
  | next _ commits ih =>
    rw [List.foldl_append, ih]
    exact foldl_runs commits

end Standing

theorem Rounds.not_batchFailed {round conflicts : Nat} {calls : List Exchange}
    (h : Rounds p round conflicts calls) : ¬ BatchFailed p calls := by
  rintro ⟨round', conflicts', before, now, more, stop, hbefore, hnow, rfl⟩
  have hstanding := Standing.foldl_rounds h
  rw [List.foldl_append, List.foldl_append, Standing.foldl_rounds hbefore, Standing.foldl_runs hnow,
    Standing.reached, Standing.foldl_failed] at hstanding
  cases hstanding

theorem Finished.not_batchFailed (h : Finished p place log none) : ¬ BatchFailed p (exchanges log) := by
  cases h with
  | through rounds => exact rounds.not_batchFailed
  | halted rounds =>
    rw [Crew.exchanges_quiet rfl]
    exact rounds.not_batchFailed

/-- A worker that has failed in a batch comes to its end by dropping its session. -/
theorem Driven.dropped_of_batchFailed {result : Option Stop} (h : Driven p place log result)
    (hfailed : BatchFailed p (exchanges log)) :
    (∃ reply, .call place .dropSession reply ∈ log) ∧ ∀ reply, .call place .close reply ∉ log := by
  cases h with
  | unopened => exact absurd hfailed Rounds.none.not_batchFailed
  | closed finished | closeFailed finished =>
    rw [Crew.exchanges_quiet rfl] at hfailed
    exact absurd hfailed finished.not_batchFailed
  | @dropped log why reply finished unclosed =>
    refine ⟨⟨reply, List.mem_append_right _ List.mem_cons_self⟩, fun other hmem => ?_⟩
    rcases List.mem_append.mp hmem with hold | hnew
    · exact unclosed other hold
    · simp at hnew

end Failing

end InsertBench.Worker
