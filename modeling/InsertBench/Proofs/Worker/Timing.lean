import InsertBench.Proofs.Bench.Returns
import InsertBench.Proofs.Latency.Holding

/-! # What a worker measures

A worker reads the clock before each batch and again once the batch has committed. So its readings pair up
like those of a stopwatch, and as long as it goes on well its histogram holds the times between them.
-/
namespace InsertBench

/-- Since when a stopwatch has been running, if it is, and the times that it took before. -/
structure Stopwatch where
  since : Option UInt64
  taken : List UInt64

namespace Stopwatch

def press (watch : Stopwatch) (now : UInt64) : Stopwatch :=
  match watch.since with
  | none => ⟨some now, watch.taken⟩
  | some since => ⟨none, watch.taken ++ [now - since]⟩

theorem press_idle {watch : Stopwatch} (h : watch.since = none) (now : UInt64) :
    watch.press now = ⟨some now, watch.taken⟩ := by
  rw [press, h]

theorem press_running {watch : Stopwatch} {since : UInt64} (h : watch.since = some since) (now : UInt64) :
    watch.press now = ⟨none, watch.taken ++ [now - since]⟩ := by
  rw [press, h]

def see (watch : Stopwatch) : Crew.Event → Stopwatch
  | .readClock _ now => watch.press now
  | _ => watch

end Stopwatch

open Crew (Event)

def stopwatch (log : List Event) : Stopwatch := log.foldl .see ⟨none, []⟩

theorem stopwatch_concat (log : List Event) (event : Event) :
    stopwatch (log ++ [event]) = (stopwatch log).see event := by
  simp [stopwatch]

/-- The histogram that records each of these times once. -/
def Histogram.ofTimes (times : List UInt64) : Histogram := ofSamples (times.map (·, 1))

theorem Histogram.ofTimes_concat (times : List UInt64) (time : UInt64) :
    ofTimes (times ++ [time]) = (ofTimes times).record time 1 := by
  simp [ofTimes, ofSamples]

namespace Worker

def StageTimed (watch : Stopwatch) (latency : Histogram) : Stage → Prop
  | .opening | .polling _ | .starting _ | .closing | .leaving | .ended none =>
    watch.since = none ∧ latency = .ofTimes watch.taken
  | .running _ since _ | .stopping _ since _ => watch.since = some since ∧ latency = .ofTimes watch.taken
  | _ => True

/-- A worker that has not failed has recorded the times that it took. -/
def Timed (log : List Event) (w : Worker) : Prop := StageTimed (stopwatch log) w.tally.latency w.stage

variable {w v : Worker} {log : List Event} {event : Event}

theorem timed_goOn (round : Nat)
    (h : (stopwatch log).since = none ∧ w.tally.latency = .ofTimes (stopwatch log).taken) :
    Timed log (w.goOn round) := by
  unfold goOn
  split
  · unfold Timed
    dsimp only [moveTo]
    split <;> exact h
  · trivial

theorem timed_fail (w : Worker) (stop : Stop) : Timed log (w.fail stop) := by
  cases stop <;> trivial

theorem Newly.timed {p : Post} (h : Newly p w) : Timed [] w := by
  rcases h with rfl | rfl
  · exact ⟨rfl, rfl⟩
  · exact timed_goOn 0 ⟨rfl, rfl⟩

theorem Timed.moves (h : Timed log w) (hm : Moves w event v) : Timed (log ++ [event]) v := by
  have hwatch := stopwatch_concat log event
  unfold Timed at h
  cases hm with
  | opened stage =>
    rw [stage] at h
    exact timed_goOn 0 (by rw [hwatch]; exact h)
  | carriedOn stage | halted stage | begun stage | inserted stage | lockedOut stage | insertFailed stage
  | redone stage _ | prepared stage | prepareFailed stage | committed stage | closed stage | left stage =>
    rw [stage] at h
    rw [Timed, hwatch]
    exact h
  | started stage =>
    rw [stage] at h
    obtain ⟨hsince, hlatency⟩ := h
    rw [Timed, hwatch, Stopwatch.see, Stopwatch.press_idle hsince]
    exact ⟨rfl, hlatency⟩
  | counted stage added =>
    rw [stage] at h
    obtain ⟨hsince, hlatency⟩ := h
    obtain ⟨_, _, _, _, hrecorded⟩ := addBatch_eq_ok added
    refine timed_goOn _ ?_
    rw [hwatch, Stopwatch.see, Stopwatch.press_running hsince]
    exact ⟨rfl, by rw [hrecorded, hlatency, Histogram.ofTimes_concat]⟩
  | openFailed _ | closeFailed _ | released _ => exact timed_fail w _
  | beginFailed _ | gaveUp _ | commitFailed _ | rolledBack _ | uncounted _ _ | raised _ => trivial

end Worker

end InsertBench
