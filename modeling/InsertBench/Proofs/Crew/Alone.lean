import InsertBench.Proofs.Bench.Returns
import InsertBench.Proofs.Worker.Rounds

/-! # Workers that are alone

The halt flag of a worker that is alone goes up only after the worker has failed. So a report that it
returns is about all of its rounds, and what it has committed by then does not depend on the store.
-/
namespace InsertBench

variable {σ : Type}

namespace Crew

def alone (w : Worker) (s : σ) : Crew σ := ⟨s, false, [w]⟩

def Reported (c : Crew σ) (report : Tally) : Prop := ∃ w, c.workers = [w] ∧ w.result? = some (.ok report)

end Crew

namespace Worker

open Crew (Event exchanges)

/-- What holds of a worker at a post at any time, with its events so far. -/
structure OnDuty (post : Post) (log : List Event) (w : Worker) : Prop where
  id : w.tally.id = post.id
  post : w.post = post
  onTrack : w.OnTrack
  told : Told log w
  ran : Ran log w

/-- What a report of a worker tells, and what the worker has committed. -/
structure Completed (post : Post) (log : List Event) (report : Tally) : Prop where
  commits : committed (exchanges log) =
    (List.range post.workload.roundCount).map fun round => (post.plan round).transaction
  id : report.id = post.id
  rows : report.rows.toNat = post.workload.roundCount * post.workload.width
  batches : report.batches.toNat = post.workload.roundCount
  samples : report.latency.total.toNat = post.workload.roundCount
  conflicts : report.conflicts.toNat = log.countP Event.isConflict

variable {store : Store σ} {seat : Nat} {post : Post} {w v : Worker} {s : σ} {log : List Event}
  {d : Crew σ} {event : Event}

theorem Moves.tally_id (h : Moves w event v) : v.tally.id = w.tally.id := by
  have hfail (stop : Stop) : (w.fail stop).tally = w.tally := by cases stop <;> rfl
  cases h with
  | opened _ => rw [goOn_tally]
  | openFailed _ | closeFailed _ | released _ => rw [hfail]
  | counted _ added =>
    rw [goOn_tally]
    exact (addBatch_eq_ok added).1
  | _ => rfl

theorem OnDuty.after (h : OnDuty post log w) (hn : w.next = some event.action) :
    OnDuty post (log ++ [event]) (w.after event) where
  post := by rw [(moves_of_next hn).post, h.post]
  onTrack := h.onTrack.moves (moves_of_next hn)
  told := h.told.moves h.onTrack (moves_of_next hn)
  ran := h.ran.after h.onTrack hn
  id := by rw [(moves_of_next hn).tally_id, h.id]

theorem Newly.onDuty (h : Newly post w) (hfit : post.Fit) : OnDuty post [] w where
  post := h.post
  onTrack := h.onTrack hfit
  told := h.told hfit
  ran := by
    rcases h with rfl | rfl
    · exact ran_new
    · exact ran_goOn (w := new post) (t := .zero post.id) hfit 0 .none
  id := by
    rcases h with rfl | rfl
    · rfl
    · rw [goOn_tally]
      rfl

theorem onDuty_of_runs (h : Crew.Runs store seat (.alone w s) log d) (hfit : post.Fit) (hnew : Newly post w) :
    ∃ v, d.workers = [v] ∧ OnDuty post log v := by
  have hmanned : Crew.Manned 1 log d := h.follows.manned
  obtain ⟨v, hv⟩ := List.length_eq_one_iff.mp hmanned.length
  refine ⟨v, hv, ?_⟩
  have heach := h.follows.each (L := fun _ log w => OnDuty post log w)
    (fun _ _ _ _ hduty _ hn => hduty.after hn) (fun place u hu => ?_)
  · have hall : Crew.eventsOf log 0 = log :=
      List.filter_eq_self.mpr fun event hmem => by
        have := hmanned.acts hmem
        simp only [decide_eq_true_eq]
        omega
    have hduty := heach 0 v (by rw [hv]; rfl)
    rwa [hall] at hduty
  · obtain rfl : u = w := by
      cases place with
      | zero => exact (Option.some.inj hu).symm
      | succ place => cases hu
    exact hnew.onDuty hfit

/-- A report of a worker alone is about all of its rounds. -/
theorem completed_of_runs (h : Crew.Runs store seat (.alone w s) log d) (hfit : post.Fit)
    (hnew : Newly post w) {report : Tally} (hreport : d.Reported report) : Completed post log report := by
  obtain ⟨v, hv, hresult⟩ := hreport
  obtain ⟨u, hu, hduty⟩ := onDuty_of_runs h hfit hnew
  obtain rfl : v = u := List.singleton_inj.mp (hv.symm.trans hu)
  obtain ⟨hended, rfl⟩ := result?_eq_ok_iff.mp hresult
  have htold := hduty.told
  have hran := hduty.ran
  rw [Told, hended] at htold
  rw [Ran, hended] at hran
  have hall : v.tally.batches.toNat = post.workload.roundCount := by
    rcases htold.2 with hall | ⟨place, hseen⟩
    · rw [hall, hduty.post]
    · -- the flag was seen up, so a worker has failed; but the only one has not
      have horderly := h.follows.orderly rfl
      obtain ⟨other, failed, why, hget, hfailed⟩ := horderly.raised (horderly.seen hseen)
      rw [hv] at hget
      cases other with
      | zero =>
        cases hget
        rw [hended] at hfailed
        cases hfailed
      | succ other => cases hget
  rw [StageRan, hall, hduty.post] at hran
  refine ⟨hran.committed hfit (Nat.le_refl _), hduty.id, ?_, hall, ?_, htold.1.conflicts.symm⟩
  · rw [hduty.onTrack.rows, hall, hduty.post]
  · rw [hduty.onTrack.samples, hall]

end Worker

end InsertBench
