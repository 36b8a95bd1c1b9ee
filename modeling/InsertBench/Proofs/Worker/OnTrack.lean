import InsertBench.Proofs.Batch.Rows
import InsertBench.Proofs.Latency.Samples
import InsertBench.Proofs.Worker.Moves

/-! # Workers that keep to their keys

A worker that is hired for an accepted workload deals with the keys of its own batches only, round by
round, and its tally counts exactly the batches that it has committed: whatever the store replies and
whenever the halt flag is seen.
-/
namespace InsertBench

namespace Batch

def Phase.OnTrack (p : Plan) : Phase → Prop
  | .writing offset key => offset < p.workload.width ∧ key = p.keyAt offset
  | .backingOut key => ∃ offset < p.workload.width, key = p.keyAt offset
  | .preparing id => p.workload.twoPhase = true ∧ id = (p.keyAt 0).toUInt64
  | _ => True

theorem onTrack_phaseAt {p : Plan} (h : p.Fit) (offset : Nat) : (p.phaseAt offset).OnTrack p := by
  rw [h.keyed.phaseAt_eq]
  split
  · rename_i ho
    exact ⟨ho, rfl⟩
  · split
    · rename_i htwo
      exact ⟨htwo, rfl⟩
    · trivial

end Batch

/-- The workload of a post is accepted, and the worker is one of its threads. -/
structure Post.Fit (p : Post) : Prop where
  accepted : p.workload.Accepted
  thread : p.id.toNat < p.workload.crewSize

namespace Worker

variable {w : Worker}

theorem plan_fit (h : w.post.Fit) {round : Nat} (hr : round < w.post.workload.roundCount) :
    (w.plan round).Fit where
  accepted := h.accepted
  thread := h.thread
  round := by
    rw [plan, Word.toNat_toUInt64 (hr.trans w.post.workload.roundCount_lt)]
    exact hr

theorem plan_keyAt {round : Nat} (hr : round < w.post.workload.roundCount) (offset : Nat) :
    (w.plan round).keyAt offset = w.post.workload.keyAt w.post.id.toNat round offset := by
  rw [Batch.Plan.keyAt, plan, Word.toNat_toUInt64 (hr.trans w.post.workload.roundCount_lt)]

/-- The round of a worker is the number of batches that it has counted. -/
def StageOnTrack (w : Worker) : Stage → Prop
  | .opening => w.tally.batches = 0
  | .polling round | .starting round | .stopping round _ _ =>
    round < w.post.workload.roundCount ∧ w.tally.batches.toNat = round
  | .running round _ batch =>
    round < w.post.workload.roundCount ∧ w.tally.batches.toNat = round ∧ batch.phase.OnTrack (w.plan round)
  | _ => True

structure OnTrack (w : Worker) : Prop where
  fit : w.post.Fit
  stage : w.StageOnTrack w.stage
  rows : w.tally.rows.toNat = w.tally.batches.toNat * w.post.workload.width
  batches_le : w.tally.batches.toNat ≤ w.post.workload.roundCount
  faithful : w.tally.latency.Faithful
  samples : w.tally.latency.total = w.tally.batches

theorem goOn_eq (h : w.post.Fit) (round : Nat) :
    w.goOn round = w.moveTo (if round < w.post.workload.roundCount then .polling round else .closing) := by
  rw [goOn, h.accepted.rounds_eq]
  simp only [Word.toNat_toUInt64 w.post.workload.roundCount_lt]

theorem onTrack_new {post : Post} (h : post.Fit) : (new post).OnTrack where
  fit := h
  stage := rfl
  rows := by simp [new, Tally.zero]
  batches_le := by simp [new, Tally.zero]
  faithful := Histogram.faithful_empty
  samples := rfl

theorem OnTrack.moveTo (h : w.OnTrack) {stage : Stage} (hs : w.StageOnTrack stage) :
    (w.moveTo stage).OnTrack where
  fit := h.fit
  stage := hs
  rows := h.rows
  batches_le := h.batches_le
  faithful := h.faithful
  samples := h.samples

theorem OnTrack.asked (h : w.OnTrack) (round : Nat) (batch : Batch) : (w.asked round batch).OnTrack :=
  ⟨h.fit, h.stage, h.rows, h.batches_le, h.faithful, h.samples⟩

theorem OnTrack.goOn (h : w.OnTrack) {round : Nat} (hr : w.tally.batches.toNat = round) :
    (w.goOn round).OnTrack := by
  rw [goOn_eq h.fit]
  apply h.moveTo
  split
  · rename_i hlt
    exact ⟨hlt, hr⟩
  · trivial

theorem OnTrack.fail (h : w.OnTrack) (stop : Stop) : (w.fail stop).OnTrack := by
  cases stop <;> exact h.moveTo trivial

theorem addBatch_eq_ok {t u : Tally} {rows conflicts micros : UInt64}
    (h : t.addBatch rows conflicts micros = .ok u) :
    u.id = t.id ∧ u.rows.toNat = t.rows.toNat + rows.toNat ∧ u.batches.toNat = t.batches.toNat + 1 ∧
      u.conflicts.toNat = t.conflicts.toNat + conflicts.toNat ∧ u.latency = t.latency.record micros 1 := by
  unfold Tally.addBatch at h
  cases hrows : Word.add t.rows rows with
  | error _ => simp [hrows, bind, Except.bind] at h
  | ok rows' =>
    cases hbatches : Word.add t.batches 1 with
    | error _ => simp [hrows, hbatches, bind, Except.bind] at h
    | ok batches' =>
      cases hconflicts : Word.add t.conflicts conflicts with
      | error _ => simp [hrows, hbatches, hconflicts, bind, Except.bind] at h
      | ok conflicts' =>
        simp only [hrows, hbatches, hconflicts, bind, Except.bind, pure, Except.pure, Except.ok.injEq] at h
        subst h
        rw [Word.add_eq_ok_iff] at hrows hbatches hconflicts
        exact ⟨rfl, hrows.symm, hbatches.symm, hconflicts.symm, rfl⟩

theorem OnTrack.addBatch (h : w.OnTrack) {round : Nat} (hr : round < w.post.workload.roundCount)
    (hb : w.tally.batches.toNat = round) {tally : Tally} {conflicts micros : UInt64}
    (ht : w.tally.addBatch w.post.workload.rowsPerTxn conflicts micros = .ok tally) :
    ({ w with tally }.goOn (round + 1)).OnTrack := by
  obtain ⟨_, hrows, hbatches, _, hlatency⟩ := addBatch_eq_ok ht
  have hsize := w.post.workload.roundCount_lt
  have hwidth : w.post.workload.rowsPerTxn.toNat = w.post.workload.width := rfl
  have hsamples : w.tally.latency.total.toNat = round := by rw [h.samples, hb]
  have hone : (1 : UInt64).toNat = 1 := rfl
  obtain ⟨hfaithful, htotal⟩ := h.faithful.addTo (Histogram.slotOf micros) (n := 1) (by omega)
  have hnext : ({ w with tally } : Worker).tally.batches.toNat = round + 1 := by
    rw [← hb]
    exact hbatches
  rw [goOn_eq (w := { w with tally }) h.fit]
  refine ⟨h.fit, ?_, ?_, ?_, ?_, ?_⟩
  · dsimp only [Worker.moveTo]
    split
    · rename_i hlt
      exact ⟨hlt, hnext⟩
    · trivial
  · change tally.rows.toNat = tally.batches.toNat * w.post.workload.width
    rw [hrows, hbatches, h.rows, hwidth, Nat.succ_mul]
  · change tally.batches.toNat ≤ w.post.workload.roundCount
    omega
  · change tally.latency.Faithful
    rw [hlatency]
    exact hfaithful
  · change tally.latency.total = tally.batches
    rw [← UInt64.toNat_inj, hlatency, hbatches, Histogram.record, htotal, h.samples]
    rfl

/-- As long as its conflicts have a word, no count of a worker overflows. -/
theorem OnTrack.addBatch_ok (h : w.OnTrack) (hr : w.tally.batches.toNat < w.post.workload.roundCount)
    {conflicts : UInt64} (hsum : w.tally.conflicts.toNat + conflicts.toNat < UInt64.size) (micros : UInt64) :
    ∃ tally, w.tally.addBatch w.post.workload.rowsPerTxn conflicts micros = .ok tally := by
  have hmost := h.fit.accepted.rowTotal_lt
  have hsize : UInt64.size = 2 ^ 64 := rfl
  have hone : (1 : UInt64).toNat = 1 := rfl
  have hrounds := w.post.workload.roundCount_lt
  have hrows : w.tally.rows.toNat + w.post.workload.rowsPerTxn.toNat ≤ w.post.workload.rowTotal := by
    have hslice := Nat.mul_le_mul_right w.post.workload.width (Nat.succ_le_of_lt hr)
    have hall : w.post.workload.roundCount * w.post.workload.width ≤ w.post.workload.rowTotal :=
      Nat.mul_le_mul_right _ (Nat.le_mul_of_pos_right _ h.fit.accepted.sizes.2.1)
    rw [Nat.succ_mul, ← h.rows] at hslice
    exact hslice.trans hall
  unfold Tally.addBatch
  rw [Word.add_ok (by omega), Word.add_ok (by omega), Word.add_ok hsum]
  exact ⟨_, rfl⟩

theorem OnTrack.moves (h : w.OnTrack) {event : Crew.Event} {v : Worker} (hm : Moves w event v) :
    v.OnTrack := by
  have hstage := h.stage
  cases hm with
  | opened stage =>
    rw [stage] at hstage
    exact h.goOn (congrArg UInt64.toNat hstage)
  | openFailed _ => exact h.fail _
  | carriedOn stage =>
    rw [stage] at hstage
    exact h.moveTo hstage
  | halted _ => exact h.moveTo trivial
  | started stage =>
    rw [stage] at hstage
    exact h.moveTo ⟨hstage.1, hstage.2, trivial⟩
  | begun stage =>
    rw [stage] at hstage
    exact h.moveTo ⟨hstage.1, hstage.2.1, Batch.onTrack_phaseAt (plan_fit h.fit hstage.1) _⟩
  | beginFailed _ => exact h.moveTo trivial
  | inserted stage =>
    rw [stage] at hstage
    exact (h.asked _ _).moveTo ⟨hstage.1, hstage.2.1, Batch.onTrack_phaseAt (plan_fit h.fit hstage.1) _⟩
  | lockedOut stage =>
    rw [stage] at hstage
    obtain ⟨hr, hbatches, ho, hkey⟩ := hstage
    exact (h.asked _ _).moveTo ⟨hr, hbatches, _, ho, hkey⟩
  | insertFailed stage =>
    rw [stage] at hstage
    exact (h.asked _ _).moveTo ⟨hstage.1, hstage.2.1, trivial⟩
  | redone stage _ =>
    rw [stage] at hstage
    exact h.moveTo ⟨hstage.1, hstage.2.1, trivial⟩
  | gaveUp _ => exact h.moveTo trivial
  | prepared stage =>
    rw [stage] at hstage
    exact h.moveTo ⟨hstage.1, hstage.2.1, trivial⟩
  | prepareFailed stage =>
    rw [stage] at hstage
    exact h.moveTo ⟨hstage.1, hstage.2.1, trivial⟩
  | committed stage =>
    rw [stage] at hstage
    exact h.moveTo ⟨hstage.1, hstage.2.1⟩
  | commitFailed _ => exact h.moveTo trivial
  | rolledBack _ => exact h.moveTo trivial
  | counted stage added =>
    rw [stage] at hstage
    exact h.addBatch hstage.1 hstage.2 added
  | uncounted _ _ => exact h.moveTo trivial
  | closed _ => exact h.moveTo trivial
  | closeFailed _ => exact h.fail _
  | released _ => exact h.fail _
  | left _ => exact h.moveTo trivial
  | raised _ => exact h.moveTo trivial

end Worker

end InsertBench
