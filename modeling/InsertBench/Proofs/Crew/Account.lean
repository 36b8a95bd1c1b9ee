import InsertBench.Proofs.Worker.OnTrack

/-! # What a log tells about transactions

The log of a worker tells which keys it inserted in a transaction, on which transactions it called
commit, which names it gave to prepared transactions, and how often it met a conflict. All of this
follows from how far the worker has come, whatever the store replied.
-/
namespace InsertBench

namespace Crew

/-- What the events of one worker tell about its transactions. -/
structure Account where
  /-- The keys inserted in the transaction that was begun last. -/
  current : List Int64
  /-- The keys of each transaction on which commit was called. -/
  commits : List (List Int64)

namespace Account

def blank : Account := ⟨[], []⟩

def note (a : Account) : Event → Account
  | .call _ .beginTxn (.ok _) => { a with current := [] }
  | .call _ (.insert key _) (.ok .accepted) => { a with current := a.current ++ [key] }
  | .call _ .commit _ => { a with commits := a.commits ++ [a.current] }
  | _ => a

end Account

def account (log : List Event) : Account := log.foldl .note .blank

theorem account_concat (log : List Event) (event : Event) :
    account (log ++ [event]) = (account log).note event := by
  simp [account]

def Event.isConflict : Event → Bool
  | .call _ (.insert ..) (.ok .conflict) => true
  | _ => false

def Event.prepared? : Event → Option UInt64
  | .call _ (.prepare id) _ => some id
  | _ => none

end Crew

def Post.batchName (p : Post) (round : Nat) : UInt64 := (p.workload.keyAt p.id.toNat round 0).toUInt64

namespace Worker

open Crew (Event account)

/-- The log shows so many commits and prepares, of the first batches in order, and so many conflicts. -/
structure Tells (log : List Event) (p : Post) (commits prepares conflicts : Nat) : Prop where
  commits : (account log).commits = (List.range commits).map (p.workload.batchKeys p.id.toNat)
  prepares : log.filterMap Event.prepared? =
    if p.workload.twoPhase then (List.range prepares).map p.batchName else []
  conflicts : log.countP Event.isConflict = conflicts

def Written (log : List Event) (p : Post) (round offset : Nat) : Prop :=
  (account log).current = (List.range offset).map (p.workload.keyAt p.id.toNat round)

def TellsPart (log : List Event) (p : Post) : Prop :=
  ∃ commits ≤ p.workload.roundCount, ∃ prepares ≤ p.workload.roundCount, ∃ conflicts,
    Tells log p commits prepares conflicts

/-- What the log shows while a batch runs, after so many conflicts before its latest attempt. -/
def PhaseTold (log : List Event) (p : Post) (round conflicts : Nat) : Batch.Phase → Prop
  | .starting => Tells log p round round conflicts
  | .writing offset _ => Tells log p round round conflicts ∧ Written log p round offset
  | .backingOut _ => Tells log p round round (conflicts + 1)
  | .preparing _ => Tells log p round round conflicts ∧ Written log p round p.workload.width
  | .committing => Tells log p round (round + 1) conflicts ∧ Written log p round p.workload.width
  | .rollingBack _ => TellsPart log p

def StageTold (log : List Event) (p : Post) (t : Tally) : Stage → Prop
  | .opening | .polling _ | .starting _ => Tells log p t.batches.toNat t.batches.toNat t.conflicts.toNat
  | .running round _ batch =>
    PhaseTold log p round (t.conflicts.toNat + batch.conflicts.toNat) batch.phase
  | .stopping round _ conflicts =>
    Tells log p (round + 1) (round + 1) (t.conflicts.toNat + conflicts.toNat)
  | .closing | .ended none =>
    Tells log p t.batches.toNat t.batches.toNat t.conflicts.toNat ∧
      (t.batches.toNat = p.workload.roundCount ∨ ∃ place, .readHalt place true ∈ log)
  | .releasing _ | .raising _ | .ended (some _) => TellsPart log p
  | .leaving => False

/-- What the log of a worker shows is determined by how far it has come. -/
def Told (log : List Event) (w : Worker) : Prop := StageTold log w.post w.tally w.stage

variable {log : List Event} {event : Event} {p : Post} {commits prepares conflicts round : Nat}

theorem Tells.quiet (h : Tells log p commits prepares conflicts)
    (hcommits : ((account log).note event).commits = (account log).commits)
    (hprepared : event.prepared? = none) (hconflict : event.isConflict = false) :
    Tells (log ++ [event]) p commits prepares conflicts where
  commits := by rw [Crew.account_concat, hcommits, h.commits]
  prepares := by
    rw [List.filterMap_append, h.prepares]
    simp [hprepared]
  conflicts := by simp [List.countP_append, h.conflicts, hconflict]

theorem Tells.conflict (h : Tells log p commits prepares conflicts) {place : Nat} {key : Int64}
    {value : Bytes} : Tells (log ++ [.call place (.insert key value) (.ok .conflict)]) p commits prepares
      (conflicts + 1) where
  commits := by
    rw [Crew.account_concat]
    exact h.commits
  prepares := by
    rw [List.filterMap_append, h.prepares]
    simp [Event.prepared?]
  conflicts := by simp [List.countP_append, h.conflicts, Event.isConflict]

theorem Tells.prepare (h : Tells log p commits prepares conflicts) (htwo : p.workload.twoPhase = true)
    {place : Nat} {reply : Reply} :
    Tells (log ++ [.call place (.prepare (p.batchName prepares)) reply]) p commits (prepares + 1)
      conflicts where
  commits := by
    rw [Crew.account_concat]
    exact h.commits
  prepares := by
    rw [List.filterMap_append, h.prepares, if_pos htwo, if_pos htwo, List.range_succ, List.map_append]
    rfl
  conflicts := by simp [List.countP_append, h.conflicts, Event.isConflict]

theorem Tells.commit (h : Tells log p commits prepares conflicts)
    (hw : Written log p commits p.workload.width) {place : Nat} {reply : Reply} :
    Tells (log ++ [.call place .commit reply]) p (commits + 1) prepares conflicts where
  commits := by
    rw [Crew.account_concat, List.range_succ, List.map_append, ← h.commits]
    exact congrArg (fun keys => (account log).commits ++ [keys]) hw
  prepares := by
    rw [List.filterMap_append, h.prepares]
    simp [Event.prepared?]
  conflicts := by simp [List.countP_append, h.conflicts, Event.isConflict]

theorem Tells.onePhase (h : Tells log p commits prepares conflicts) (htwo : p.workload.twoPhase = false)
    (other : Nat) : Tells log p commits other conflicts where
  commits := h.commits
  prepares := by rw [h.prepares, htwo]; rfl
  conflicts := h.conflicts

theorem Tells.part (h : Tells log p commits prepares conflicts) (hc : commits ≤ p.workload.roundCount)
    (hp : prepares ≤ p.workload.roundCount) : TellsPart log p := ⟨_, hc, _, hp, _, h⟩

theorem TellsPart.quiet (h : TellsPart log p)
    (hcommits : ((account log).note event).commits = (account log).commits)
    (hprepared : event.prepared? = none) (hconflict : event.isConflict = false) :
    TellsPart (log ++ [event]) p := by
  obtain ⟨_, hc, _, hp, _, htells⟩ := h
  exact (htells.quiet hcommits hprepared hconflict).part hc hp

variable {w : Worker}

theorem phaseTold_phaseAt (hfit : w.post.Fit) (hr : round < w.post.workload.roundCount) {offset : Nat}
    (ho : offset ≤ w.post.workload.width) (h : Tells log w.post round round conflicts)
    (hw : Written log w.post round offset) :
    PhaseTold log w.post round conflicts ((w.plan round).phaseAt offset) := by
  rw [(plan_fit hfit hr).keyed.phaseAt_eq]
  split
  · exact ⟨h, hw⟩
  · rename_i hlast
    obtain rfl : offset = w.post.workload.width := Nat.le_antisymm ho (Nat.not_lt.mp hlast)
    split
    · exact ⟨h, hw⟩
    · rename_i hone
      exact ⟨h.onePhase (eq_false_of_ne_true hone) _, hw⟩

theorem stageTold_goOn {t : Tally} (hfit : w.post.Fit) (ht : t.batches.toNat = round)
    (hr : round ≤ w.post.workload.roundCount) (h : Tells log w.post round round t.conflicts.toNat) :
    Told log ({ w with tally := t }.goOn round) := by
  rw [goOn_eq (w := { w with tally := t }) hfit]
  simp only [Told, moveTo]
  split
  · simpa only [StageTold, ht] using h
  · rename_i hlast
    refine ⟨by rwa [ht], .inl ?_⟩
    rw [ht]
    exact Nat.le_antisymm hr (Nat.not_lt.mp hlast)

theorem told_fail (h : TellsPart log w.post) (stop : Stop) : Told log (w.fail stop) := by
  cases stop <;> exact h

/-- The log of a worker goes on to tell how far it has come. -/
theorem Told.moves (h : Told log w) (hon : w.OnTrack) {v : Worker} (hm : Moves w event v) :
    Told (log ++ [event]) v := by
  have hstage := hon.stage
  have hle := hon.batches_le
  unfold Told at h
  cases hm with
  | opened stage =>
    rw [stage] at h hstage
    have hzero : w.tally.batches.toNat = 0 := congrArg UInt64.toNat hstage
    apply stageTold_goOn hon.fit hzero (Nat.zero_le _)
    rw [← hzero]
    exact Tells.quiet h rfl rfl rfl
  | openFailed stage =>
    rw [stage] at h
    exact told_fail ((Tells.quiet h rfl rfl rfl).part hle hle) _
  | carriedOn stage =>
    rw [stage] at h
    exact Tells.quiet h rfl rfl rfl
  | halted stage =>
    rw [stage] at h
    exact ⟨Tells.quiet h rfl rfl rfl, .inr ⟨_, List.mem_append_right _ List.mem_cons_self⟩⟩
  | started stage =>
    rw [stage] at h hstage
    rw [StageTold, hstage.2] at h
    exact Tells.quiet h rfl rfl rfl
  | begun stage =>
    rw [stage] at h hstage
    apply phaseTold_phaseAt hon.fit hstage.1 (Nat.zero_le _) (Tells.quiet h rfl rfl rfl)
    rw [Written, Crew.account_concat]
    rfl
  | beginFailed stage =>
    rw [stage] at h hstage
    exact (Tells.quiet h rfl rfl rfl).part hstage.1.le hstage.1.le
  | inserted stage =>
    rw [stage] at h hstage
    obtain ⟨hr, _, ho, rfl⟩ := hstage
    obtain ⟨htells, hw⟩ := h
    apply phaseTold_phaseAt hon.fit hr ho (Tells.quiet htells rfl rfl rfl)
    rw [Written, Crew.account_concat, List.range_succ, List.map_append, ← hw, plan_keyAt hr]
    rfl
  | lockedOut stage =>
    rw [stage] at h
    exact Tells.conflict h.1
  | insertFailed stage =>
    rw [stage] at h hstage
    exact (Tells.quiet h.1 rfl rfl rfl).part hstage.1.le hstage.1.le
  | redone stage count =>
    rw [stage] at h
    simp only [StageTold, PhaseTold, Nat.add_assoc, ← count] at h
    exact Tells.quiet h rfl rfl rfl
  | gaveUp stage =>
    rw [stage] at h hstage
    exact (Tells.quiet h rfl rfl rfl).part hstage.1.le hstage.1.le
  | prepared stage =>
    rw [stage] at h hstage
    obtain ⟨hr, _, htwo, rfl⟩ := hstage
    obtain ⟨htells, hw⟩ := h
    rw [plan_keyAt hr]
    refine ⟨htells.prepare htwo, ?_⟩
    rw [Written, Crew.account_concat]
    exact hw
  | prepareFailed stage =>
    rw [stage] at h hstage
    obtain ⟨hr, _, htwo, rfl⟩ := hstage
    rw [plan_keyAt hr]
    exact (h.1.prepare htwo).part hr.le hr
  | committed stage =>
    rw [stage] at h
    exact h.1.commit h.2
  | commitFailed stage =>
    rw [stage] at h hstage
    exact (h.1.commit h.2).part hstage.1 hstage.1
  | rolledBack stage =>
    rw [stage] at h
    exact TellsPart.quiet h rfl rfl rfl
  | counted stage added =>
    rw [stage] at h hstage
    obtain ⟨_, _, hbatches, hconflicts, _⟩ := addBatch_eq_ok added
    rw [hstage.2] at hbatches
    apply stageTold_goOn hon.fit hbatches hstage.1
    rw [hconflicts]
    exact Tells.quiet h rfl rfl rfl
  | uncounted stage _ =>
    rw [stage] at h hstage
    exact (Tells.quiet h rfl rfl rfl).part hstage.1 hstage.1
  | closed stage =>
    rw [stage] at h
    obtain ⟨htells, hwhy⟩ := h
    refine ⟨htells.quiet rfl rfl rfl, ?_⟩
    rcases hwhy with hall | ⟨place, hmem⟩
    · exact .inl hall
    · exact .inr ⟨place, List.mem_append_left _ hmem⟩
  | closeFailed stage =>
    rw [stage] at h
    exact told_fail ((h.1.quiet rfl rfl rfl).part hle hle) _
  | released stage =>
    rw [stage] at h
    exact told_fail (TellsPart.quiet h rfl rfl rfl) _
  | left stage =>
    rw [stage] at h
    exact h.elim
  | raised stage =>
    rw [stage] at h
    exact TellsPart.quiet h rfl rfl rfl

/-- As long as the conflicts that the log shows have a word, a worker can count a batch that is done. -/
theorem Told.addBatch_ok (h : Told log w) (hon : w.OnTrack) {since conflicts : UInt64}
    (stage : w.stage = .stopping round since conflicts) (hcounted : log.countP Event.isConflict < UInt64.size)
    (micros : UInt64) :
    ∃ tally, w.tally.addBatch w.post.workload.rowsPerTxn conflicts micros = .ok tally := by
  have hstage := hon.stage
  rw [Told, stage] at h
  rw [stage] at hstage
  rw [h.conflicts] at hcounted
  exact hon.addBatch_ok (by rw [hstage.2]; exact hstage.1) hcounted micros

theorem told_new {post : Post} : Told [] (new post) where
  commits := rfl
  prepares := by split <;> rfl
  conflicts := rfl

theorem Told.part (h : Told log w) (hon : w.OnTrack) : TellsPart log w.post := by
  have hstage := hon.stage
  have hle := hon.batches_le
  unfold Told at h
  cases stage : w.stage with
  | running round since batch =>
    obtain ⟨count, phase⟩ := batch
    rw [stage] at h hstage
    have hr : round < w.post.workload.roundCount := hstage.1
    cases phase with
    | starting => exact Tells.part h hr.le hr.le
    | writing offset key => exact h.1.part hr.le hr.le
    | backingOut key => exact Tells.part h hr.le hr.le
    | preparing id => exact h.1.part hr.le hr.le
    | committing => exact h.1.part hr.le hr
    | rollingBack why => exact h
  | stopping round since count =>
    rw [stage] at h hstage
    exact Tells.part h hstage.1 hstage.1
  | closing =>
    rw [stage] at h
    exact h.1.part hle hle
  | ended stop =>
    rw [stage] at h
    cases stop with
    | none => exact h.1.part hle hle
    | some why => exact h
  | releasing why =>
    rw [stage] at h
    exact h
  | raising why =>
    rw [stage] at h
    exact h
  | leaving =>
    rw [stage] at h
    exact h.elim
  | _ =>
    rw [stage] at h
    exact Tells.part h hle hle

end Worker

end InsertBench
