import InsertBench.Proofs.Bench.Faults
import InsertBench.Proofs.Workload.Sizes

/-! # Nothing that a run computes faults

The sizes of an accepted workload bound all that is computed from them, and the conflicts of a run bound
all counts of conflicts. So while the conflicts have a word, only a store can bring a fault into a run.
-/
namespace InsertBench

def Stop.IsFailure : Stop → Prop
  | failed _ => True
  | crashed _ => False

/-- A value, or an error that is handed to the caller. -/
def Unfaulted {α : Type} : Except Stop α → Prop
  | .ok _ => True
  | .error stop => stop.IsFailure

/-- A store none of whose own calls faults. -/
structure Store.Steady {σ : Type} (store : Store σ) : Prop where
  call {s t : σ} {seat : Nat} {request : Request} {reply : Reply} :
    store.call s seat request = some (reply, t) → Unfaulted reply
  rowCount (s : σ) (table : String) : Unfaulted (store.rowCount s table).1

@[simp] theorem Stop.isFailure_during (stop : Stop) (activity : Activity) :
    (stop.during activity).IsFailure ↔ stop.IsFailure := by
  cases stop <;> rfl

namespace Batch

def Phase.NoFault : Phase → Prop
  | .rollingBack why => why.IsFailure
  | _ => True

def Progress.NoFault : Progress → Prop
  | .more b => b.phase.NoFault
  | .over result => Unfaulted result

variable {p : Plan} {b : Batch} {reply : Reply}

theorem noFault_phaseAt (h : p.Keyed) (offset : Nat) : (p.phaseAt offset).NoFault := by
  rw [h.phaseAt_eq]
  split
  · trivial
  · split <;> trivial

theorem noFault_redo {key : Int64} (hroom : b.conflicts.toNat + 1 < UInt64.size) :
    (b.redo p key).NoFault := by
  rcases redo_cases p b key with ⟨_, _, _, hredo⟩ | ⟨_, _, _, hredo⟩ | ⟨hfull, hredo⟩ <;> rw [hredo]
  · trivial
  · trivial
  · omega

/-- A batch whose keys have words faults only where a reply does, or where its conflicts have no word. -/
theorem noFault_answer (h : p.Keyed) (hb : b.phase.NoFault) (hreply : Unfaulted reply)
    (hroom : ∀ key, b.phase = .backingOut key → b.conflicts.toNat + 1 < UInt64.size) :
    (b.answer p reply).NoFault := by
  obtain ⟨conflicts, phase⟩ := b
  cases phase with
  | starting =>
    cases reply with
    | ok verdict => exact noFault_phaseAt h 0
    | error stop => exact (stop.isFailure_during _).mpr hreply
  | writing offset key =>
    match reply with
    | .ok .accepted => exact noFault_phaseAt h (offset + 1)
    | .ok .conflict => trivial
    | .error stop => exact (stop.isFailure_during _).mpr hreply
  | backingOut key =>
    cases reply with
    | ok verdict => exact noFault_redo (hroom key rfl)
    | error stop => exact (stop.isFailure_during _).mpr hreply
  | preparing id =>
    cases reply with
    | ok verdict => trivial
    | error stop => exact (stop.isFailure_during _).mpr hreply
  | committing =>
    cases reply with
    | ok verdict => trivial
    | error stop => exact (stop.isFailure_during _).mpr hreply
  | rollingBack why => exact hb

end Batch

namespace Worker

open Crew (Event)

def Stage.NoFault : Stage → Prop
  | .running _ _ batch => batch.phase.NoFault
  | .releasing why | .ended (some why) => why.IsFailure
  | _ => True

structure Bounded (log : List Event) : Prop where
  replies {place : Nat} {request : Request} {reply : Reply} : .call place request reply ∈ log →
    Unfaulted reply
  conflicts : log.countP Event.isConflict < UInt64.size

variable {w v : Worker} {log more : List Event} {event : Event} {place round : Nat}

theorem Bounded.sublist (h : Bounded log) (hsub : more.Sublist log) : Bounded more where
  replies hmem := h.replies (hsub.subset hmem)
  conflicts := hsub.countP_le.trans_lt h.conflicts

theorem noFault_goOn (h : w.post.Fit) (round : Nat) : (w.goOn round).stage.NoFault := by
  rw [goOn_eq h]
  dsimp only [moveTo]
  split <;> trivial

theorem noFault_fail {stop : Stop} (h : stop.IsFailure) : (w.fail stop).stage.NoFault := by
  cases stop with
  | failed why => trivial
  | crashed how => exact h.elim

theorem noFault_running (hon : w.OnTrack) (htold : Told log w) {since : UInt64} {batch : Batch}
    {reply : Reply} (stage : w.stage = .running round since batch)
    (hbounded : Bounded (log ++ [.call place (batch.next (w.plan round)) reply])) (hw : w.stage.NoFault) :
    (w.answer reply).stage.NoFault := by
  have hround := hon.stage
  rw [stage] at hround hw
  have hreply := hbounded.replies (List.mem_append_right log List.mem_cons_self)
  have hcounted := (hbounded.sublist (List.sublist_append_left ..)).conflicts
  -- a conflict that is still to be counted is in the log already
  have hroom (key : Int64) (hphase : batch.phase = .backingOut key) :
      batch.conflicts.toNat + 1 < UInt64.size := by
    rw [Told, stage, StageTold, hphase] at htold
    have hconflicts := htold.conflicts
    omega
  have hanswer := Batch.noFault_answer (plan_fit hon.fit hround.1).keyed hw hreply hroom
  simp only [answer, stage]
  generalize batch.answer (w.plan round) reply = progress at hanswer
  rcases progress with later | stop | conflicts
  · exact hanswer
  · exact (stop.isFailure_during _).mpr hanswer
  · trivial

theorem noFault_moves (hon : w.OnTrack) (htold : Told log w) (hm : Moves w event v)
    (hbounded : Bounded (log ++ [event])) (hw : w.stage.NoFault)
    (hidle : ∀ round since batch, w.stage ≠ .running round since batch) : v.stage.NoFault := by
  have hfailed {place : Nat} {request : Request} {stop : Stop}
      (he : event = .call place request (.error stop)) :
      stop.IsFailure := by
    subst he
    exact hbounded.replies (List.mem_append_right log List.mem_cons_self)
  cases hm with
  | opened _ => exact noFault_goOn hon.fit 0
  | @counted _ round _ _ _ tally _ _ => exact noFault_goOn (w := { w with tally }) hon.fit (round + 1)
  | openFailed _ | closeFailed _ => exact noFault_fail ((Stop.isFailure_during _ _).mpr (hfailed rfl))
  | carriedOn _ | halted _ | started _ | closed _ | left _ | raised _ => trivial
  | uncounted stage overflow =>
    have hcounted := (hbounded.sublist (List.sublist_append_left ..)).conflicts
    obtain ⟨tally, hadded⟩ := htold.addBatch_ok hon stage hcounted _
    rw [hadded] at overflow
    cases overflow
  | released stage =>
    rw [stage] at hw
    exact noFault_fail hw
  | begun stage | beginFailed stage | inserted stage | lockedOut stage | insertFailed stage
  | redone stage _ | gaveUp stage | prepared stage | prepareFailed stage | committed stage
  | commitFailed stage | rolledBack stage => exact absurd stage (hidle _ _ _)

theorem noFault_after (hon : w.OnTrack) (htold : Told log w) (hn : w.next = some event.action)
    (hbounded : Bounded (log ++ [event])) (hw : w.stage.NoFault) : (w.after event).stage.NoFault := by
  rcases running_or_moves hn with ⟨round, since, batch, place, reply, stage, rfl⟩ | ⟨hm, hidle⟩
  · exact noFault_running hon htold stage hbounded hw
  · exact noFault_moves hon htold hm hbounded hw hidle

end Worker

namespace Crew

open Worker (Bounded)

/-- A worker at its post does not fault while its log is bounded. -/
def UnfaultedAt (post : Nat → Post) (place : Nat) (log : List Event) (w : Worker) : Prop :=
  AtPost post place log w ∧ (Bounded log → w.stage.NoFault)

theorem unfaultedAt_keeps (post : Nat → Post) : EachKeeps (UnfaultedAt post) := by
  rintro place log w event ⟨hat, hfine⟩ hplace hn
  refine ⟨atPost_keeps post place log w event hat hplace hn, fun hbounded => ?_⟩
  have hw := hfine (hbounded.sublist (List.sublist_append_left ..))
  exact Worker.noFault_after hat.onTrack hat.told hn hbounded hw

theorem Unstarted.noFault {short : Shortage} {p : Post} {place : Nat} {log : List Event} {w : Worker}
    (h : Unstarted short p place log w) : w.stage.NoFault := by
  have hstage := h.stage
  rcases stage : w.stage with _ | _ | _ | _ | _ | _ | why | _ | why | (_ | why) <;> rw [stage] at hstage
  case releasing =>
    obtain ⟨_, rfl, _⟩ := hstage
    trivial
  case ended.some =>
    obtain ⟨_, rfl, _⟩ := hstage
    trivial
  case leaving | raising | ended.none => trivial
  all_goals exact hstage.elim

end Crew

theorem Worker.not_hasFaulted {w : Worker} (h : w.stage.NoFault) : w.hasFaulted = false := by
  unfold hasFaulted
  split
  · rename_i stage
    rw [stage] at h
    exact h.elim
  · rfl

namespace Bench

open Crew (Event)

/-- What a bench computes, on any store whose own calls do not fault, under any schedule, and whether or not
threads run short. -/
structure Computes (b : Bench) (createdAt : Int64) : Prop where
  rounds : ∃ rounds, b.workload.rounds = .ok rounds
  effectiveRows : ∃ rows, b.workload.effectiveRows = .ok rows
  droppedRows : ∃ dropped, b.workload.droppedRows = .ok dropped
  summary : ∃ line, b.workload.summary = .ok line
  keys {rounds thread round offset : UInt64} : b.workload.rounds = .ok rounds → thread < b.workload.threads →
    round < rounds → offset < b.workload.rowsPerTxn →
      ∃ key, b.workload.partition.key thread round offset = .ok key
  workers {σ : Type} {store : Store σ} {base : Nat} {s : σ} {short : Option Crew.Shortage} {log : List Event}
    {d : Crew σ} : store.Steady → b.Reaches createdAt store base (Crew.Runs store base) s short log d →
      log.countP Event.isConflict < UInt64.size → ∀ w ∈ d.workers, w.stage.NoFault
  result {σ : Type} {store : Store σ} {base : Nat} {s t : σ} {short : Option Crew.Shortage} {log : List Event}
    {result : Except Stop Report} : store.Steady →
    b.Returns createdAt store base (Crew.Runs store base) s short log result t →
      log.countP Event.isConflict < UInt64.size → Unfaulted result

variable {σ : Type} {store : Store σ} {base : Nat} {b : Bench} {createdAt : Int64} {s t : σ}
  {short : Option Crew.Shortage} {log : List Event} {d : Crew σ} {result : Except Stop Report}

theorem Reaches.noFault {goes : Crew σ → List Event → Crew σ → Prop}
    (hgoes : ∀ {c log d}, goes c log d → Crew.Follows c log d) (hw : b.workload.Accepted)
    (h : b.Reaches createdAt store base goes s short log d) (hbounded : Worker.Bounded log) :
    ∀ w ∈ d.workers, w.stage.NoFault := by
  have hemployed := h.employed (Crew.unfaultedAt_keeps (b.post createdAt)) hgoes fun place w hplace hnew => by
    have hfit : (b.post createdAt place).Fit := post_fit hw hplace
    refine ⟨⟨hnew.post, hnew.onTrack hfit, hnew.told hfit⟩, fun _ => ?_⟩
    rcases hnew with rfl | rfl
    · trivial
    · exact Worker.noFault_goOn hfit 0
  intro w hmem
  obtain ⟨place, hget⟩ := List.mem_iff_getElem?.mp hmem
  rcases (hemployed place w hget).cases with ⟨⟨_, hfine⟩, _⟩ | ⟨_, _, _, hunstarted⟩
  · exact hfine (hbounded.sublist List.filter_sublist)
  · exact hunstarted.noFault

theorem bounded_of_reaches (hsteady : store.Steady)
    (h : b.Reaches createdAt store base (Crew.Runs store base) s short log d)
    (hcounted : log.countP Event.isConflict < UInt64.size) : Worker.Bounded log := by
  obtain ⟨_, run⟩ := h
  exact ⟨run.answered (P := fun _ reply => Unfaulted reply) hsteady.call, hcounted⟩

theorem unfaulted_check (hsteady : store.Steady) {report : Report}
    (h : b.check store report s = (result, t)) : Unfaulted result := by
  have hcount := hsteady.rowCount s b.table
  unfold check at h
  split at h
  · split at h
    · rename_i stop _ hrows
      cases h
      rw [hrows] at hcount
      exact (stop.isFailure_during _).mpr hcount
    · split at h <;> cases h <;> trivial
  · cases h
    trivial

theorem Returns.unfaulted (hw : b.workload.Accepted) (hsteady : store.Steady)
    (h : b.Returns createdAt store base (Crew.Runs store base) s short log result t)
    (hcounted : log.countP Event.isConflict < UInt64.size) : Unfaulted result := by
  cases h with
  | unmanned hire =>
    obtain ⟨_, _, _, _, why, _, hcall, rfl⟩ := Crew.hire_stopped hire
    exact (why.isFailure_during _).mpr (hsteady.call hcall)
  | @manned _ d elapsed _ _ reached ended concluded =>
    have hunder := reached.underway Crew.Runs.follows hw
    rw [conclude] at concluded
    rcases collect_underway hw hunder hcounted (store.name d.store) elapsed with ⟨report, hok⟩ | ⟨why, hwhy⟩
    · rw [hok] at concluded
      exact unfaulted_check hsteady concluded
    · rw [hwhy] at concluded
      cases concluded
      trivial
  | brokenOff _ reached _ =>
    have hfine := reached.noFault Crew.Runs.follows hw (bounded_of_reaches hsteady reached hcounted)
    rw [breakOff, if_neg]
    · trivial
    · simpa using fun w hmem => Worker.not_hasFaulted (hfine w hmem)

theorem computes_of_accepted (hw : b.workload.Accepted) (createdAt : Int64) : b.Computes createdAt where
  rounds := ⟨_, hw.rounds_eq⟩
  effectiveRows := ⟨_, hw.effectiveRows_eq⟩
  droppedRows := ⟨_, hw.droppedRows_eq.1⟩
  summary := hw.summary_ok
  keys hrounds hthread hround hoffset := by
    rw [hw.rounds_eq, Except.ok.injEq] at hrounds
    have hcount := Word.toNat_toUInt64 b.workload.roundCount_lt
    rw [hrounds] at hcount
    exact ⟨_, hw.key_place hcount hthread hround hoffset⟩
  workers hsteady hreaches hcounted :=
    hreaches.noFault Crew.Runs.follows hw (bounded_of_reaches hsteady hreaches hcounted)
  result hsteady hreturns hcounted := hreturns.unfaulted hw hsteady hcounted

theorem shy_steady : shy.Steady where
  call {warm later seat request reply} hcall := by
    cases warm <;> cases request <;> cases hcall <;> trivial
  rowCount _ _ := trivial

/-- Two workers in turns: the first has just met the conflict that it will count once its batch is rolled
back, and the second has written its first row. -/
theorem computes_shy : twoRows.workload.Accepted ∧ shy.Steady ∧
    ∃ log d, twoRows.Reaches 0 shy 0 (Crew.Runs shy 0) false none log d ∧ log.countP Event.isConflict = 1 ∧
      ∀ w ∈ d.workers, w.stage.NoFault := by
  have hw : twoRows.workload.Accepted := by decide
  have hruns : Crew.Runs shy 0 ⟨false, false, [.new (twoRows.post 0 0), .new (twoRows.post 0 1)]⟩ _
      ⟨true, false, [⟨twoRows.post 0 0, .zero 0, .running 0 0 ⟨0, .backingOut 0⟩, _⟩,
        ⟨twoRows.post 0 1, .zero 1, .running 0 0 ⟨0, .writing 1 3⟩, _⟩]⟩ :=
    .turn 0 rfl <| .turn 1 rfl <| .turn 0 rfl <| .turn 1 rfl <| .turn 0 rfl <| .turn 1 rfl <|
      .turn 0 rfl <| .turn 1 rfl <| .turn 0 rfl <| .turn 1 rfl <| .done _
  have hreaches : twoRows.Reaches 0 shy 0 (Crew.Runs shy 0) false none _ _ := .hired rfl hruns
  exact ⟨hw, shy_steady, _, _, hreaches, rfl,
    (computes_of_accepted hw 0).workers shy_steady hreaches (by decide)⟩

end Bench

end InsertBench
