import InsertBench.Proofs.Bench.Releases

/-! # How a failure stops the other workers

Once the halt flag is up it stays up, and it goes up only after a worker has failed or could not be started.
From then on a worker starts one more batch at most, and only if it had passed its check of the flag before.
A batch that was started runs to its own end, whatever becomes of the flag meanwhile.
-/
namespace InsertBench

namespace Crew

/-- What the events of a worker tell about its batches: whether its latest check of the flag lets it start
one, and how many it has started. -/
structure Starts where
  cleared : Bool
  count : Nat

/-- A batch starts when the clock is read after a check that found the flag down. -/
def Starts.note (s : Starts) : Event → Starts
  | .readHalt _ raised => { s with cleared := !raised }
  | .readClock .. => if s.cleared then ⟨false, s.count + 1⟩ else s
  | _ => s

def starts (log : List Event) : Starts := log.foldl .note ⟨false, 0⟩

theorem starts_concat (log : List Event) (event : Event) :
    starts (log ++ [event]) = (starts log).note event := by
  simp [starts]

def Starts.most (s : Starts) : Nat := s.count + if s.cleared then 1 else 0

theorem Starts.most_note_le (s : Starts) {event : Event} (h : ∀ place raised, event = .readHalt place raised →
    raised = true) : (s.note event).most ≤ s.most := by
  obtain ⟨cleared, count⟩ := s
  cases event with
  | readHalt place raised =>
    obtain rfl := h _ _ rfl
    exact Nat.le_add_right ..
  | readClock place now =>
    cases cleared
    · exact Nat.le_refl _
    · exact Nat.le_refl _
  | _ => exact Nat.le_refl _

variable {σ : Type}

/-- What holds from the moment on at which the flag went up. -/
structure AfterRaise (before after : List Event) (c : Crew σ) : Prop where
  halt : c.halt = true
  saw {place : Nat} {raised : Bool} : .readHalt place raised ∈ after → raised = true
  most (place : Nat) : (starts (eventsOf (before ++ after) place)).most ≤
    (starts (eventsOf before place)).most

theorem AfterRaise.acted {before after : List Event} {c d : Crew σ} {event : Event} {w : Worker}
    (h : AfterRaise before after c) (hacted : Acted c event d w) :
    AfterRaise before (after ++ [event]) d where
  halt := by rw [hacted.halt, h.halt, Bool.true_or]
  saw {place raised} hmem := by
    rcases List.mem_append.mp hmem with hold | hnew
    · exact h.saw hold
    · rw [hacted.saw (List.mem_singleton.mp hnew).symm, h.halt]
  most place := by
    rw [← List.append_assoc, eventsOf_append, eventsOf_singleton]
    split
    · rw [starts_concat]
      refine (Starts.most_note_le _ fun _ _ he => ?_).trans (h.most place)
      rw [hacted.saw he, h.halt]
    · rw [List.append_nil]
      exact h.most place

theorem exists_raise_concat (log : List Event) (event : Event) :
    (∃ place, .raiseHalt place ∈ log ++ [event]) ↔
      (∃ place, .raiseHalt place ∈ log) ∨ event.action = .raiseHalt := by
  constructor
  · rintro ⟨place, hmem⟩
    rcases List.mem_append.mp hmem with hold | hnew
    · exact .inl ⟨place, hold⟩
    · rw [← List.mem_singleton.mp hnew]
      exact .inr rfl
  · rintro (⟨place, hmem⟩ | hraise)
    · exact ⟨place, List.mem_append_left _ hmem⟩
    · cases event with
      | raiseHalt place => exact ⟨place, List.mem_append_right _ List.mem_cons_self⟩
      | _ => cases hraise

/-- The flag is up exactly if somebody raised it, and then it has its effect. -/
structure Heeded (log : List Event) (c : Crew σ) : Prop where
  flag : c.halt = true ↔ ∃ place, .raiseHalt place ∈ log
  after {before after : List Event} {place : Nat} :
    log = before ++ .raiseHalt place :: after → AfterRaise before (.raiseHalt place :: after) c

theorem Heeded.acted {log : List Event} {c d : Crew σ} {event : Event} {w : Worker} (h : Heeded log c)
    (hacted : Acted c event d w) : Heeded (log ++ [event]) d where
  flag := by rw [hacted.halt, Bool.or_eq_true, decide_eq_true_eq, h.flag, exists_raise_concat]
  after {before after place} hsplit := by
    rcases split_concat hsplit with ⟨rfl, rfl, rfl⟩ | ⟨rest, rfl, hlog⟩
    · refine ⟨?_, fun hmem => by simp at hmem, fun other => ?_⟩
      · rw [hacted.halt]
        exact Bool.or_true _
      · rw [eventsOf_append, eventsOf_singleton]
        split
        · rw [starts_concat]
          exact Nat.le_refl _
        · rw [List.append_nil]
    · rw [← List.cons_append]
      exact (h.after hlog).acted hacted

theorem Follows.heeded {c d : Crew σ} {log : List Event} (h : Follows c log d) (hc : c.halt = false) :
    Heeded log d :=
  h.keeps (P := Heeded) (fun _ _ _ _ _ hP hacted => hP.acted hacted) (fun _ _ _ hP => ⟨hP.flag, fun he =>
    ⟨(hP.after he).halt, (hP.after he).saw, (hP.after he).most⟩⟩) []
    ⟨by simp [hc], fun hsplit => by simp at hsplit⟩

end Crew

namespace Worker

open Crew (Event exchanges starts)

/-- Of so many batches that were started all but the last have committed, and the last one has committed or
failed, or it is the one that is under way. -/
inductive Launched (p : Post) (calls : List Exchange) : Nat → Option Batch → Prop
  | committed {round conflicts : Nat} (rounds : Rounds p round conflicts calls) : Launched p calls round none
  | failed {round conflicts : Nat} {before now : List Exchange} {stop : Stop}
      (rounds : Rounds p round conflicts before)
      (fails : Batch.Runs (p.plan round) .start now (.over (.error stop))) (split : calls = before ++ now) :
      Launched p calls (round + 1) none
  | underway {round conflicts : Nat} {before now : List Exchange} {batch : Batch}
      (rounds : Rounds p round conflicts before)
      (runs : Batch.Runs (p.plan round) .start now (.more batch)) (split : calls = before ++ now) :
      Launched p calls (round + 1) (some batch)

def Stage.batch? : Stage → Option Batch
  | .running _ _ batch => some batch
  | _ => none

/-- The batches that a worker has started are those of its rounds, with the one it is in. -/
def StageStarts (log : List Event) (p : Post) (t : Tally) : Stage → Prop
  | .opening | .polling _ | .closing | .ended none => starts log = ⟨false, t.batches.toNat⟩
  | .starting _ => starts log = ⟨true, t.batches.toNat⟩
  | .running round _ _ | .stopping round _ _ => starts log = ⟨false, round + 1⟩
  | _ => (starts log).cleared = false ∧ Launched p (exchanges log) (starts log).count none

structure Starting (p : Post) (place : Nat) (log : List Event) (w : Worker) : Prop extends
    Course p place log w where
  counted : StageStarts log p w.tally w.stage

variable {p : Post} {place : Nat} {log : List Event} {event : Event} {w : Worker}

theorem starts_call (log : List Event) (place : Nat) (request : Request) (reply : Reply) :
    starts (log ++ [.call place request reply]) = starts log := by rw [Crew.starts_concat]; rfl

theorem stageStarts_goOn {t : Tally} (hfit : w.post.Fit) (round : Nat)
    (h : starts log = ⟨false, t.batches.toNat⟩) :
    StageStarts log p ({ w with tally := t }.goOn round).tally ({ w with tally := t }.goOn round).stage := by
  rw [goOn_eq (w := { w with tally := t }) hfit]
  dsimp only [moveTo]
  split <;> exact h

theorem stageStarts_fail {stop : Stop} (h : (starts log).cleared = false)
    (hl : Launched p (exchanges log) (starts log).count none) :
    StageStarts log p (w.fail stop).tally (w.fail stop).stage := by
  cases stop <;> exact ⟨h, hl⟩

theorem Starting.running (h : Starting p place log w) {round : Nat} {since : UInt64} {batch : Batch}
    (stage : w.stage = .running round since batch) (other : Nat) (reply : Reply) :
    StageStarts (log ++ [.call other (batch.next (w.plan round)) reply]) p (w.answer reply).tally
      (w.answer reply).stage := by
  obtain ⟨⟨rfl, _, hran, _, _⟩, hstarts⟩ := h
  rw [stage] at hstarts
  change starts log = _ at hstarts
  rcases hran.answered stage other reply with
    ⟨_, he⟩ | ⟨_, he⟩ | ⟨stop, _, before, now, he, hbefore, hfails, hcalls⟩ <;> rw [he]
  · change starts _ = _
    rw [starts_call, hstarts]
  · change starts _ = _
    rw [starts_call, hstarts]
  · change (starts _).cleared = false ∧ _
    rw [starts_call, hstarts]
    exact ⟨rfl, .failed hbefore hfails hcalls⟩

theorem Starting.moves (h : Starting p place log w) {v : Worker} (hm : Moves w event v)
    (hidle : ∀ round since batch, w.stage ≠ .running round since batch) :
    StageStarts (log ++ [event]) p v.tally v.stage := by
  obtain ⟨⟨rfl, hon, hran, _, hcourse⟩, hstarts⟩ := h
  have hstage := hon.stage
  rw [Ran] at hran
  cases hm with
  | opened stage =>
    rw [stage] at hstarts
    apply stageStarts_goOn (t := w.tally) hon.fit
    rw [starts_call]
    exact hstarts
  | openFailed stage | closeFailed stage =>
    rw [stage] at hstarts hran
    change starts log = _ at hstarts
    apply stageStarts_fail
    · rw [starts_call, hstarts]
    · rw [starts_call, hstarts, Crew.exchanges_quiet rfl]
      exact .committed hran
  | carriedOn stage | halted stage =>
    rw [stage] at hstarts
    change starts log = _ at hstarts
    change starts _ = _
    rw [Crew.starts_concat, hstarts]
    rfl
  | started stage =>
    rw [stage] at hstarts hstage
    change starts log = _ at hstarts
    change starts _ = _
    rw [Crew.starts_concat, hstarts, hstage.2]
    rfl
  | counted stage added =>
    rw [stage] at hstarts hstage
    change starts log = _ at hstarts
    obtain ⟨_, _, hbatches, _, _⟩ := addBatch_eq_ok added
    apply stageStarts_goOn hon.fit
    rw [Crew.starts_concat, hstarts, hbatches, hstage.2]
    rfl
  | uncounted stage _ =>
    rw [stage] at hstarts hran
    change starts log = _ at hstarts
    change (starts _).cleared = false ∧ _
    rw [Crew.starts_concat, hstarts, Crew.exchanges_quiet rfl]
    exact ⟨rfl, .committed hran⟩
  | closed stage =>
    rw [stage] at hstarts
    change starts _ = _
    rw [starts_call]
    exact hstarts
  | released stage =>
    rw [stage] at hstarts
    obtain ⟨hcleared, hlaunched⟩ := hstarts
    apply stageStarts_fail
    · rw [starts_call, hcleared]
    · rw [starts_call, Crew.exchanges_quiet rfl]
      exact hlaunched
  | left stage =>
    rw [stage] at hcourse
    exact hcourse.elim
  | raised stage =>
    rw [stage] at hstarts
    obtain ⟨hcleared, hlaunched⟩ := hstarts
    change (starts _).cleared = false ∧ Launched _ _ (starts _).count none
    rw [Crew.starts_concat, Crew.exchanges_quiet rfl]
    exact ⟨hcleared, hlaunched⟩
  | begun stage | beginFailed stage | inserted stage | lockedOut stage | insertFailed stage
  | redone stage _ | gaveUp stage | prepared stage | prepareFailed stage | committed stage
  | commitFailed stage | rolledBack stage => exact absurd stage (hidle _ _ _)

theorem Starting.after (h : Starting p place log w) (hplace : event.worker = place)
    (hn : w.next = some event.action) : Starting p place (log ++ [event]) (w.after event) where
  toCourse := h.toCourse.after hplace hn
  counted := by
    rcases running_or_moves hn with ⟨round, since, batch, other, reply, stage, rfl⟩ | ⟨hm, hidle⟩
    · exact h.running stage other reply
    · exact h.moves hm hidle

theorem Newly.starting (h : Newly p w) (hfit : p.Fit) : Starting p place [] w where
  toCourse := h.course hfit
  counted := by
    rcases h with rfl | rfl
    · rfl
    · exact stageStarts_goOn (w := new p) (t := .zero p.id) hfit 0 rfl

theorem Starting.launched (h : Starting p place log w) :
    Launched p (exchanges log) (starts log).count w.stage.batch? := by
  obtain ⟨⟨rfl, _, hran, _, hcourse⟩, hstarts⟩ := h
  rw [Ran] at hran
  cases stage : w.stage with
  | running round since batch =>
    rw [stage] at hran hstarts
    change starts log = _ at hstarts
    obtain ⟨before, now, hbefore, hnow, hcalls⟩ := hran
    rw [hstarts]
    exact .underway hbefore hnow hcalls
  | releasing why | raising why =>
    rw [stage] at hstarts
    exact hstarts.2
  | leaving =>
    rw [stage] at hcourse
    exact hcourse.elim
  | ended stop =>
    rw [stage] at hran hstarts
    cases stop with
    | none =>
      change starts log = _ at hstarts
      rw [hstarts]
      exact .committed hran
    | some why => exact hstarts.2
  | _ =>
    rw [stage] at hran hstarts
    change starts log = _ at hstarts
    rw [hstarts]
    exact .committed hran

end Worker

namespace Bench

open Crew (Event eventsOf exchanges starts)
open Worker (Driven Launched Rounds Starting)

/-- What the halt flag does to a run, at any time in it. -/
structure Halts {σ : Type} (b : Bench) (createdAt : Int64) (short : Option Crew.Shortage) (log : List Event)
    (d : Crew σ) : Prop where
  flag : d.halt = true ↔ ∃ place, .raiseHalt place ∈ log
  stays (before after : List Event) (place : Nat) : log = before ++ .raiseHalt place :: after →
    d.halt = true ∧ ∀ other raised, .readHalt other raised ∈ after → raised = true
  /-- One batch more at most, and only after a check that was passed before. -/
  few (before after : List Event) (place other : Nat) : log = before ++ .raiseHalt place :: after →
    (starts (eventsOf log other)).count ≤ (starts (eventsOf before other)).count +
      if (starts (eventsOf before other)).cleared then 1 else 0
  /-- A batch that was started has committed or failed, if it is not under way. -/
  whole (place : Nat) (w : Worker) : d.workers[place]? = some w →
    Launched (b.post createdAt place) (exchanges (eventsOf log place)) (starts (eventsOf log place)).count
      w.stage.batch?
  /-- The flag is raised after a failure, or because there is no thread for a worker. -/
  cause (before after : List Event) (place : Nat) : log = before ++ .raiseHalt place :: after →
    (∃ why, Driven (b.post createdAt place) place (eventsOf before place) (some (.failed why))) ∨
      ∃ found ∈ short, place = found.place
  /-- If all workers start and nobody fails, nobody sees the flag up,
    and who ends well has done all rounds. -/
  full : short = none → (∀ w ∈ d.workers, ∀ why, w.stage ≠ .ended (some (.failed why))) →
    (∀ place, .readHalt place true ∉ log) ∧ ∀ place w, d.workers[place]? = some w → w.stage = .ended none →
      ∃ conflicts, Rounds (b.post createdAt place) b.workload.roundCount conflicts
        (exchanges (eventsOf log place))

variable {σ : Type} {store : Store σ} {b : Bench} {createdAt : Int64} {base : Nat} {s : σ}
  {short : Option Crew.Shortage} {log : List Event} {d : Crew σ}
  {goes : Crew σ → List Event → Crew σ → Prop}

theorem starting_of_reaches (hgoes : ∀ {c log d}, goes c log d → Crew.Follows c log d)
    (hw : b.workload.Accepted) (h : b.Reaches createdAt store base goes s short log d) :
    Crew.Each (Crew.Employed short (b.post createdAt)
      fun place log w => Starting (b.post createdAt place) place log w) log d :=
  h.employed (fun _ _ _ _ h hplace hn => h.after hplace hn) hgoes fun _ _ hplace hnew =>
    hnew.starting (post_fit hw hplace)

theorem launched_of_unstarted {found : Crew.Shortage} {p : Post} {place : Nat} {w : Worker}
    (h : Crew.Unstarted found p place log w) :
    Launched p (exchanges log) (starts log).count w.stage.batch? := by
  have hnone : w.stage.batch? = none := by
    have hstage := h.stage
    cases stage : w.stage with
    | running _ _ _ =>
      rw [stage] at hstage
      exact hstage.elim
    | _ => rfl
  rw [hnone]
  rcases h.log_cases with (rfl | ⟨reply, rfl⟩) | ⟨_, _, rfl, rfl | ⟨reply, rfl⟩⟩ <;> exact .committed .none

theorem cause_of_raise (hgoes : ∀ {c log d}, goes c log d → Crew.Follows c log d)
    (hw : b.workload.Accepted) (h : b.Reaches createdAt store base goes s short log d)
    {before after : List Event} {place : Nat} (hsplit : log = before ++ .raiseHalt place :: after) :
    (∃ why, Driven (b.post createdAt place) place (eventsOf before place) (some (.failed why))) ∨
      ∃ found ∈ short, place = found.place := by
  have hown : eventsOf log place = eventsOf before place ++ .raiseHalt place :: eventsOf after place := by
    rw [hsplit, Crew.eventsOf_append]
    simp [eventsOf, Event.worker]
  obtain ⟨v, hn, hcourse | ⟨found, hfound, _, hunstarted⟩⟩ := course_of_event hgoes hw h hown
  · obtain ⟨why, hstage⟩ := Worker.raising_of_next hn
    have hraising := hcourse.stage
    rw [hstage] at hraising
    exact .inl ⟨why, hraising⟩
  · obtain ⟨why, hstage⟩ := Worker.raising_of_next hn
    have hraising := hunstarted.stage
    rw [hstage] at hraising
    exact .inr ⟨found, hfound, hraising.1⟩

theorem rounds_of_ended {p : Post} {place : Nat} {w : Worker} (h : Worker.Course p place log w)
    (hstage : w.stage = .ended none) (hunseen : .readHalt place true ∉ log) :
    ∃ conflicts, Rounds p p.workload.roundCount conflicts (exchanges log) := by
  have hdriven := h.stage
  rw [hstage] at hdriven
  change Driven p place log none at hdriven
  cases hdriven with
  | closed finished =>
    rw [Crew.exchanges_quiet rfl]
    cases finished with
    | through rounds => exact ⟨_, rounds⟩
    | halted _ => simp at hunseen

/-- At any time in a run on any store, under any schedule of checks, raises and calls. -/
theorem halts_of_reaches (hw : b.workload.Accepted)
    (h : b.Reaches createdAt store base (Crew.Runs store base) s short log d) :
    b.Halts createdAt short log d := by
  have hfollows {c d : Crew σ} {log : List Event} (hr : Crew.Runs store base c log d) := hr.follows
  have hstarting := starting_of_reaches hfollows hw h
  have hheeded : Crew.Heeded log d := by
    obtain ⟨_, run⟩ := h
    exact run.follows.heeded rfl
  have horderly : Crew.Orderly log d := by
    obtain ⟨_, run⟩ := h
    exact run.follows.orderly rfl
  constructor
  case flag => exact hheeded.flag
  case stays =>
    intro before after place hsplit
    have hafter := hheeded.after hsplit
    exact ⟨hafter.halt, fun other raised hmem => hafter.saw (List.mem_cons_of_mem _ hmem)⟩
  case few =>
    intro before after place other hsplit
    have hmost := (hheeded.after hsplit).most other
    rw [← hsplit] at hmost
    exact (Nat.le_add_right ..).trans hmost
  case whole =>
    intro place w hget
    rcases (hstarting place w hget).cases with ⟨hstarts, _⟩ | ⟨_, _, _, hunstarted⟩
    · exact hstarts.launched
    · exact launched_of_unstarted hunstarted
  case cause => exact fun _ _ _ hsplit => cause_of_raise hfollows hw h hsplit
  case full =>
    rintro rfl hnone
    have hunseen (place : Nat) : .readHalt place true ∉ log := by
      intro hseen
      obtain ⟨other, w, why, hget, hstage⟩ := horderly.raised (horderly.seen hseen)
      exact hnone w (List.mem_of_getElem? hget) why hstage
    refine ⟨hunseen, fun place w hget hstage => ?_⟩
    have hcourse : Starting (b.post createdAt place) place (eventsOf log place) w := hstarting place w hget
    exact rounds_of_ended hcourse.toCourse hstage fun hmem => hunseen place (List.mem_filter.mp hmem).1

/-- A store that has no room for one key. -/
def withoutZero : Store Unit where
  name _ := "without zero"
  call
    | _, _, .insert key _ =>
      some (if key = 0 then .error (.failed (.reported "no room")) else .ok .accepted, ())
    | _, _, _ => some (.ok .accepted, ())
  rowCount _ _ := (.ok 0, ())
  shut _ := .ok ()

def twoRounds : Bench := ⟨⟨4, 1, 2, .lazy, false, .unbounded⟩, "t", false⟩

/-- The first worker fails and raises the flag when the second one has passed its check: the second one
starts and commits one batch, then sees the flag up and closes its session. -/
theorem halts_twoRounds : ∃ (log : List Event) (d : Crew Unit),
    twoRounds.Reaches 0 withoutZero 0 (Crew.Runs withoutZero 0) () none log d ∧
      log[9]? = some (.raiseHalt 0) ∧ log[15]? = some (.readHalt 1 true) ∧
        (starts (eventsOf log 0)).count = 1 ∧
      (starts (eventsOf log 1)).count = 1 ∧ d.workers.map (fun w => w.tally.batches) = [0, 1] ∧
      twoRounds.Halts 0 none log d := by
  have hruns : Crew.Runs withoutZero 0
      ⟨(), false, [.new (twoRounds.post 0 0), .new (twoRounds.post 0 1)]⟩ _ _ :=
    .turn 1 rfl <| .turn 1 rfl <| .turn 0 rfl <| .turn 0 rfl <| .turn 0 rfl <| .turn 0 rfl <| .turn 0 rfl <|
      .turn 0 rfl <| .turn 0 rfl <| .turn 0 rfl <| .turn 1 rfl <| .turn 1 rfl <| .turn 1 rfl <| .turn 1 rfl <|
      .turn 1 rfl <| .turn 1 rfl <| .turn 1 rfl <| .done _
  have hreaches : twoRounds.Reaches 0 withoutZero 0 (Crew.Runs withoutZero 0) () none _ _ := .hired rfl hruns
  exact ⟨_, _, hreaches, rfl, rfl, rfl, rfl, rfl, halts_of_reaches (by decide) hreaches⟩

/-- There is no thread for the second worker, and the flag goes up before the first one has done anything. The
first one closes its session without a batch, and the run fails, though no worker that started has failed. -/
theorem halted_without_failure : ∃ (log : List Event) (d : Crew Unit),
    twoRounds.Reaches 0 withoutZero 0 (Crew.Runs withoutZero 0) () (some threadless) log d ∧
      twoRounds.Returns 0 withoutZero 0 (Crew.Runs withoutZero 0) () (some threadless) log
        (.error (.failed (.during (.startWorker 1) (.reported "no thread left")))) () ∧
      d.halt = true ∧ log[0]? = some (.raiseHalt 1) ∧
      (∀ place why, ¬ Driven (twoRounds.post 0 place) place (eventsOf (log.take 0) place) (some why)) ∧
      .readHalt 0 true ∈ log ∧ twoRounds.workload.roundCount = 2 ∧ eventsOf log 1 = [.raiseHalt 1] ∧
      d.workers.map Worker.stage =
        [.ended none, .ended (some (.failed (.during (.startWorker 1) (.reported "no thread left"))))] ∧
      d.workers.map (fun w => w.tally.batches) = [0, 0] := by
  have hruns : Crew.Runs withoutZero 0 ⟨(), false, [.new (twoRounds.post 0 0),
        (Worker.new (twoRounds.post 0 1)).strand threadless.failure]⟩
      [.raiseHalt 1, .call 0 (.openSession "t") (.ok .accepted), .readHalt 0 true,
        .call 0 .close (.ok .accepted)]
      ⟨(), true, [⟨twoRounds.post 0 0, .zero 0, .ended none, []⟩,
        ⟨twoRounds.post 0 1, .zero 1, .ended (some (.failed threadless.failure)), []⟩]⟩ :=
    .turn 1 rfl <| .turn 0 rfl <| .turn 0 rfl <| .turn 0 rfl <| .done _
  have hreaches : twoRounds.Reaches 0 withoutZero 0 (Crew.Runs withoutZero 0) () (some threadless) _ _ :=
    .hired rfl hruns
  have hreturns := Returns.brokenOff (by decide) hreaches (by simp [Worker.next])
  refine ⟨_, _, hreaches, hreturns, rfl, rfl, ?_, by simp, rfl, rfl, rfl, rfl⟩
  intro place why hdriven
  exact absurd rfl hdriven.ne_nil

end Bench

end InsertBench
