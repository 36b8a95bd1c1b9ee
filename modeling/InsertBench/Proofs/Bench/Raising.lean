import InsertBench.Proofs.Bench.Halting

/-! # Who raises the halt flag

A worker that fails raises the flag as the last thing it does, wherever its failure comes from. A worker
that faults never does: a fault unwinds it past the point where the flag is raised. So the flag is up
exactly if it was up before or somebody has failed, and the others hear nothing of a worker that faulted,
although it counts as one that failed.
-/
namespace InsertBench

namespace Worker

open Crew (Event)

def Stage.hasFailed : Stage → Bool
  | .ended (some (.failed _)) => true
  | _ => false

theorem hasFailed_iff {w : Worker} :
    w.stage.hasFailed = true ↔ ∃ why, w.result? = some (.error (.failed why)) := by
  unfold Stage.hasFailed result?
  split <;> split <;> simp_all

theorem hasFailed_goOn (w : Worker) (round : Nat) : (w.goOn round).stage.hasFailed = false := by
  unfold goOn
  split
  · dsimp only [moveTo]
    split <;> rfl
  · rfl

theorem hasFailed_fail (w : Worker) (stop : Stop) : (w.fail stop).stage.hasFailed = false := by
  cases stop <;> rfl

theorem Newly.not_hasFailed {p : Post} {w : Worker} (h : Newly p w) : w.stage.hasFailed = false := by
  rcases h with rfl | rfl
  · rfl
  · exact hasFailed_goOn _ _

variable {place : Nat} {log : List Event} {event : Event} {w v : Worker}

theorem Moves.hasFailed (h : Moves w event v) :
    v.stage.hasFailed = true ∧ event = .raiseHalt event.worker ∨
      v.stage.hasFailed = false ∧ event.action ≠ .raiseHalt := by
  cases h with
  | raised _ => exact .inl ⟨rfl, rfl⟩
  | opened _ | counted _ _ => exact .inr ⟨hasFailed_goOn _ _, nofun⟩
  | openFailed _ | closeFailed _ | released _ => exact .inr ⟨hasFailed_fail _ _, nofun⟩
  | _ => exact .inr ⟨rfl, nofun⟩

/-- A worker that has failed has raised the flag just then, and nobody else has raised it. -/
def Raised (place : Nat) (log : List Event) (w : Worker) : Prop :=
  if w.stage.hasFailed then ∃ before, log = before ++ [.raiseHalt place] else .raiseHalt place ∉ log

theorem raised_keeps : Crew.EachKeeps Raised := by
  rintro place log w event h rfl hn
  have hidle : w.stage.hasFailed = false := by
    rw [Bool.eq_false_iff]
    intro hf
    obtain ⟨why, hr⟩ := hasFailed_iff.mp hf
    unfold Stage.hasFailed at hf
    split at hf
    · rename_i hstage
      simp [next_ended hstage] at hn
    · cases hf
  rw [Raised, hidle] at h
  rw [Raised]
  rcases (moves_of_next hn).hasFailed with ⟨hf, he⟩ | ⟨hf, he⟩
  · rw [if_pos hf]
    exact ⟨log, by rw [← he]⟩
  · rw [if_neg (by simp [hf]), List.mem_append, List.mem_singleton]
    rintro (hold | hnew)
    · exact h hold
    · rw [← hnew] at he
      exact he rfl

end Worker

namespace Crew

variable {σ : Type} {store : Store σ} {base : Nat} {c d : Crew σ} {log : List Event}

theorem Runs.split {before after : List Event} (h : Runs store base c (before ++ after) d) :
    ∃ e, Runs store base c before e ∧ Runs store base e after d := by
  induction before generalizing c with
  | nil => exact ⟨c, .done c, h⟩
  | cons event before ih =>
    cases h with
    | act first rest =>
      obtain ⟨e, hbefore, hafter⟩ := ih rest
      exact ⟨e, .act first hbefore, hafter⟩

/-- The flag is up exactly if it was up before or somebody raised it. -/
theorem Follows.halt_iff (h : Follows c log d) :
    d.halt = true ↔ c.halt = true ∨ ∃ place, .raiseHalt place ∈ log := by
  refine h.keeps
    (P := fun log d => d.halt = true ↔ c.halt = true ∨ ∃ place, Event.raiseHalt place ∈ log)
    (fun log e event f w he hacted => ?_) (fun _ _ _ he => he) [] (by simp)
  rw [hacted.halt, Bool.or_eq_true, decide_eq_true_eq, he, exists_raise_concat, or_assoc]

theorem Runs.afterRaise {before after : List Event} {place : Nat}
    (h : Runs store base c (before ++ .raiseHalt place :: after) d) :
    AfterRaise before (.raiseHalt place :: after) d := by
  rw [List.append_cons] at h
  obtain ⟨e, hbefore, hafter⟩ := h.split
  have hraised : AfterRaise before [.raiseHalt place] e := by
    refine ⟨hbefore.follows.halt_iff.mpr (.inr ⟨place, by simp⟩), by simp, fun other => ?_⟩
    rw [eventsOf_append, eventsOf_singleton]
    split
    · rw [starts_concat]
      exact Nat.le_refl _
    · rw [List.append_nil]
  exact hafter.follows.keeps (P := fun log d => AfterRaise before log d)
    (fun _ _ _ _ _ hP hacted => hP.acted hacted) (fun _ _ _ hP => ⟨hP.halt, hP.saw, hP.most⟩) _ hraised

end Crew

namespace Bench

open Crew (Event eventsOf starts)
open Worker (Newly Raised)

/-- How the ends of workers show in the halt flag, and what the flag does. -/
structure Raises {σ : Type} (log : List Event) (c d : Crew σ) : Prop where
  /-- A worker that failed has raised the flag as the last thing it did. -/
  failed (place : Nat) (w : Worker) (why : Failure) : d.workers[place]? = some w →
    w.result? = some (.error (.failed why)) →
      d.halt = true ∧ ∃ before, eventsOf log place = before ++ [.raiseHalt place]
  /-- A worker that faulted counts as one that failed, and has not raised the flag. -/
  crashed (place : Nat) (w : Worker) (how : Fault) : d.workers[place]? = some w →
    w.result? = some (.error (.crashed how)) →
      outcome? w = some (.error .workerPanicked) ∧ .raiseHalt place ∉ log
  flag : d.halt = true ↔ c.halt = true ∨
    ∃ w ∈ d.workers, ∃ why, w.result? = some (.error (.failed why))
  /-- Once the flag is up, who checks it sees it up, and a worker starts one more batch at most, and
  only after a check that it passed before. -/
  heeded (before after : List Event) (place : Nat) : log = before ++ .raiseHalt place :: after →
    (∀ other raised, .readHalt other raised ∈ after → raised = true) ∧
    ∀ other, (starts (eventsOf log other)).count ≤ (starts (eventsOf before other)).count +
      if (starts (eventsOf before other)).cleared then 1 else 0
  /-- While it is down, everybody who checks it goes on. -/
  unheard : d.halt = false → ∀ other raised, .readHalt other raised ∈ log → raised = false

variable {σ : Type} {store : Store σ} {base : Nat} {c d : Crew σ} {log : List Event}

/-- Under any schedule of newly hired workers, on a store that fails and faults wherever it likes. -/
theorem raises_of_runs (hc : ∀ w ∈ c.workers, ∃ p, Newly p w) (h : Crew.Runs store base c log d) :
    Raises log c d := by
  have hraised : Crew.Each Raised log d := h.follows.each Worker.raised_keeps fun place w hget => by
    obtain ⟨p, hnewly⟩ := hc w (List.mem_of_getElem? hget)
    rw [Raised, if_neg (by simp [hnewly.not_hasFailed])]
    simp
  have hhalt := h.follows.halt_iff
  have hmanned := h.follows.manned
  have hmine {place : Nat} : Event.raiseHalt place ∈ log ↔ .raiseHalt place ∈ eventsOf log place := by
    simp [eventsOf, Event.worker]
  constructor
  case failed =>
    intro place w why hget hresult
    have hw := hraised place w hget
    rw [Raised, if_pos (Worker.hasFailed_iff.mpr ⟨why, hresult⟩)] at hw
    obtain ⟨before, hbefore⟩ := hw
    exact ⟨hhalt.mpr (.inr ⟨place, hmine.mpr (by simp [hbefore])⟩), before, hbefore⟩
  case crashed =>
    intro place w how hget hresult
    have hw := hraised place w hget
    rw [Raised, if_neg (by rw [Worker.hasFailed_iff, hresult]; simp)] at hw
    exact ⟨by rw [outcome?, hresult]; rfl, fun hmem => hw (hmine.mp hmem)⟩
  case flag =>
    rw [hhalt]
    refine or_congr_right ⟨?_, ?_⟩
    · rintro ⟨place, hmem⟩
      have hlt : place < d.workers.length := by
        rw [hmanned.length]
        exact hmanned.acts hmem
      have hw := hraised place _ (List.getElem?_eq_getElem hlt)
      rw [Raised] at hw
      split at hw
      · rename_i hf
        exact ⟨_, List.getElem_mem hlt, Worker.hasFailed_iff.mp hf⟩
      · exact absurd (hmine.mp hmem) hw
    · rintro ⟨w, hmem, why, hresult⟩
      obtain ⟨place, hget⟩ := List.mem_iff_getElem?.mp hmem
      have hw := hraised place w hget
      rw [Raised, if_pos (Worker.hasFailed_iff.mpr ⟨why, hresult⟩)] at hw
      obtain ⟨before, hbefore⟩ := hw
      exact ⟨place, hmine.mpr (by simp [hbefore])⟩
  case heeded =>
    rintro before after place rfl
    have hafter := h.afterRaise
    exact ⟨fun other raised hmem => hafter.saw (List.mem_cons_of_mem _ hmem),
      fun other => (Nat.le_add_right ..).trans (hafter.most other)⟩
  case unheard =>
    intro hdown other raised hmem
    have hbefore : c.halt = false := by
      rw [Bool.eq_false_iff]
      intro hup
      rw [hhalt.mpr (.inl hup)] at hdown
      cases hdown
    cases raised with
    | false => rfl
    | true => rw [← hdown, (h.follows.orderly hbefore).seen hmem]

/-- The first worker fails and raises the flag when the second one has passed its check: the second one
commits one batch and then sees the flag up. -/
theorem raises_twoRounds : ∃ (log : List Event) (d : Crew Unit),
    Crew.Runs withoutZero 0 ⟨(), false, [.new (twoRounds.post 0 0), .new (twoRounds.post 0 1)]⟩ log d ∧
      d.workers.map (fun w => (w.stage, w.tally.batches)) = [(.ended (some (.failed (.during (.work 0)
        (.during (.insertKey 0) (.reported "no room"))))), 0), (.ended none, 1)] ∧
      Raises log ⟨(), false, [.new (twoRounds.post 0 0), .new (twoRounds.post 0 1)]⟩ d := by
  have hruns : Crew.Runs withoutZero 0
      ⟨(), false, [.new (twoRounds.post 0 0), .new (twoRounds.post 0 1)]⟩ _ _ :=
    .turn 1 rfl <| .turn 1 rfl <| .turn 0 rfl <| .turn 0 rfl <| .turn 0 rfl <| .turn 0 rfl <| .turn 0 rfl <|
      .turn 0 rfl <| .turn 0 rfl <| .turn 0 rfl <| .turn 1 rfl <| .turn 1 rfl <| .turn 1 rfl <| .turn 1 rfl <|
      .turn 1 rfl <| .turn 1 rfl <| .turn 1 rfl <| .done _
  refine ⟨_, _, hruns, rfl, raises_of_runs (fun w hw => ?_) hruns⟩
  simp only [List.mem_cons, List.not_mem_nil, or_false] at hw
  rcases hw with rfl | rfl <;> exact ⟨_, .inl rfl⟩

/-- A store whose commit faults on the first seat. -/
def withoutCommit : Store Unit where
  name _ := "without commit"
  call
    | _, 0, .commit => some (.error (.crashed (.raised "boom")), ())
    | _, _, _ => some (.ok .accepted, ())
  rowCount _ _ := (.ok 0, ())
  shut _ := .ok ()

/-- A worker that faulted has stopped nobody: the flag is down and the second worker commits all of its
batches. -/
theorem flag_down_of_fault : ∃ (log : List Event) (d : Crew Unit),
    twoRounds.Reaches 0 withoutCommit 0 (Crew.Runs withoutCommit 0) () none log d ∧
      d.workers.map Worker.stage = [.ended (some (.crashed (.raised "boom"))), .ended none] ∧
      (d.workers[0]?.bind outcome?).map Except.isOk = some false ∧
      d.workers.map (fun w => w.tally.batches) = [0, 2] ∧ d.halt = false := by
  have hruns : Crew.Runs withoutCommit 0
      ⟨(), false, [.new (twoRounds.post 0 0), .new (twoRounds.post 0 1)]⟩ _ _ :=
    .turn 0 rfl <| .turn 0 rfl <| .turn 0 rfl <| .turn 0 rfl <| .turn 0 rfl <| .turn 0 rfl <| .turn 0 rfl <|
      .turn 1 rfl <| .turn 1 rfl <| .turn 1 rfl <| .turn 1 rfl <| .turn 1 rfl <| .turn 1 rfl <| .turn 1 rfl <|
      .turn 1 rfl <| .turn 1 rfl <| .turn 1 rfl <| .turn 1 rfl <| .turn 1 rfl <| .turn 1 rfl <| .turn 1 rfl <|
      .done _
  exact ⟨_, _, .hired rfl hruns, rfl, rfl, rfl, rfl⟩

end Bench

end InsertBench
