import InsertBench.Proofs.Stepwise.InStep

/-! # Hiring on tables with row locks

On free seats a crew is always hired: eager workers open their sessions, and no table is touched. So a
crew that is hired on a quiescent store starts in step with its table, and stays so.
-/
namespace InsertBench.Stepwise

open RowLocks (Session Operation Sound Quiescent)
open Crew (Event)

/-- Workers at consecutive seats from one on, hired on a store and leaving another. -/
structure Manned (b : Bench) (createdAt : Int64) (base place left : Nat) (old : Rows) (s t : RowLocks)
    (workers : List Worker) : Prop where
  sound : Sound t
  tables : t.table = s.table
  elsewhere {seat : Nat} : seat < base + place ∨ base + (place + left) ≤ seat →
    t.sessions[seat]? = s.sessions[seat]?
  seated {i : Nat} {w : Worker} : workers[i]? = some w →
    Seated old w.post t.sessions[base + (place + i)]? [] w.stage

variable {b : Bench} {createdAt : Int64} {base : Nat} {old : Rows} {s t : RowLocks}

theorem Manned.cons {place left : Nat} {first : Worker} {rest : List Worker} {u : RowLocks}
    (hrest : Manned b createdAt base (place + 1) left old u t rest) (htables : u.table = s.table)
    (hothers : ∀ seat, base + place ≠ seat → u.sessions[seat]? = s.sessions[seat]?)
    (hfirst : Seated old first.post u.sessions[base + place]? [] first.stage) :
    Manned b createdAt base place (left + 1) old s t (first :: rest) where
  sound := hrest.sound
  tables := hrest.tables.trans htables
  elsewhere {seat} hseat := by
    rw [hrest.elsewhere (by omega), hothers seat (by omega)]
  seated {i w} hw := by
    cases i with
    | zero =>
      cases hw
      rw [Nat.add_zero, hrest.elsewhere (by omega)]
      exact hfirst
    | succ i =>
      have := hrest.seated hw
      rwa [Nat.add_assoc, Nat.add_comm 1 i] at this

theorem opened_of_call {seat : Nat} {name : String} {reply : Reply} (hsound : Sound s)
    (h : RowLocks.store.call s seat (.openSession name) = some (reply, t)) :
    reply = .ok .accepted ∧ Sound t ∧ t.table = s.table ∧
      (∀ other, seat ≠ other → t.sessions[other]? = s.sessions[other]?) ∧
      t.sessions[seat]? = some ⟨name, none⟩ := by
  simp only [RowLocks.store, RowLocks.call, RowLocks.operations, RowLocks.steps] at h
  split at h
  · rename_i hstep
    cases h
    obtain ⟨session, found, table, heffect, hb⟩ := RowLocks.step_effect hstep
    cases heffect with
    | opened free =>
      refine ⟨rfl, hsound.step hstep, funext fun other => ?_, fun other hne => ?_, ?_⟩
      · rw [hb.tables]
        split
        · rename_i he
          rw [he]
        · rfl
      · rw [hb.sessions, if_neg hne]
      · rw [hb.here]
  · cases h

/-- What a worker changes that joins at a seat. -/
structure Joined (old : Rows) (seat : Nat) (s : RowLocks) (w : Worker) (t : RowLocks) : Prop where
  sound : Sound t
  tables : t.table = s.table
  others : ∀ other, seat ≠ other → t.sessions[other]? = s.sessions[other]?
  seated : Seated old w.post t.sessions[seat]? [] w.stage

theorem joined_of_joins {seat : Nat} {p : Post} {w : Worker} (hsound : Sound s) (hfit : p.Fit)
    (hfree : s.sessions[seat]? = none) (h : Crew.Joins RowLocks.store seat p s w t) :
    Joined old seat s w t := by
  cases h with
  | lazy _ =>
    refine ⟨hsound, rfl, fun _ _ => rfl, ?_⟩
    rw [hfree]
    exact .opening
  | eager _ opened =>
    obtain ⟨_, hsound', htables, hothers, hopened⟩ := opened_of_call hsound opened
    refine ⟨hsound', htables, hothers, ?_⟩
    rw [hopened]
    change Seated old ((Worker.new p).goOn 0).post _ [] ((Worker.new p).goOn 0).stage
    rw [Worker.goOn_post]
    exact seated_goOn (w := .new p) hfit 0

theorem hire_manned (hw : b.workload.Accepted) {left place : Nat} {outcome : Except Stop (List Worker)}
    (hsound : Sound s) (hfit : place + left ≤ b.workload.crewSize)
    (hfree : ∀ i, place ≤ i → i < place + left → s.sessions[base + i]? = none)
    (h : Crew.hire RowLocks.store base (b.post createdAt) left place s = some (outcome, t)) :
    ∃ workers, outcome = .ok workers ∧ Manned b createdAt base place left old s t workers := by
  -- on the workers that are left: opening a session leaves the seats after it free
  induction left generalizing place s t outcome with
  | zero =>
    cases h
    exact ⟨[], rfl, hsound, rfl, fun _ => rfl, fun hget => by simp at hget⟩
  | succ left ih =>
    have hjoin {w : Worker} {u : RowLocks}
        (joins : Crew.Joins RowLocks.store (base + place) (b.post createdAt place) s w u) :
        Joined old (base + place) s w u ∧
          ∀ i, place + 1 ≤ i → i < place + 1 + left → u.sessions[base + i]? = none := by
      have hfit : (b.post createdAt place).Fit := Bench.post_fit hw (by omega)
      have hjoined : Joined old (base + place) s w u :=
        joined_of_joins hsound hfit (hfree place (by omega) (by omega)) joins
      refine ⟨hjoined, fun i hi hi' => ?_⟩
      rw [hjoined.others _ (by omega)]
      exact hfree i (by omega) (by omega)
    cases Crew.hires_of_hire h with
    | joined joins rest =>
      obtain ⟨hjoined, hfree'⟩ := hjoin joins
      obtain ⟨_, hok, hmanned⟩ := ih hjoined.sound (by omega) hfree' rest
      cases hok
      exact ⟨_, rfl, hmanned.cons hjoined.tables hjoined.others hjoined.seated⟩
    | inVain joins rest =>
      obtain ⟨hjoined, hfree'⟩ := hjoin joins
      obtain ⟨_, hok, _⟩ := ih hjoined.sound (by omega) hfree' rest
      cases hok
    | refused _ failed _ =>
      obtain ⟨hok, _⟩ := opened_of_call hsound failed
      cases hok

theorem newly_atWork (hw : b.workload.Accepted) {place : Nat} (hp : place < b.workload.crewSize) {w : Worker}
    (h : Worker.Newly (b.post createdAt place) w) :
    AtWork b createdAt place w ∧ visible w.tally [] w.stage = 0 := by
  have hfit : (b.post createdAt place).Fit := Bench.post_fit hw hp
  refine ⟨⟨h.post, h.onTrack hfit, ?_⟩, ?_⟩
  · rcases h with rfl | rfl
    · rfl
    · rw [Worker.goOn_tally]
      rfl
  · rcases h with rfl | rfl
    · rfl
    · exact visible_goOn (w := .new _) hfit 0

/-- A crew that is hired on a quiescent store starts in step with its table. -/
theorem inStep_hired (hw : b.workload.Accepted) (hq : Quiescent s) {workers : List Worker}
    (h : Crew.hire RowLocks.store base (b.post createdAt) b.workload.crewSize 0 s = some (.ok workers, t)) :
    InStep b createdAt base (s.table b.table).rows ⟨⟨t, false, workers⟩, fun _ => []⟩ := by
  obtain ⟨hlength, hnewly⟩ := Crew.hire_workers h
  obtain ⟨found, he, hmanned⟩ := @hire_manned _ _ _ (s.table b.table).rows _ _ hw _ _ _ hq.sound
    (Nat.le_of_eq (Nat.zero_add _)) (fun i _ _ => hq.sessions _) h
  cases he
  have hnew {place : Nat} {w : Worker} (hget : workers[place]? = some w) :
      AtWork b createdAt place w ∧ visible w.tally [] w.stage = 0 := by
    have hp : place < b.workload.crewSize := by
      rw [← hlength]
      exact (List.getElem?_eq_some_iff.mp hget).1
    have hfirst := hnewly place w hget
    rw [Nat.zero_add] at hfirst
    exact newly_atWork hw hp hfirst
  have hnone (key : Int64) : key ∉ b.workload.firstKeys (visibleAt ⟨⟨t, false, workers⟩, fun _ => []⟩) := by
    intro hkey
    obtain ⟨place, _, round, hr, _⟩ := Workload.mem_firstKeys.mp hkey
    cases hget : workers[place]? with
    | none => simp [visibleAt, hget] at hr
    | some w =>
      rw [visibleAt_eq hget, (hnew hget).2] at hr
      exact Nat.not_lt_zero _ hr
  constructor
  case accepted => exact hw
  case sound => exact hmanned.sound
  case length => exact hlength
  case workers => exact fun hget => (hnew hget).1
  case seated =>
    intro place w hget
    have hseated := hmanned.seated hget
    rwa [Nat.zero_add] at hseated
  case others =>
    intro seat session hsession
    by_cases hin : base ≤ seat ∧ seat < base + b.workload.crewSize
    · exact ⟨seat - base, by omega, by omega⟩
    · have hfree := @hmanned.elsewhere seat (by omega)
      rw [hsession, hq.sessions] at hfree
      cases hfree
  case shows =>
    constructor
    · intro key value
      simp only [hmanned.tables, hnone, false_and, or_false]
    · exact fun hkey => absurd hkey (hnone _)

/-- Whatever a crew has come to on a store that was quiescent, it is in step with its table. -/
theorem inStep_of_reaches (hw : b.workload.Accepted) (hq : Quiescent s) {log : List Event} {d : Crew RowLocks}
    (h : b.Reaches createdAt RowLocks.store base (Goes base) s none log d) :
    ∃ todo, InStep b createdAt base (s.table b.table).rows ⟨d, todo⟩ := by
  obtain ⟨hire, todo, hruns⟩ := h
  exact ⟨todo, hruns.inStep (inStep_hired hw hq hire)⟩

end InsertBench.Stepwise
