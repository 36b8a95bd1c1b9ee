import InsertBench.Proofs.Bench.Adding
import InsertBench.Proofs.Crew.Hiring
import InsertBench.Proofs.Crew.Shortage
import InsertBench.Proofs.Worker.Course

/-! # What a run lets go of

When a run has returned, all that it opened on its store is released: every transaction has ended once,
and after it every session was closed or dropped once. A worker closes its session only if its batches are
done or it saw the halt flag up, and drops it if a batch failed or if it has no thread to work in. A store
may reply as it likes.
-/
namespace InsertBench

variable {σ : Type} {store : Store σ} {base : Nat} {s t : σ} {log : List Crew.Event}

namespace Bench

open Crew (Event eventsOf exchanges callsOf)
open Worker (Course Finished Driven BatchFailed)

def hiringCalls (b : Bench) (createdAt : Int64) (store : Store σ) (base : Nat) (s : σ) : List Call :=
  match Crew.hire store.recorded base (b.post createdAt) b.workload.threads.toNat 0 (s, []) with
  | some (_, _, calls) => calls
  | none => []

/-- All calls of a run: those of the hiring, then those of the workers. -/
def calls (b : Bench) (createdAt : Int64) (store : Store σ) (base : Nat) (s : σ) (log : List Event) :
    List Call :=
  b.hiringCalls createdAt store base s ++ callsOf base log

/-- A run has let go of all that it opened, and in the right way. -/
structure Releases (b : Bench) (createdAt : Int64) (store : Store σ) (base : Nat) (s : σ)
    (short : Option Crew.Shortage) (log : List Event) : Prop where
  /-- A transaction ends before another call about its session, and a session is released after it. -/
  balanced (seat : Nat) :
    Holding.nothing.afterAll (callsAt (b.calls createdAt store base s log) seat) = some .nothing
  sessions (seat : Nat) : (callsAt (b.calls createdAt store base s log) seat).countP Exchange.opens =
    (callsAt (b.calls createdAt store base s log) seat).countP Exchange.releases
  transactions (seat : Nat) : (callsAt (b.calls createdAt store base s log) seat).countP Exchange.begins =
    (callsAt (b.calls createdAt store base s log) seat).countP Exchange.ends
  /-- No session is closed before its worker runs. -/
  hiring : ∀ call ∈ b.hiringCalls createdAt store base s, call.request ≠ .close
  closed (place : Nat) (before after : List Event) (reply : Reply) :
    eventsOf log place = before ++ .call place .close reply :: after →
      Finished (b.post createdAt place) place before none
  dropped (place : Nat) (before after : List Event) (reply : Reply) :
    eventsOf log place = before ++ .call place .dropSession reply :: after →
      (∃ why, Finished (b.post createdAt place) place before (some why)) ∨
        before = [] ∧ ∃ found ∈ short, found.place ≤ place
  failed (place : Nat) : BatchFailed (b.post createdAt place) (exchanges (eventsOf log place)) →
    (∃ reply, .call place .dropSession reply ∈ log) ∧ ∀ reply, .call place .close reply ∉ log
  /-- Where threads ran short, workers make no other call. -/
  unstarted (place : Nat) (found : Crew.Shortage) : short = some found → found.place ≤ place →
    ∀ event ∈ eventsOf log place,
      (∃ reply, event = .call place .dropSession reply) ∨ place = found.place ∧ event = .raiseHalt place

variable {b : Bench} {createdAt : Int64} {goes : Crew σ → List Event → Crew σ → Prop}
  {short : Option Crew.Shortage} {d : Crew σ} {place : Nat} {w : Worker}

/-- The workers that start are in their courses, and were so whenever they brought about an event. -/
theorem course_of_reaches (hgoes : ∀ {c log d}, goes c log d → Crew.Follows c log d)
    (hw : b.workload.Accepted) (h : b.Reaches createdAt store base goes s short log d) :
    Crew.Each (Crew.AtEvents (Crew.Employed short (b.post createdAt)
      fun place log w => Course (b.post createdAt place) place log w)) log d := by
  refine h.each (Crew.atEvents_keeps (Crew.employed_keeps (Worker.course_keeps _))) hgoes
    fun place w hplace hmustered => ⟨hmustered.employed rfl fun v hnew => ?_, ?_⟩
  · exact hnew.course (post_fit hw hplace)
  · intro before event after hsplit
    simp at hsplit

theorem closing_of_next (h : w.next = some (.call .close)) : w.stage = .closing := by
  unfold Worker.next at h
  split at h <;> try cases h
  · rename_i batch _
    obtain ⟨conflicts, phase⟩ := batch
    cases phase <;> cases h
  · assumption

theorem letting_of_next (h : w.next = some (.call .dropSession)) :
    (∃ why, w.stage = .releasing why) ∨ w.stage = .leaving := by
  unfold Worker.next at h
  split at h <;> try cases h
  · rename_i batch _
    obtain ⟨conflicts, phase⟩ := batch
    cases phase <;> cases h
  · exact .inl ⟨_, ‹_›⟩
  · exact .inr ‹_›

theorem heldAt_nil (base : Nat) : Crew.HeldAt base [] [] := fun _ => rfl

theorem hiringCalls_held {outcome : Except Stop (List Worker)}
    (h : Crew.hire store base (b.post createdAt) b.workload.threads.toNat 0 s = some (outcome, t)) :
    Crew.HeldAt base (Crew.openAfter (b.post createdAt) b.workload.threads.toNat outcome)
        (b.hiringCalls createdAt store base s) ∧
      ∀ call ∈ b.hiringCalls createdAt store base s, call.request ≠ .close := by
  rw [← Crew.hire_recorded _ _ _ []] at h
  obtain ⟨⟨outcome, t, calls⟩, hrecord, he⟩ := Option.map_eq_some_iff.mp h
  cases he
  rw [hiringCalls, hrecord]
  constructor
  · have hheld := Crew.hire_held (heldAt_nil base) hrecord
    rwa [Nat.zero_add] at hheld
  · have hkeeps := Crew.hire_keeps (P := fun s => ∀ call ∈ s.2, call.request ≠ .close) hrecord
      (by simp) (Nat.le_refl _) ?_ ?_
    · exact hkeeps
    · rintro ⟨s, calls⟩ i reply ⟨t, more⟩ _ hcalls hcall call hmem
      obtain ⟨_, rfl⟩ := Store.recorded_call hcall
      rcases List.mem_append.mp hmem with hold | hnew
      · exact hcalls call hold
      · rw [List.mem_singleton.mp hnew]
        exact nofun
    · rintro ⟨s, calls⟩ i reply ⟨t, more⟩ _ hcalls hcall call hmem
      obtain ⟨_, rfl⟩ := Store.recorded_call hcall
      rcases List.mem_append.mp hmem with hold | hnew
      · exact hcalls call hold
      · rw [List.mem_singleton.mp hnew]
        exact nofun

/-- When all workers have ended nothing is open any more. -/
theorem balanced_of_ended (hgoes : ∀ {c log d}, goes c log d → Crew.Follows c log d)
    (h : b.Reaches createdAt store base goes s short log d) (hended : ∀ w ∈ d.workers, w.next = none)
    (seat : Nat) :
    Holding.nothing.afterAll (callsAt (b.calls createdAt store base s log) seat) = some .nothing := by
  obtain ⟨hire, run⟩ := h
  have hlength := (Crew.length_muster short _).trans (Crew.hire_workers hire).1
  rcases (hgoes run).held hlength (fun _ _ => Crew.holding_muster hire short)
    (hiringCalls_held hire).1 seat with
    ⟨place, w, _, hget, hheld⟩ | hheld
  · obtain ⟨stop, hstage⟩ := ended_of_next (hended w (List.mem_of_getElem? hget))
    rw [hstage] at hheld
    exact hheld
  · exact hheld

theorem place_lt_of_event (hgoes : ∀ {c log d}, goes c log d → Crew.Follows c log d)
    (h : b.Reaches createdAt store base goes s short log d) {event : Event}
    (hmem : event ∈ eventsOf log place) : place < d.workers.length := by
  obtain ⟨hlog, hworker⟩ := List.mem_filter.mp hmem
  have hmanned := h.manned hgoes
  rw [hmanned.length, ← of_decide_eq_true hworker]
  exact hmanned.acts hlog

/-- Whoever brought about an event was a worker in its course, or one that does not start. -/
theorem course_of_event (hgoes : ∀ {c log d}, goes c log d → Crew.Follows c log d)
    (hw : b.workload.Accepted) (h : b.Reaches createdAt store base goes s short log d)
    {before after : List Event} {event : Event} (hsplit : eventsOf log place = before ++ event :: after) :
    ∃ v, v.next = some event.action ∧ (Course (b.post createdAt place) place before v ∨
      ∃ found ∈ short, found.place ≤ place ∧
        Crew.Unstarted found (b.post createdAt place) place before v) := by
  have hlt := place_lt_of_event hgoes h (show event ∈ eventsOf log place by simp [hsplit])
  obtain ⟨v, hemployed, hn⟩ := (course_of_reaches hgoes hw h place _ (List.getElem?_eq_getElem hlt)).2
    before event after hsplit
  rcases hemployed.cases with ⟨hcourse, _⟩ | hunstarted
  · exact ⟨v, hn, .inl hcourse⟩
  · exact ⟨v, hn, .inr hunstarted⟩

theorem driven_of_ended {p : Post} (h : Course p place log w) (hended : w.next = none) :
    ∃ before result, Driven p place before result ∧ (log = before ∨ log = before ++ [.raiseHalt place]) := by
  obtain ⟨stop, hstage⟩ := ended_of_next hended
  have hcourse := h.stage
  rw [hstage] at hcourse
  rcases stop with _ | (why | how)
  · exact ⟨log, _, hcourse, .inl rfl⟩
  · obtain ⟨before, rfl, hdriven⟩ := hcourse
    exact ⟨before, _, hdriven, .inr rfl⟩
  · exact ⟨log, _, hcourse, .inl rfl⟩

theorem not_batchFailed_of_unstarted {found : Crew.Shortage} {p : Post}
    (h : Crew.Unstarted found p place log w) : ¬ BatchFailed p (exchanges log) := by
  have hquiet : exchanges log = [] := by
    rcases h.log_cases with (rfl | ⟨reply, rfl⟩) | ⟨_, _, rfl, rfl | ⟨reply, rfl⟩⟩ <;> rfl
  rw [hquiet]
  exact Worker.Rounds.none.not_batchFailed

theorem dropped_of_batchFailed (hgoes : ∀ {c log d}, goes c log d → Crew.Follows c log d)
    (hw : b.workload.Accepted) (h : b.Reaches createdAt store base goes s short log d)
    (hended : ∀ w ∈ d.workers, w.next = none)
    (hfailed : BatchFailed (b.post createdAt place) (exchanges (eventsOf log place))) :
    (∃ reply, .call place .dropSession reply ∈ log) ∧ ∀ reply, .call place .close reply ∉ log := by
  have hown {request : Request} {reply : Reply} :
      .call place request reply ∈ log ↔ .call place request reply ∈ eventsOf log place := by
    simp [eventsOf, Event.worker]
  have hsome : eventsOf log place ≠ [] := by
    intro hnil
    rw [hnil] at hfailed
    exact Worker.Rounds.none.not_batchFailed hfailed
  obtain ⟨event, after, hsplit⟩ := List.exists_cons_of_ne_nil hsome
  have hlt := place_lt_of_event hgoes h (show event ∈ eventsOf log place by simp [hsplit])
  have hget := List.getElem?_eq_getElem hlt
  rcases ((course_of_reaches hgoes hw h place _ hget).1).cases with ⟨hcourse, _⟩ | ⟨_, _, _, hunstarted⟩
  · obtain ⟨before, result, hdriven, heq⟩ := driven_of_ended hcourse (hended _ (List.mem_of_getElem? hget))
    simp only [hown]
    rcases heq with heq | heq
    · rw [heq] at hfailed ⊢
      exact hdriven.dropped_of_batchFailed hfailed
    · rw [heq] at hfailed ⊢
      rw [Crew.exchanges_quiet rfl] at hfailed
      obtain ⟨⟨reply, hreply⟩, hclose⟩ := hdriven.dropped_of_batchFailed hfailed
      refine ⟨⟨reply, List.mem_append_left _ hreply⟩, fun reply hmem => ?_⟩
      rcases List.mem_append.mp hmem with hold | hnew
      · exact hclose reply hold
      · simp at hnew
  · exact absurd hfailed (not_batchFailed_of_unstarted hunstarted)

theorem releases_of_hire {stop : Stop}
    (hire : Crew.hire store base (b.post createdAt) b.workload.threads.toNat 0 s = some (.error stop, t)) :
    b.Releases createdAt store base s short [] := by
  have hheld := hiringCalls_held hire
  have hbalanced (seat : Nat) : Holding.nothing.afterAll
      (callsAt (b.calls createdAt store base s []) seat) = some .nothing := by
    have hseat := hheld.1 seat
    simpa [calls, callsOf, Crew.openAfter] using hseat
  constructor
  case balanced => exact hbalanced
  case sessions => exact fun seat => (Holding.counts (hbalanced seat)).1
  case transactions => exact fun seat => (Holding.counts (hbalanced seat)).2
  case hiring => exact hheld.2
  case closed =>
    intro place before after reply hsplit
    simp [eventsOf] at hsplit
  case dropped =>
    intro place before after reply hsplit
    simp [eventsOf] at hsplit
  case failed => exact fun place hfailed => absurd hfailed Worker.Rounds.none.not_batchFailed
  case unstarted =>
    intro place found _ _ event hmem
    simp [eventsOf] at hmem

theorem releases_of_ended (hgoes : ∀ {c log d}, goes c log d → Crew.Follows c log d)
    (hw : b.workload.Accepted) (h : b.Reaches createdAt store base goes s short log d)
    (hended : ∀ w ∈ d.workers, w.next = none) : b.Releases createdAt store base s short log := by
  have hbalanced := balanced_of_ended hgoes h hended
  constructor
  case balanced => exact hbalanced
  case sessions => exact fun seat => (Holding.counts (hbalanced seat)).1
  case transactions => exact fun seat => (Holding.counts (hbalanced seat)).2
  case hiring =>
    obtain ⟨hire, _⟩ := h
    exact (hiringCalls_held hire).2
  case closed =>
    intro place before after reply hsplit
    obtain ⟨v, hn, hcourse | ⟨found, _, _, hunstarted⟩⟩ := course_of_event hgoes hw h hsplit
    · have hstage := hcourse.stage
      rw [closing_of_next hn] at hstage
      exact hstage
    · have hstage := hunstarted.stage
      rw [closing_of_next hn] at hstage
      exact hstage.elim
  case dropped =>
    intro place before after reply hsplit
    obtain ⟨v, hn, hcourse | ⟨found, hfound, hle, hunstarted⟩⟩ := course_of_event hgoes hw h hsplit
    · have hstage := hcourse.stage
      rcases letting_of_next hn with ⟨why, hreleasing⟩ | hleaving
      · rw [hreleasing] at hstage
        exact .inl ⟨why, hstage⟩
      · rw [hleaving] at hstage
        exact hstage.elim
    · exact .inr ⟨hunstarted.first_of_next hn, found, hfound, hle⟩
  case failed => exact fun place => dropped_of_batchFailed hgoes hw h hended
  case unstarted =>
    intro place found hshort hle event hmem
    have hlt := place_lt_of_event hgoes h hmem
    rcases ((course_of_reaches hgoes hw h place _ (List.getElem?_eq_getElem hlt)).1).cases with
      ⟨_, hbefore⟩ | ⟨other, hother, _, hunstarted⟩
    · exact absurd (hbefore found hshort) (Nat.not_lt.mpr hle)
    · obtain rfl : other = found := Option.some.inj (hother.symm.trans hshort)
      exact hunstarted.event_cases hmem

theorem releases_of_returns (hgoes : ∀ {c log d}, goes c log d → Crew.Follows c log d)
    (hw : b.workload.Accepted) {result : Except Stop Report}
    (h : b.Returns createdAt store base goes s short log result t) :
    b.Releases createdAt store base s short log := by
  cases h with
  | unmanned hire => exact releases_of_hire hire
  | manned run ended _ => exact releases_of_ended hgoes hw run ended
  | brokenOff _ run ended => exact releases_of_ended hgoes hw run ended

end Bench

end InsertBench
