import InsertBench.Proofs.Bench.Raising
import InsertBench.Proofs.Bench.Refused
import InsertBench.Proofs.Crew.Shortage
import InsertBench.Proofs.Serial.SingleWriter
import InsertBench.Store.Buffered

/-! # Sessions that cannot be opened

If an eager worker cannot open its session, the crew is not hired, and what the tables hold is as it was. A
lazy worker opens its session itself, and if it cannot it fails like one whose batch has failed.
-/
namespace InsertBench

namespace Worker

open Crew (Event)

/-- What a worker does whose session cannot be opened. -/
inductive Unopened (p : Post) (place : Nat) : List Event → Tally → Stage → Prop
  | before {t : Tally} (new : t = .zero p.id) : Unopened p place [] t .opening
  | failed {t : Tally} {why : Failure} (new : t = .zero p.id) :
      Unopened p place [.call place (.openSession p.table) (.error (.failed why))] t
        (.raising (.during (.openSession p.id) why))
  | raised {t : Tally} {why : Failure} (new : t = .zero p.id) :
      Unopened p place [.call place (.openSession p.table) (.error (.failed why)), .raiseHalt place] t
        (.ended (some (.failed (.during (.openSession p.id) why))))
  /-- Its session was opened, or it faulted. -/
  | past {log : List Event} {t : Tally} {stage : Stage} (beyond : stage ≠ .opening)
      (unfailed : ∀ why, .call place (.openSession p.table) (.error (.failed why)) ∉ log) :
      Unopened p place log t stage

variable {p : Post} {place : Nat} {log : List Event} {event : Event} {w v : Worker}

theorem goOn_beyond (w : Worker) (round : Nat) : (w.goOn round).stage ≠ .opening := by
  unfold goOn
  split
  · dsimp only [moveTo]
    split <;> exact nofun
  · exact nofun

theorem fail_beyond (w : Worker) (stop : Stop) : (w.fail stop).stage ≠ .opening := by
  cases stop <;> exact nofun

theorem Moves.beyond (hm : Moves w event v) (place : Nat) (hstage : w.stage ≠ .opening) :
    v.stage ≠ .opening ∧ ∀ table reply, event ≠ .call place (.openSession table) reply := by
  cases hm with
  | opened stage | openFailed stage => exact absurd stage hstage
  | counted _ _ => exact ⟨goOn_beyond _ _, nofun⟩
  | closeFailed _ | released _ => exact ⟨fail_beyond _ _, nofun⟩
  | _ => exact ⟨nofun, nofun⟩

theorem Unopened.after (h : Unopened p place log w.tally w.stage) (hpost : w.post = p)
    (hplace : event.worker = place) (hm : Moves w event v) :
    Unopened p place (log ++ [event]) v.tally v.stage := by
  subst hpost
  generalize hstage : w.stage = here at h
  cases h with
  | before new =>
    cases hm with
    | opened _ => exact .past (goOn_beyond _ _) (by simp)
    | @openFailed _ stop _ =>
      obtain rfl := hplace
      cases stop with
      | failed why => exact .failed new
      | crashed how => exact .past nofun (by simp)
    | _ stage => cases hstage.symm.trans stage
  | failed new =>
    cases hm with
    | raised stage =>
      obtain rfl := hplace
      cases hstage.symm.trans stage
      exact .raised new
    | _ stage => cases hstage.symm.trans stage
  | raised _ =>
    cases hm with
    | _ stage => cases hstage.symm.trans stage
  | past beyond unfailed =>
    obtain ⟨hbeyond, hother⟩ := hm.beyond place (hstage ▸ beyond)
    refine .past hbeyond fun why hmem => ?_
    rcases List.mem_append.mp hmem with hold | hnew
    · exact unfailed why hold
    · exact hother _ _ (List.mem_singleton.mp hnew).symm

end Worker

namespace Bench

open Crew (Event eventsOf)

variable {σ : Type} {store : Store σ} {b : Bench} {createdAt : Int64} {base place : Nat} {s : σ}
  {short : Option Crew.Shortage} {why : Failure}

/-- A worker whose session cannot be opened has run no batch, and raises the flag before it ends. -/
structure GivesUp (table : String) (log : List Event) (d : Crew σ) (place : Nat) (w : Worker)
    (why : Failure) : Prop where
  tally : w.tally = .zero place.toUInt64
  raises : eventsOf log place = [.call place (.openSession table) (.error (.failed why))] ∧
      w.next = some .raiseHalt ∨
    eventsOf log place = [.call place (.openSession table) (.error (.failed why)), .raiseHalt place] ∧
      d.halt = true ∧ w.result? = some (.error (refusal place why))

theorem newly_unopened {p : Post} {w : Worker} (h : Worker.Newly p w) :
    Worker.Unopened p place [] w.tally w.stage := by
  rcases h with rfl | rfl
  · exact .before rfl
  · exact .past (Worker.goOn_beyond _ _) (by simp)

theorem unopenedAt_keeps (post : Nat → Post) : Crew.EachKeeps fun place log w =>
    w.post = post place ∧ Worker.Unopened (post place) place log w.tally w.stage := by
  rintro place log w event ⟨hpost, hw⟩ hplace hn
  have hm := Worker.moves_of_next hn
  exact ⟨by rw [hm.post, hpost], hw.after hpost hplace hm⟩

theorem givesUp_of_reaches {log : List Event} {d : Crew σ} {w : Worker}
    (h : b.Reaches createdAt store base (Crew.Runs store base) s short log d)
    (here : d.workers[place]? = some w)
    (failed : .call place (.openSession b.table) (.error (.failed why)) ∈ log) :
    GivesUp b.table log d place w why := by
  have hmine : .call place (.openSession b.table) (.error (.failed why)) ∈ eventsOf log place := by
    simp [eventsOf, failed, Event.worker]
  have hunopened : Worker.Unopened (b.post createdAt place) place (eventsOf log place) w.tally w.stage := by
    rcases (h.employed (unopenedAt_keeps (b.post createdAt)) Crew.Runs.follows
      (fun _ _ _ hnew => ⟨hnew.post, newly_unopened hnew⟩) place w here).cases with
      ⟨⟨_, hunopened⟩, _⟩ | ⟨_, _, _, hunstarted⟩
    · exact hunopened
    · -- a worker that does not start opens no session
      rcases hunstarted.event_cases hmine with ⟨_, hdrop⟩ | ⟨_, hraise⟩
      · cases hdrop
      · cases hraise
  generalize hevents : eventsOf log place = events at hunopened hmine
  generalize hstage : w.stage = stage at hunopened
  obtain ⟨_, run⟩ := h
  cases hunopened with
  | before _ => cases hmine
  | failed new =>
    cases List.mem_singleton.mp hmine
    exact ⟨new, .inl ⟨hevents, by rw [Worker.next, hstage]⟩⟩
  | raised new =>
    simp only [List.mem_cons, reduceCtorEq, List.not_mem_nil, or_false] at hmine
    cases hmine
    have hhalt : d.halt = true := by
      refine run.follows.halt_iff.mpr (.inr ⟨place, ?_⟩)
      have hmem : Event.raiseHalt place ∈ eventsOf log place := by rw [hevents]; simp
      exact (List.mem_filter.mp hmem).1
    exact ⟨new, .inr ⟨hevents, hhalt, by rw [Worker.result?, hstage]; rfl⟩⟩
  | past _ unfailed => exact absurd hmine (unfailed why)

end Bench

/-! ## Tables -/

/-- A store with seats that are not let in. -/
def Store.refusing {σ : Type} (store : Store σ) (rule : Nat → Option Failure) : Store σ :=
  { store with
    call s seat request := match request, rule seat with
      | .openSession _, some why => some (.error (.failed why), s)
      | request, _ => store.call s seat request }

theorem Store.refusing_call {σ : Type} {store : Store σ} {rule : Nat → Option Failure} {seat : Nat} {s t : σ}
    {request : Request} {reply : Reply} (h : (store.refusing rule).call s seat request = some (reply, t)) :
    t = s ∨ store.call s seat request = some (reply, t) := by
  simp only [Store.refusing] at h
  split at h
  · cases h
    exact .inl rfl
  · exact .inr h

namespace Bench

variable {σ : Type} {store : Store σ} {rule : Nat → Option Failure} {b : Bench} {base place : Nat} {s t : σ}
  {opened : Nat → Verdict} {dropped : Nat → Reply} {why : Failure}

section
variable {α : Type} {view : σ → α}
  (hopen : ∀ u seat table reply v, store.call u seat (.openSession table) = some (reply, v) → view v = view u)
  (hdrop : ∀ u seat reply v, store.call u seat .dropSession = some (reply, v) → view v = view u)
include hopen hdrop

theorem kept_of_refusing
    (h : (store.refusing rule).Takes s (b.refusedCalls base opened dropped place why) t) :
    view t = view s := by
  have hcall {u v : σ} {seat : Nat} {request : Request} {reply : Reply}
      (hview : store.call u seat request = some (reply, v) → view v = view u)
      (h : (store.refusing rule).call u seat request = some (reply, v)) : view v = view u := by
    rcases Store.refusing_call h with rfl | h
    · rfl
    · exact hview h
  exact kept_of_takes (fun _ _ _ _ _ => hcall (hopen _ _ _ _ _)) (fun _ _ _ _ => hcall (hdrop _ _ _ _)) h

end

end Bench

namespace SingleWriter

variable {s t : SingleWriter} {seat : Nat} {reply : Reply}

/-- What a table holds, and whether someone writes. A table that a session creates is empty. -/
def contents (s : SingleWriter) : (String → Std.ExtTreeMap Int64 Bytes) × Option Txn := (s.rows, s.writer)

theorem contents_openSession {table : String} (h : s.call seat (.openSession table) = some (reply, t)) :
    t.contents = s.contents := by
  simp only [call, openSession] at h
  split at h
  · cases h
  · split at h
    · cases h
      rfl
    · cases h
      exact Prod.ext (funext (rows_insertIfNew s table)) rfl

theorem contents_dropSession (h : s.call seat .dropSession = some (reply, t)) : t.contents = s.contents := by
  simp only [call, closeSession] at h
  split at h
  · cases h
  · cases h
    rfl

end SingleWriter

namespace Buffered

variable {s t : Buffered} {seat : Nat} {reply : Reply}

theorem tables_openSession {table : String} (h : s.call seat (.openSession table) = some (reply, t)) :
    t.tables = s.tables := by
  simp only [call, openSession] at h
  split at h
  · cases h
  · cases h
    rfl

theorem tables_dropSession (h : s.call seat .dropSession = some (reply, t)) : t.tables = s.tables := by
  simp only [call, closeSession] at h
  split at h
  · cases h
    rfl
  · cases h

end Buffered

namespace RowLocks

variable {s u : RowLocks} {base first last seat : Nat} {table : String} {rule : Nat → Option Failure}

/-- Besides the sessions of before, those of the places from a first to a last one are open, without
transactions; nothing else has changed. -/
structure Lent (s : RowLocks) (base : Nat) (table : String) (first last : Nat) (u : RowLocks) : Prop where
  sessions (seat : Nat) : u.sessions[seat]? =
    if base + first ≤ seat ∧ seat < base + last then some ⟨table, none⟩ else s.sessions[seat]?
  openSessions : u.openSessions = s.openSessions + (last - first).toUInt64
  tables (name : String) : u.table name = s.table name

theorem lent_self (s : RowLocks) (base : Nat) (table : String) (place : Nat) :
    Lent s base table place place s where
  sessions seat := by rw [if_neg (by omega)]
  openSessions := by simp
  tables _ := rfl

theorem call_openSession (h : s.sessions[seat]? = none) (table : String) :
    ∃ t, s.call seat (.openSession table) = some (.ok .accepted, t) ∧
      Becomes s seat (some ⟨table, none⟩) table (s.table table) t ∧ t.openSessions = s.openSessions + 1 := by
  have hfree : seat ∉ s.sessions := by
    rw [Std.ExtTreeMap.mem_iff_isSome_getElem?, h]
    exact Bool.false_ne_true
  obtain ⟨t, hopen, hcount⟩ : ∃ t, s.openSession seat table = some (.ok .accepted, t) ∧
      t.openSessions = s.openSessions + 1 := by
    rw [openSession, if_neg hfree]
    exact ⟨_, rfl, rfl⟩
  obtain ⟨_, _, _, heffect, hbecomes⟩ := openSession_effect hopen
  cases heffect
  refine ⟨t, ?_, hbecomes, hcount⟩
  simp only [call, operations, steps, step, hopen]

theorem call_dropSession (h : s.sessions[seat]? = some ⟨table, none⟩) :
    ∃ t, s.call seat .dropSession = some (.ok .accepted, t) ∧
      Becomes s seat none table (s.table table) t ∧ t.openSessions = s.openSessions - 1 := by
  obtain ⟨t, hclose, hcount⟩ : ∃ t, s.closeSession seat = some (.ok .accepted, t) ∧
      t.openSessions = s.openSessions - 1 := by
    rw [closeSession, h]
    exact ⟨_, rfl, rfl⟩
  obtain ⟨_, _, _, heffect, hbecomes⟩ := closeSession_effect hclose
  cases heffect with
  | closed idle =>
    rw [h] at idle
    cases idle
    refine ⟨t, ?_, hbecomes, hcount⟩
    simp only [call, operations, steps, step, hclose]

theorem Becomes.same_tables {session : Option Session} {name : String} {t : RowLocks}
    (h : Becomes s seat session name (s.table name) t) (other : String) : t.table other = s.table other := by
  rw [h.tables]
  split
  · rename_i he
    rw [he]
  · rfl

theorem Lent.open (h : Lent s base table 0 last u) (hfree : s.sessions[base + last]? = none)
    (hrule : rule (base + last) = none) :
    ∃ v, (RowLocks.store.refusing rule).call u (base + last) (.openSession table) = some (.ok .accepted, v) ∧
      Lent s base table 0 (last + 1) v := by
  have hhere : u.sessions[base + last]? = none := by rw [h.sessions, if_neg (by omega), hfree]
  obtain ⟨v, hcall, hbecomes, hcount⟩ := call_openSession hhere table
  refine ⟨v, ?_, ?_, ?_, fun name => by rw [hbecomes.same_tables, h.tables]⟩
  · simp only [Store.refusing, hrule]
    exact hcall
  · intro seat
    rw [hbecomes.sessions, h.sessions]
    by_cases he : base + last = seat
    · rw [if_pos he, if_pos (by omega)]
    · rw [if_neg he]
      exact if_congr (by omega) rfl rfl
  · rw [hcount, h.openSessions, UInt64.add_assoc, Nat.sub_zero, Nat.sub_zero]
    exact congrArg (s.openSessions + ·) (UInt64.ofNat_add last 1).symm

theorem Lent.drop (h : Lent s base table first last u) (rule : Nat → Option Failure) (hlt : first < last)
    (hfree : s.sessions[base + first]? = none) :
    ∃ v, (RowLocks.store.refusing rule).call u (base + first) .dropSession = some (.ok .accepted, v) ∧
      Lent s base table (first + 1) last v := by
  have hhere : u.sessions[base + first]? = some ⟨table, none⟩ := by rw [h.sessions, if_pos (by omega)]
  obtain ⟨v, hcall, hbecomes, hcount⟩ := call_dropSession hhere
  refine ⟨v, ?_, ?_, ?_, fun name => by rw [hbecomes.same_tables, h.tables]⟩
  · exact hcall
  · intro seat
    rw [hbecomes.sessions, h.sessions]
    by_cases he : base + first = seat
    · rw [if_pos he, if_neg (by omega), ← he, hfree]
    · rw [if_neg he]
      exact if_congr (by omega) rfl rfl
  · have hone : (last - first).toUInt64 = (last - (first + 1)).toUInt64 + 1 := by
      rw [show last - first = last - (first + 1) + 1 by omega]
      exact UInt64.ofNat_add _ 1
    rw [hcount, h.openSessions, hone, ← UInt64.add_assoc, UInt64.add_sub_cancel]

theorem takes_opens (table : String) {count : Nat} (hfree : ∀ i < count, s.sessions[base + i]? = none)
    (hrule : ∀ i < count, rule (base + i) = none) :
    ∃ u, (RowLocks.store.refusing rule).Takes s
        ((List.range count).map fun i => ⟨base + i, .openSession table, .ok .accepted⟩) u ∧
      Lent s base table 0 count u := by
  induction count with
  | zero => exact ⟨s, .start, lent_self s base table 0⟩
  | succ count ih =>
    obtain ⟨u, htakes, hlent⟩ :=
      ih (fun i hi => hfree i (by omega)) (fun i hi => hrule i (by omega))
    obtain ⟨v, hcall, hlent⟩ := hlent.open (hfree count (by omega)) (hrule count (by omega))
    refine ⟨v, ?_, hlent⟩
    rw [List.range_succ, List.map_append]
    exact .call htakes hcall

theorem takes_drops (rule : Nat → Option Failure) {count : Nat}
    (hfree : ∀ i < last, s.sessions[base + i]? = none)
    (hlast : first + count = last) (h : Lent s base table first last u) :
    ∃ t, (RowLocks.store.refusing rule).Takes u
        ((List.range' first count).map fun i => ⟨base + i, .dropSession, .ok .accepted⟩) t ∧
      Lent s base table last last t := by
  induction count generalizing first u with
  | zero =>
    obtain rfl : first = last := hlast
    exact ⟨u, .start, h⟩
  | succ count ih =>
    obtain ⟨v, hcall, hlent⟩ := h.drop rule (by omega) (hfree first (by omega))
    obtain ⟨t, htakes, hlent⟩ := ih (by omega) hlent
    rw [List.range'_succ, List.map_cons]
    exact ⟨t, Store.takes_cons.mpr ⟨v, hcall, htakes⟩, hlent⟩

structure Untouched (s t : RowLocks) : Prop where
  tables (name : String) : t.table name = s.table name
  sessions : t.sessions = s.sessions
  openSessions : t.openSessions = s.openSessions

theorem Lent.untouched (h : Lent s base table last last u) : Untouched s u where
  tables := h.tables
  sessions := by
    apply Std.ExtTreeMap.ext_getElem?
    intro seat
    rw [h.sessions, if_neg (by omega)]
  openSessions := by simp [h.openSessions]

theorem takes_refused {b : Bench} {place : Nat} {why : Failure}
    (hfree : ∀ i < place, s.sessions[base + i]? = none) (hrule : ∀ i < place, rule (base + i) = none)
    (hwhy : rule (base + place) = some why) :
    ∃ t, (RowLocks.store.refusing rule).Takes s
        (b.refusedCalls base (fun _ => .accepted) (fun _ => .ok .accepted) place why) t ∧
      Untouched s t := by
  obtain ⟨u, hopens, hlent⟩ := takes_opens b.table hfree hrule
  obtain ⟨t, hdrops, hlent⟩ := takes_drops rule hfree (Nat.zero_add place) hlent
  rw [← List.range_eq_range'] at hdrops
  have hrefused : (RowLocks.store.refusing rule).call u (base + place) (.openSession b.table) =
      some (.error (.failed why), u) := by
    simp only [Store.refusing, hwhy]
  exact ⟨t, Store.takes_append.mpr ⟨u, .call hopens hrefused, hdrops⟩, hlent.untouched⟩

end RowLocks

namespace Bench

open Crew (Event eventsOf)

/-- Nothing has been started where a session cannot be opened. -/
structure Unstarts (b : Bench) : Prop where
  /-- On any store, when the eager worker at a place is the first that is turned away. -/
  eager {σ : Type} (store : Store σ) (createdAt : Int64) (base place : Nat) (s t : σ)
    (opened : Nat → Verdict) (dropped : Nat → Reply) (why : Failure) :
    b.workload.sessionStart = .eager → place < b.workload.threads.toNat →
      store.Takes s (b.refusedCalls base opened dropped place why) t →
        b.TurnedAway store createdAt base s t (b.refusedCalls base opened dropped place why)
          (refusal place why)
  /-- The run can return in no other way, under any schedule. -/
  returned {σ : Type} (store : Store σ) (createdAt : Int64) (base place : Nat) (s t u : σ)
    (opened : Nat → Verdict)
    (why : Failure) (goes : Crew σ → List Event → Crew σ → Prop) (short : Option Crew.Shortage)
    (log : List Event) (result : Except Stop Report) :
    b.workload.sessionStart = .eager → place < b.workload.threads.toNat →
      store.Takes s (b.openings base opened place why) u →
        b.Returns createdAt store base goes s short log result t → log = [] ∧
          result = .error (refusal place why) ∧
          ∃ dropped, store.Takes s (b.refusedCalls base opened dropped place why) t
  message (place : Nat) (why : Failure) : place < b.workload.threads.toNat →
    (refusal place why).message = s!"worker {place}: open session: {why.message}"
  /-- What opening and dropping sessions leaves alone is as it was. -/
  kept {σ α : Type} (store : Store σ) (view : σ → α) (base place : Nat) (s t : σ)
    (opened : Nat → Verdict) (dropped : Nat → Reply) (why : Failure) :
    (∀ u seat table reply v, store.call u seat (.openSession table) = some (reply, v) → view v = view u) →
    (∀ u seat reply v, store.call u seat .dropSession = some (reply, v) → view v = view u) →
      store.Takes s (b.refusedCalls base opened dropped place why) t → view t = view s
  singleWriter (rule : Nat → Option Failure) (base place : Nat) (s t : SingleWriter) (opened : Nat → Verdict)
    (dropped : Nat → Reply) (why : Failure) :
    (SingleWriter.store.refusing rule).Takes s (b.refusedCalls base opened dropped place why) t →
      t.contents = s.contents
  buffered (rule : Nat → Option Failure) (base place : Nat) (s t : Buffered) (opened : Nat → Verdict)
    (dropped : Nat → Reply) (why : Failure) :
    (Buffered.store.refusing rule).Takes s (b.refusedCalls base opened dropped place why) t →
      t.tables = s.tables
  rowLocks (rule : Nat → Option Failure) (createdAt : Int64) (base place : Nat) (s : RowLocks)
    (why : Failure) :
    b.workload.sessionStart = .eager → place < b.workload.threads.toNat →
    (∀ i < place, s.sessions[base + i]? = none) → (∀ i < place, rule (base + i) = none) →
    rule (base + place) = some why → ∃ t, RowLocks.Untouched s t ∧
      b.TurnedAway (RowLocks.store.refusing rule) createdAt base s t
        (b.refusedCalls base (fun _ => .accepted) (fun _ => .ok .accepted) place why) (refusal place why)
  /-- Lazy workers are hired without a call to the store. -/
  unopened {σ : Type} (store : Store σ) (createdAt : Int64) (base : Nat) (s : σ) :
    b.workload.sessionStart = .lazy →
      Crew.hire store.counting.recorded base (b.post createdAt) b.workload.threads.toNat 0 ((s, []), []) =
        some (.ok ((List.range b.workload.threads.toNat).map fun i => .new (b.post createdAt i)),
          ((s, []), []))
  givesUp {σ : Type} (store : Store σ) (createdAt : Int64) (base place : Nat) (s : σ)
    (short : Option Crew.Shortage) (log : List Event) (d : Crew σ) (w : Worker) (why : Failure) :
    b.Reaches createdAt store base (Crew.Runs store base) s short log d → d.workers[place]? = some w →
      .call place (.openSession b.table) (.error (.failed why)) ∈ log → GivesUp b.table log d place w why

theorem unstarts (b : Bench) : b.Unstarts := by
  constructor
  case eager =>
    intro σ store createdAt base place s t opened dropped why heager hp h
    exact turnedAway_of_takes heager hp h
  case returned =>
    intro σ store createdAt base place s t u opened why goes short log result heager hp h hreturns
    exact refused_of_returns heager hp h hreturns
  case message => exact fun place why hp => message_refusal (hp.trans b.workload.threads.toNat_lt_size) why
  case kept =>
    intro σ α store view base place s t opened dropped why hopen hdrop h
    exact kept_of_takes hopen hdrop h
  case singleWriter =>
    intro rule base place s t opened dropped why h
    exact kept_of_refusing (fun _ _ _ _ _ => SingleWriter.contents_openSession)
      (fun _ _ _ _ => SingleWriter.contents_dropSession) h
  case buffered =>
    intro rule base place s t opened dropped why h
    exact kept_of_refusing (fun _ _ _ _ _ => Buffered.tables_openSession)
      (fun _ _ _ _ => Buffered.tables_dropSession) h
  case rowLocks =>
    intro rule createdAt base place s why heager hp hfree hrule hwhy
    obtain ⟨t, htakes, huntouched⟩ := RowLocks.takes_refused hfree hrule hwhy
    exact ⟨t, huntouched, turnedAway_of_takes heager hp htakes⟩
  case unopened =>
    intro σ store createdAt base s hlazy
    rw [Crew.hire_lazy fun _ => hlazy, List.range_eq_range']
  case givesUp =>
    intro σ store createdAt base place s short log d w why hreached here failed
    exact givesUp_of_reaches hreached here failed

/-- Two seats, and no room for a third session. -/
def roomForTwo (seat : Nat) : Option Failure := if seat < 2 then none else some (.reported "full")

def threeEager : Bench := ⟨⟨3, 1, 3, .eager, false, .unbounded⟩, "t", true⟩

def threeLazy : Bench := ⟨⟨3, 1, 3, .lazy, false, .unbounded⟩, "t", true⟩

/-- The third of three eager workers is turned away, and the sessions of the other two are dropped. The
third of three lazy ones fails alone, before the others have begun. -/
theorem unstarts_three :
    (∃ t, RowLocks.Untouched .empty t ∧
      threeEager.TurnedAway (RowLocks.store.refusing roomForTwo) 0 0 .empty t
        [⟨0, .openSession "t", .ok .accepted⟩, ⟨1, .openSession "t", .ok .accepted⟩,
          ⟨2, .openSession "t", .error (.failed (.reported "full"))⟩,
          ⟨0, .dropSession, .ok .accepted⟩, ⟨1, .dropSession, .ok .accepted⟩]
        (refusal 2 (.reported "full"))) ∧
      (refusal 2 (.reported "full")).message = "worker 2: open session: full" ∧
    ∃ (log : List Event) (d : Crew RowLocks) (w : Worker),
      threeLazy.Reaches 0 (RowLocks.store.refusing roomForTwo) 0
        (Crew.Runs (RowLocks.store.refusing roomForTwo) 0) .empty none log d ∧ d.workers[2]? = some w ∧
      d.halt = true ∧ w.result? = some (.error (refusal 2 (.reported "full"))) ∧
      GivesUp "t" log d 2 w (.reported "full") := by
  have hseated : ∀ i < 2, roomForTwo (0 + i) = none := by decide
  refine ⟨?_, (unstarts threeEager).message 2 (.reported "full") (by decide), ?_⟩
  · exact (unstarts threeEager).rowLocks roomForTwo 0 0 2 .empty (.reported "full") rfl (by decide)
      (fun _ _ => RowLocks.quiescent_empty.sessions _) hseated rfl
  · have hruns : Crew.Runs (RowLocks.store.refusing roomForTwo) 0
        ⟨.empty, false, (List.range 3).map fun i => .new (threeLazy.post 0 i)⟩ _
        ⟨.empty, true, [.new (threeLazy.post 0 0), .new (threeLazy.post 0 1),
          ⟨threeLazy.post 0 2, .zero 2, .ended (some (refusal 2 (.reported "full"))), []⟩]⟩ :=
      .turn 2 rfl <| .turn 2 rfl <| .done _
    have hreached : threeLazy.Reaches 0 (RowLocks.store.refusing roomForTwo) 0
        (Crew.Runs (RowLocks.store.refusing roomForTwo) 0) .empty none _ _ := .hired rfl hruns
    exact ⟨_, _, _, hreached, rfl, rfl, rfl,
      (unstarts threeLazy).givesUp _ _ _ _ _ _ _ _ _ _ hreached rfl (List.mem_cons_self ..)⟩

end Bench

end InsertBench
