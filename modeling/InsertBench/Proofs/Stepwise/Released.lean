import InsertBench.Proofs.Bench.Releases
import InsertBench.Proofs.RowLocks.Bookkeeping
import InsertBench.Proofs.Stepwise.Basic

/-! # Sessions and locks after a run

On tables with row locks the calls through a seat decide what session is there, between any two operations.
So after a run all sessions are as they were before it, and with them the locks and the count of open
sessions, also if others are at work on the store.
-/
namespace InsertBench

namespace RowLocks

/-- What a session is to the calls through its seat. -/
def openAt : Option Session → Holding
  | none => .nothing
  | some ⟨_, none⟩ => .session
  | some ⟨_, some _⟩ => .transaction

theorem eq_none_of_openAt {session : Option Session} (h : openAt session = .nothing) : session = none := by
  match session, h with
  | none, _ => rfl
  | some ⟨_, none⟩, h => cases h
  | some ⟨_, some _⟩, h => cases h

variable {s t u : RowLocks} {seat place base size : Nat} {op : Operation} {reply : Reply}
  {session : Option Session} {name : String} {table : Table} {request : Request} {calls : List Call}

theorem Effect.openAt_last (he : Effect s seat op reply session name table)
    (hlast : (operations request).getLast? = some op) :
    (openAt s.sessions[seat]?).after (request, reply) = some (openAt session) := by
  cases he with
  | opened free =>
    rw [free]
    cases request <;> cases hlast
    rfl
  | begun idle =>
    rw [idle]
    cases request <;> cases hlast
    rfl
  | inserted here | declined here | prepared here | preparedBefore here =>
    rw [here]
    cases request <;> cases hlast
    rfl
  | applied here | released here => cases request <;> cases hlast
  | dropped here =>
    rw [here]
    cases request <;> cases hlast <;> rfl
  | closed idle =>
    rw [idle]
    cases request <;> cases hlast <;> rfl

theorem Effect.openAt_part (he : Effect s seat op reply session name table)
    (hpart : op = .applyWrites ∨ op = .releaseLocks) : openAt session = openAt s.sessions[seat]? := by
  cases he with
  | applied here | released here =>
    rw [here]
    rfl
  | _ => simp at hpart

/-- A store after some calls on the seats of a crew. -/
structure Followed (base size : Nat) (s : RowLocks) (calls : List Call) (t : RowLocks) : Prop where
  reaches : ∃ log, Reaches s log t
  seats (seat : Nat) : (openAt s.sessions[seat]?).afterAll (callsAt calls seat) =
    some (openAt t.sessions[seat]?)
  others (seat : Nat) : (∀ place < size, base + place ≠ seat) → t.sessions[seat]? = s.sessions[seat]?

theorem followed_refl (base size : Nat) (s : RowLocks) : Followed base size s [] s where
  reaches := ⟨[], .start⟩
  seats _ := rfl
  others _ _ := rfl

theorem Followed.others_step (h : Followed base size s calls t) (hplace : place < size)
    (hs : t.step (base + place) op = some (reply, u)) (seat : Nat)
    (hseat : ∀ place < size, base + place ≠ seat) : u.sessions[seat]? = s.sessions[seat]? := by
  obtain ⟨_, _, _, _, hb⟩ := step_effect hs
  rw [hb.sessions, if_neg (hseat place hplace), h.others seat hseat]

theorem Followed.part (h : Followed base size s calls t) (hplace : place < size)
    (hs : t.step (base + place) op = some (reply, u)) (hpart : op = .applyWrites ∨ op = .releaseLocks) :
    Followed base size s calls u where
  reaches := by
    obtain ⟨log, hreaches⟩ := h.reaches
    exact ⟨_, hreaches.step hs⟩
  seats seat := by
    obtain ⟨session, _, _, heffect, hb⟩ := step_effect hs
    rw [h.seats, hb.sessions]
    split
    · rename_i he
      rw [heffect.openAt_part hpart, he]
    · rfl
  others := h.others_step hplace hs

theorem Followed.last (h : Followed base size s calls t) (hplace : place < size)
    (hs : t.step (base + place) op = some (reply, u)) (hlast : (operations request).getLast? = some op) :
    Followed base size s (calls ++ [⟨base + place, request, reply⟩]) u where
  reaches := by
    obtain ⟨log, hreaches⟩ := h.reaches
    exact ⟨_, hreaches.step hs⟩
  seats seat := by
    obtain ⟨session, _, _, heffect, hb⟩ := step_effect hs
    rw [callsAt_append, Holding.afterAll_append (h.seats seat), callsAt_singleton, hb.sessions]
    by_cases he : base + place = seat
    · subst he
      rw [if_pos rfl, if_pos rfl, Holding.afterAll_singleton, heffect.openAt_last hlast]
    · rw [if_neg he, if_neg he]
      rfl
  others := h.others_step hplace hs

theorem Followed.hire {post : Nat → Post} {outcome : Except Stop (List Worker)}
    (h : Crew.hire store.recorded base post size 0 (s, []) = some (outcome, t, calls)) :
    Followed base size s calls t := by
  refine Crew.hire_keeps (P := fun t => Followed base size s t.2 t.1) h (followed_refl base size s)
    (Nat.le_of_eq (Nat.zero_add _)) ?_ ?_
  · rintro ⟨u, before⟩ i reply ⟨v, after⟩ hi hu hcall
    obtain ⟨hserved, rfl⟩ := Store.recorded_call hcall
    exact hu.last hi (step_of_call rfl hserved) rfl
  · rintro ⟨u, before⟩ i reply ⟨v, after⟩ hi hu hcall
    obtain ⟨hserved, rfl⟩ := Store.recorded_call hcall
    exact hu.last hi (step_of_call rfl hserved) rfl

/-- One store is as another one was, to everybody who has a session. -/
structure Restored (s t : RowLocks) : Prop where
  sessions : t.sessions = s.sessions
  openSessions : t.openSessions = s.openSessions
  locks (name : String) : (t.table name).locks = (s.table name).locks

theorem Followed.restored (h : Followed base size s calls t) (hsound : Sound s)
    (hfree : ∀ place < size, s.sessions[base + place]? = none)
    (hbalanced : ∀ seat, Holding.nothing.afterAll (callsAt calls seat) = some .nothing) : Restored s t := by
  obtain ⟨log, hreaches⟩ := h.reaches
  have hsessions : t.sessions = s.sessions := by
    apply Std.ExtTreeMap.ext_getElem?
    intro seat
    by_cases hseat : ∃ place < size, base + place = seat
    · obtain ⟨place, hplace, rfl⟩ := hseat
      have hopen := h.seats (base + place)
      rw [hfree place hplace] at hopen ⊢
      rw [openAt, hbalanced] at hopen
      exact eq_none_of_openAt (Option.some.inj hopen).symm
    · exact h.others seat fun place hplace he => hseat ⟨place, hplace, he⟩
  refine ⟨hsessions, ?_, fun name => hsound.locks_eq (hreaches.sound hsound) fun _ _ => by rw [hsessions]⟩
  have hadd := hreaches.openSessions_add
  rw [hsessions] at hadd
  exact (UInt64.add_left_inj _).mp hadd

end RowLocks

namespace Stepwise

open RowLocks (Operation Followed operations)
open Crew (Event callsOf)

/-- The store is as the calls so far make it, and what is left of a call is its end. -/
structure Tracks (base size : Nat) (s : RowLocks) (calls : List Call) (c : Stepwise) : Prop where
  followed : Followed base size s calls c.crew.store
  length : c.crew.workers.length = size
  todo (place : Nat) (w : Worker) : c.crew.workers[place]? = some w →
    c.todo place = [] ∨ ∃ request, w.next = some (.call request) ∧ c.todo place <:+ operations request

variable {base size : Nat} {s : RowLocks} {calls : List Call} {c d : Stepwise} {events log : List Event}

theorem Tracks.ahead_suffix (h : Tracks base size s calls c) {place : Nat} {w : Worker} {request : Request}
    (hw : c.crew.workers[place]? = some w) (hn : w.next = some (.call request)) :
    ahead (c.todo place) request <:+ operations request := by
  unfold ahead
  split
  · exact List.suffix_rfl
  · rename_i hne
    rcases h.todo place w hw with hnil | ⟨other, hn', hsuffix⟩
    · exact absurd hnil hne
    · rw [hn] at hn'
      cases hn'
      exact hsuffix

theorem part_of_suffix {op next : Operation} {rest : List Operation} {request : Request}
    (h : op :: next :: rest <:+ operations request) : op = .applyWrites ∨ op = .releaseLocks := by
  cases request <;> simp [operations, List.suffix_cons_iff] at h
  · rcases h with ⟨rfl, _⟩ | ⟨rfl, _⟩
    · exact .inl rfl
    · exact .inr rfl
  · exact .inr h.1

theorem getLast?_of_suffix {op : Operation} {request : Request} (h : [op] <:+ operations request) :
    (operations request).getLast? = some op := by
  obtain ⟨before, he⟩ := h
  rw [← he, List.getLast?_concat]

theorem Tracks.step (h : Tracks base size s calls c) (hs : Step base c events d) :
    Tracks base size s (calls ++ callsOf base events) d := by
  have hlt {place : Nat} {w : Worker} (hw : c.crew.workers[place]? = some w) : place < size := by
    rw [← h.length]
    exact (List.getElem?_eq_some_iff.mp hw).1
  cases hs with
  | @part place w request op next rest reply t here calls left performs =>
    have hsuffix := h.ahead_suffix here calls
    rw [left] at hsuffix
    refine ⟨?_, h.length, fun other v hv => ?_⟩
    · rw [show callsOf base [] = [] from rfl, List.append_nil]
      exact h.followed.part (hlt here) performs (part_of_suffix hsuffix)
    · by_cases he : other = place
      · subst he
        rw [here] at hv
        cases hv
        dsimp only
        rw [Function.update_self]
        exact .inr ⟨request, calls, (List.suffix_cons _ _).trans hsuffix⟩
      · dsimp only at hv ⊢
        rw [Function.update_of_ne he]
        exact h.todo other v hv
  | @last place w request op reply t here calls left performs =>
    have hsuffix := h.ahead_suffix here calls
    rw [left] at hsuffix
    refine ⟨h.followed.last (hlt here) performs (getLast?_of_suffix hsuffix), ?_, fun other v hv => ?_⟩
    · simpa [Crew.setWorker] using h.length
    · by_cases he : other = place
      · subst he
        exact .inl (Function.update_self ..)
      · dsimp only [Crew.setWorker] at hv ⊢
        rw [List.getElem?_set_ne (Ne.symm he)] at hv
        rw [Function.update_of_ne he]
        exact h.todo other v hv
  | @other place now event next acts quiet =>
    obtain ⟨w, hacted⟩ := Crew.acted_of_act acts
    obtain rfl := hacted.turn
    refine ⟨?_, ?_, fun other v hv => ?_⟩
    · have hnone : callsOf base [event] = [] := by
        cases event with
        | call _ request _ => exact absurd rfl (quiet request)
        | _ => rfl
      rw [hnone, List.append_nil, hacted.kept quiet]
      exact h.followed
    · rw [hacted.workers, List.length_set, h.length]
    · rcases hacted.toActed.workers_get hv with ⟨rfl, rfl⟩ | ⟨_, hv⟩
      · rcases h.todo _ w hacted.here with hnil | ⟨request, hn, _⟩
        · exact .inl hnil
        · rw [hacted.next] at hn
          exact absurd (Option.some.inj hn) (quiet request)
      · exact h.todo other v hv

theorem Runs.tracks (hr : Runs base c log d) (h : Tracks base size s calls c) :
    Tracks base size s (calls ++ callsOf base log) d := by
  induction hr generalizing calls with
  | done c =>
    rw [show callsOf base [] = [] from rfl, List.append_nil]
    exact h
  | step first _ ih =>
    rw [callsOf, List.flatMap_append, ← List.append_assoc]
    exact ih (h.step first)

end Stepwise

end InsertBench
