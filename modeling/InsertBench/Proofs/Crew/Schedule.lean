import Mathlib.Data.List.Perm.Basic
import InsertBench.Run.Crew

/-! # What a schedule leaves to each worker

Whoever else acts in between, a worker goes on with nothing but its own events, and the log restricted
to them is a run of that worker alone. Workers meet in the store and in the halt flag only, and the
flag is up only after a worker has ended by a failure.
-/
namespace InsertBench

namespace Crew.Event

def worker : Event → Nat
  | .call worker _ _ | .readHalt worker _ | .raiseHalt worker | .readClock worker _ => worker

def action : Event → Worker.Action
  | .call _ request _ => .call request
  | .readHalt .. => .readHalt
  | .raiseHalt _ => .raiseHalt
  | .readClock .. => .readClock

theorem call_of_action {event : Event} {request : Request} (h : .call request = event.action) :
    ∃ place reply, event = .call place request reply := by
  cases event <;> cases h
  exact ⟨_, _, rfl⟩

theorem readHalt_of_action {event : Event} (h : .readHalt = event.action) :
    ∃ place raised, event = .readHalt place raised := by
  cases event <;> cases h
  exact ⟨_, _, rfl⟩

theorem raiseHalt_of_action {event : Event} (h : .raiseHalt = event.action) :
    ∃ place, event = .raiseHalt place := by
  cases event <;> cases h
  exact ⟨_, rfl⟩

theorem readClock_of_action {event : Event} (h : .readClock = event.action) :
    ∃ place now, event = .readClock place now := by
  cases event <;> cases h
  exact ⟨_, _, rfl⟩

end Crew.Event

def Worker.after (w : Worker) : Crew.Event → Worker
  | .call _ _ reply => w.answer reply
  | .readHalt _ raised => w.sawHalt raised
  | .raiseHalt _ => w.raised
  | .readClock _ now => w.tick now

namespace Worker

theorem next_ended {w : Worker} {stop : Option Stop} (h : w.stage = .ended stop) : w.next = none := by
  simp [next, h]

theorem result?_eq_ok_iff {w : Worker} {tally : Tally} :
    w.result? = some (.ok tally) ↔ w.stage = .ended none ∧ w.tally = tally := by
  unfold result?
  split <;> simp_all

theorem raising_of_next {w : Worker} (h : w.next = some .raiseHalt) : ∃ why, w.stage = .raising why := by
  unfold next at h
  split at h <;> simp_all

end Worker

namespace Crew

variable {σ : Type} {store : Store σ} {base : Nat}

/-- The turn of a worker at a place, while the clock stands at zero. -/
theorem Runs.turn (place : Nat) {c d e : Crew σ} {event : Event} {log : List Event}
    (first : c.act store base place 0 = some (event, d)) (rest : Runs store base d log e) :
    Runs store base c (event :: log) e := .act first rest

def eventsOf (log : List Event) (place : Nat) : List Event := log.filter fun event => event.worker = place

@[simp] theorem eventsOf_append (log more : List Event) (place : Nat) :
    eventsOf (log ++ more) place = eventsOf log place ++ eventsOf more place := List.filter_append ..

theorem eventsOf_singleton (event : Event) (place : Nat) :
    eventsOf [event] place = if event.worker = place then [event] else [] := by
  unfold eventsOf
  split <;> simp_all

/-- A worker of a crew acted, and what became of the crew's workers and of its halt flag. -/
structure Acted (c : Crew σ) (event : Event) (d : Crew σ) (w : Worker) : Prop where
  here : c.workers[event.worker]? = some w
  next : w.next = some event.action
  workers : d.workers = c.workers.set event.worker (w.after event)
  halt : d.halt = (c.halt || event.action = .raiseHalt)
  saw {place : Nat} {raised : Bool} : event = .readHalt place raised → raised = c.halt

/-- An action of the worker at a place, and what it had to do with the store. -/
structure ActedOn (store : Store σ) (base place : Nat) (c : Crew σ) (event : Event) (d : Crew σ)
    (w : Worker) : Prop extends Acted c event d w where
  turn : event.worker = place
  answered {request : Request} {reply : Reply} : event = .call place request reply →
    store.call c.store (base + place) request = some (reply, d.store)
  kept : (∀ request, event.action ≠ .call request) → d.store = c.store

theorem acted_of_act {c d : Crew σ} {place : Nat} {now : UInt64} {event : Event}
    (h : c.act store base place now = some (event, d)) : ∃ w, ActedOn store base place c event d w := by
  unfold act at h
  cases hw : c.workers[place]? with
  | none => simp [hw] at h
  | some w =>
    cases hn : w.next with
    | none => simp [hw, hn] at h
    | some action =>
      simp only [hw, hn, Option.bind_eq_bind, Option.bind_some] at h
      cases action with
      | call request =>
        cases hc : store.call c.store (base + place) request with
        | none => simp [hc] at h
        | some found =>
          obtain ⟨reply, s⟩ := found
          simp only [hc, Option.bind_some, Option.pure_def, Option.some.injEq, Prod.mk.injEq] at h
          obtain ⟨rfl, rfl⟩ := h
          refine ⟨w, ⟨hw, hn, rfl, by simp [setWorker, Event.action], by simp⟩, rfl, ?_, ?_⟩
          · rintro _ _ ⟨⟩
            exact hc
          · intro hquiet
            exact absurd rfl (hquiet request)
      | readHalt =>
        simp only [Option.pure_def, Option.some.injEq, Prod.mk.injEq] at h
        obtain ⟨rfl, rfl⟩ := h
        exact ⟨w, ⟨hw, hn, rfl, by simp [setWorker, Event.action], by rintro _ _ ⟨⟩; rfl⟩, rfl,
          (fun he => nomatch he), fun _ => rfl⟩
      | raiseHalt =>
        simp only [Option.pure_def, Option.some.injEq, Prod.mk.injEq] at h
        obtain ⟨rfl, rfl⟩ := h
        exact ⟨w, ⟨hw, hn, rfl, by simp [setWorker, Event.action], by simp⟩, rfl, (fun he => nomatch he),
          fun _ => rfl⟩
      | readClock =>
        simp only [Option.pure_def, Option.some.injEq, Prod.mk.injEq] at h
        obtain ⟨rfl, rfl⟩ := h
        exact ⟨w, ⟨hw, hn, rfl, by simp [setWorker, Event.action], by simp⟩, rfl, (fun he => nomatch he),
          fun _ => rfl⟩

/-- Workers act one at a time, and in between the store may change by itself. -/
inductive Follows : Crew σ → List Event → Crew σ → Prop
  | done (c : Crew σ) : Follows c [] c
  | act {c d e : Crew σ} {event : Event} {log : List Event} {w : Worker} (first : Acted c event d w)
      (rest : Follows d log e) : Follows c (event :: log) e
  | drift {c e : Crew σ} {log : List Event} {s : σ} (rest : Follows { c with store := s } log e) :
      Follows c log e

theorem Runs.follows {c d : Crew σ} {log : List Event} (h : Runs store base c log d) : Follows c log d := by
  induction h with
  | done c => exact .done c
  | act first _ ih =>
    obtain ⟨w, hacted⟩ := acted_of_act first
    exact .act hacted.toActed ih

theorem Follows.keeps {P : List Event → Crew σ → Prop}
    (hact : ∀ log c event d w, P log c → Acted c event d w → P (log ++ [event]) d)
    (hdrift : ∀ log c s, P log c → P log { c with store := s })
    {c d : Crew σ} {log : List Event} (h : Follows c log d) (before : List Event)
    (hc : P before c) : P (before ++ log) d := by
  induction h generalizing before with
  | done c => simpa using hc
  | act first _ ih => simpa using ih _ (hact _ _ _ _ _ hc first)
  | drift _ ih => exact ih before (hdrift _ _ _ hc)

theorem Acted.workers_get {c d : Crew σ} {event : Event} {w v : Worker} (h : Acted c event d w)
    {place : Nat} (hv : d.workers[place]? = some v) :
    event.worker = place ∧ v = w.after event ∨ event.worker ≠ place ∧ c.workers[place]? = some v := by
  rw [h.workers, List.getElem?_set] at hv
  split at hv
  · rename_i he
    split at hv
    · cases hv
      exact .inl ⟨he, rfl⟩
    · cases hv
  · rename_i hne
    exact .inr ⟨hne, hv⟩

/-- What each event of a worker keeps holds of the worker and its own events, under any schedule. -/
def EachKeeps (L : Nat → List Event → Worker → Prop) : Prop :=
  ∀ place log w event, L place log w → event.worker = place → w.next = some event.action →
    L place (log ++ [event]) (w.after event)

def Each (L : Nat → List Event → Worker → Prop) (log : List Event) (c : Crew σ) : Prop :=
  ∀ place w, c.workers[place]? = some w → L place (eventsOf log place) w

theorem Each.acted {L : Nat → List Event → Worker → Prop} (hL : EachKeeps L) {log : List Event}
    {c d : Crew σ} {event : Event} {w : Worker} (hc : Each L log c) (h : Acted c event d w) :
    Each L (log ++ [event]) d := by
  intro place v hv
  rw [eventsOf_append, eventsOf_singleton]
  rcases h.workers_get hv with ⟨rfl, rfl⟩ | ⟨hne, hv⟩
  · rw [if_pos rfl]
    exact hL _ _ _ _ (hc _ w h.here) rfl h.next
  · rw [if_neg hne, List.append_nil]
    exact hc place v hv

theorem Follows.each {L : Nat → List Event → Worker → Prop} (hL : EachKeeps L) {c d : Crew σ}
    {log : List Event} (h : Follows c log d)
    (hc : ∀ place w, c.workers[place]? = some w → L place [] w) : Each L log d :=
  h.keeps (P := Each L) (fun _ _ _ _ _ hP hacted => hP.acted hL hacted) (fun _ _ _ hP => hP) [] hc

/-- What holds of a worker held of it too whenever it brought about one of its events. -/
def AtEvents (L : Nat → List Event → Worker → Prop) (place : Nat) (log : List Event) (w : Worker) : Prop :=
  L place log w ∧ ∀ before event after, log = before ++ event :: after →
    ∃ v, L place before v ∧ v.next = some event.action

theorem split_concat {log before after : List Event} {event last : Event}
    (h : log ++ [last] = before ++ event :: after) : (before = log ∧ event = last ∧ after = []) ∨
      ∃ rest, after = rest ++ [last] ∧ log = before ++ event :: rest := by
  rcases List.eq_nil_or_concat after with rfl | ⟨rest, final, rfl⟩
  · obtain ⟨rfl, he⟩ := List.append_inj' h rfl
    cases he
    exact .inl ⟨rfl, rfl, rfl⟩
  · rw [List.concat_eq_append, ← List.cons_append, ← List.append_assoc] at h
    obtain ⟨rfl, he⟩ := List.append_inj' h rfl
    cases he
    exact .inr ⟨rest, List.concat_eq_append, rfl⟩

theorem atEvents_keeps {L : Nat → List Event → Worker → Prop} (hL : EachKeeps L) :
    EachKeeps (AtEvents L) := by
  intro place log w event h hplace hn
  refine ⟨hL _ _ _ _ h.1 hplace hn, fun before event' after hsplit => ?_⟩
  rcases split_concat hsplit with ⟨rfl, rfl, _⟩ | ⟨rest, _, rfl⟩
  · exact ⟨w, h.1, hn⟩
  · exact h.2 _ _ _ rfl

/-- The halt flag is up only if a worker ended by a failure, and nobody has seen it up before. -/
structure Orderly (log : List Event) (c : Crew σ) : Prop where
  raised : c.halt = true → ∃ (place : Nat) (w : Worker) (why : Failure),
    c.workers[place]? = some w ∧ w.stage = .ended (some (.failed why))
  seen {place : Nat} : .readHalt place true ∈ log → c.halt = true

theorem Orderly.acted {log : List Event} {c d : Crew σ} {event : Event} {w : Worker}
    (h : Orderly log c) (hacted : Acted c event d w) : Orderly (log ++ [event]) d where
  raised hd := by
    rw [hacted.halt, Bool.or_eq_true, decide_eq_true_eq] at hd
    have hlt : event.worker < c.workers.length := (List.getElem?_eq_some_iff.mp hacted.here).1
    rcases hd with hc | hraise
    · obtain ⟨place, v, why, hv, hstage⟩ := h.raised hc
      have hne : event.worker ≠ place := by
        rintro rfl
        rw [hacted.here] at hv
        cases hv
        have := hacted.next
        rw [Worker.next_ended hstage] at this
        cases this
      exact ⟨place, v, why, by rw [hacted.workers, List.getElem?_set_ne hne, hv], hstage⟩
    · have hnext := hacted.next
      rw [hraise] at hnext
      obtain ⟨why, hstage⟩ := Worker.raising_of_next hnext
      refine ⟨event.worker, w.after event, why, by rw [hacted.workers, List.getElem?_set_self hlt], ?_⟩
      cases event <;> simp only [Event.action, reduceCtorEq] at hraise
      simp [Worker.after, Worker.raised, hstage, Worker.moveTo]
  seen {place} hmem := by
    rw [hacted.halt, Bool.or_eq_true]
    rcases List.mem_append.mp hmem with hold | hnew
    · exact .inl (h.seen hold)
    · exact .inl (hacted.saw (List.mem_singleton.mp hnew).symm).symm

theorem Follows.orderly {c d : Crew σ} {log : List Event} (h : Follows c log d) (hc : c.halt = false) :
    Orderly log d :=
  h.keeps (P := Orderly) (fun _ _ _ _ _ hP hacted => hP.acted hacted) (fun _ _ _ hP => ⟨hP.raised, hP.seen⟩)
    [] ⟨fun hraised => by simp [hc] at hraised, fun hmem => by simp at hmem⟩

/-- Nobody joins or leaves a crew, and only its workers act. -/
structure Manned (workers : Nat) (log : List Event) (c : Crew σ) : Prop where
  length : c.workers.length = workers
  acts {event : Event} : event ∈ log → event.worker < workers

theorem Manned.acted {workers : Nat} {log : List Event} {c d : Crew σ} {event : Event} {w : Worker}
    (h : Manned workers log c) (hacted : Acted c event d w) : Manned workers (log ++ [event]) d where
  length := by rw [hacted.workers, List.length_set, h.length]
  acts {other} hmem := by
    rcases List.mem_append.mp hmem with hold | hnew
    · exact h.acts hold
    · rw [List.mem_singleton.mp hnew, ← h.length]
      exact (List.getElem?_eq_some_iff.mp hacted.here).1

theorem Follows.manned {c d : Crew σ} {log : List Event} (h : Follows c log d) :
    Manned c.workers.length log d :=
  h.keeps (P := Manned c.workers.length) (fun _ _ _ _ _ hP hacted => hP.acted hacted)
    (fun _ _ _ hP => ⟨hP.length, hP.acts⟩) [] ⟨rfl, fun hmem => by simp at hmem⟩

theorem perm_eventsOf_below (log : List Event) (n : Nat) :
    ((List.range n).flatMap (eventsOf log)).Perm (log.filter fun event => event.worker < n) := by
  induction n with
  | zero => simp
  | succ n ih =>
    rw [List.range_succ, List.flatMap_append, List.flatMap_singleton]
    apply (ih.append_right _).trans
    -- the events of workers up to this one split into those of earlier ones and its own
    have hsplit := List.filter_append_perm (fun event : Event => decide (event.worker < n))
      (log.filter fun event => event.worker < n + 1)
    rw [List.filter_filter, List.filter_filter] at hsplit
    refine (List.Perm.of_eq ?_).trans hsplit
    unfold eventsOf
    congr 1
    · apply List.filter_congr
      intro event _
      rw [Bool.eq_iff_iff, Bool.and_eq_true]
      simp only [decide_eq_true_eq]
      omega
    · apply List.filter_congr
      intro event _
      rw [Bool.eq_iff_iff, Bool.and_eq_true]
      simp only [Bool.not_eq_true', decide_eq_false_iff_not, decide_eq_true_eq]
      omega

/-- The events of all workers, one worker after another, are the whole log in another order. -/
theorem Manned.perm_eventsOf {workers : Nat} {log : List Event} {c : Crew σ} (h : Manned workers log c) :
    ((List.range workers).flatMap (eventsOf log)).Perm log := by
  have hall : (log.filter fun event => event.worker < workers) = log :=
    List.filter_eq_self.mpr fun event hmem => decide_eq_true (h.acts hmem)
  have hperm := perm_eventsOf_below log workers
  rwa [hall] at hperm

end Crew

end InsertBench
