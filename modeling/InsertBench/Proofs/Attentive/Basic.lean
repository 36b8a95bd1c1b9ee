import InsertBench.Proofs.Bench.Adding
import InsertBench.Proofs.Crew.Hiring
import Mathlib.Logic.Function.Basic

/-! # Stores that answer every call in its place

A store can tell what its seats hold, and answer every call that is in place while no other seat holds a
transaction. Then workers that take turns come to their ends, whatever the clock shows.
-/
namespace InsertBench

/-- The calls that a seat is in a position to make. -/
inductive Holding.InPlace : Holding → Request → Prop
  | openSession (table : String) : InPlace .nothing (.openSession table)
  | beginTxn : InPlace .session .beginTxn
  | close : InPlace .session .close
  | dropSession : InPlace .session .dropSession
  | insert (key : Int64) (value : Bytes) : InPlace .transaction (.insert key value)
  | prepare (id : UInt64) : InPlace .transaction (.prepare id)
  | commit : InPlace .transaction .commit
  | abort : InPlace .transaction .abort
  | dropTxn : InPlace .transaction .dropTxn

theorem Holding.inPlace_of_after {h k : Holding} {request : Request} {reply : Reply}
    (hafter : h.after (request, reply) = some k) : h.InPlace request := by
  cases h <;> cases request <;> first | constructor | cases hafter

variable {σ τ : Type}

/-- The store answers each call that is in place, unless another seat holds a transaction. -/
structure Store.Attentive (store : Store σ) (Holds : σ → (Nat → Holding) → Prop) : Prop where
  answers {s : σ} {holding : Nat → Holding} {seat : Nat} {now : Holding} {request : Request} :
    Holds s holding → (∀ other, other ≠ seat → holding other ≠ .transaction) → holding seat = now →
    now.InPlace request → ∃ reply t next, store.call s seat request = some (reply, t) ∧
      now.after (request, reply) = some next ∧ Holds t (Function.update holding seat next)

/-- A store inside another makes the other one answer, on the states that come from it. -/
theorem Store.Attentive.answers_of_maps {source : Store σ} {target : Store τ} {f : σ → τ}
    {Holds : σ → (Nat → Holding) → Prop} (h : source.Attentive Holds) (hmaps : source.Maps target f) {s : σ}
    {holding : Nat → Holding} {seat : Nat} {now : Holding} {request : Request} (hs : Holds s holding)
    (halone : ∀ other, other ≠ seat → holding other ≠ .transaction) (hnow : holding seat = now)
    (hplace : now.InPlace request) : ∃ reply t next, target.call (f s) seat request = some (reply, f t) ∧
      now.after (request, reply) = some next ∧ Holds t (Function.update holding seat next) := by
  obtain ⟨reply, t, next, hcall, hrest⟩ := h.answers hs halone hnow hplace
  refine ⟨reply, t, next, ?_, hrest⟩
  rw [hmaps.call, hcall]
  rfl

variable {store : Store σ} {Holds : σ → (Nat → Holding) → Prop} {base place : Nat} {post : Nat → Post}
  {s : σ} {holding : Nat → Holding}

namespace Worker

variable {w : Worker} {request : Request}

section Equations

variable {m : Type → Type} [Monad m] {clock : m UInt64} {seat : Nat} {halt : Bool}

theorem run_of_ended (hn : w.next = none) : w.run clock store seat s halt = pure (some (w, s, halt)) := by
  rw [run]
  split <;> simp_all

theorem run_of_call (hn : w.next = some (.call request)) {reply : Reply} {t : σ}
    (hcall : store.call s seat request = some (reply, t)) :
    w.run clock store seat s halt = (w.answer reply).run clock store seat t halt := by
  rw [run]
  split <;> simp_all

theorem run_of_readHalt (hn : w.next = some .readHalt) :
    w.run clock store seat s halt = (w.sawHalt halt).run clock store seat s halt := by
  rw [run]
  split <;> simp_all

theorem run_of_raiseHalt (hn : w.next = some .raiseHalt) :
    w.run clock store seat s halt = w.raised.run clock store seat s true := by
  rw [run]
  split <;> simp_all

theorem run_of_readClock (hn : w.next = some .readClock) :
    w.run clock store seat s halt = clock >>= fun now => (w.tick now).run clock store seat s halt := by
  rw [run]
  split <;> simp_all

end Equations

theorem holding_answer (hn : w.next = some (.call request)) (reply : Reply) :
    w.stage.holding.after (request, reply) = some (w.answer reply).stage.holding := by
  have hnext : w.next = some (Crew.Event.call 0 request reply).action := hn
  exact (Holding.afterAll_singleton _ _).symm.trans (moves_of_next hnext).holding

theorem holding_quiet {event : Crew.Event} (hn : w.next = some event.action) (hquiet : event.exchanged = []) :
    (w.after event).stage.holding = w.stage.holding := by
  have hm := (moves_of_next hn).holding
  rw [hquiet] at hm
  exact (Option.some.inj hm).symm

/-- The worker at a place ends, as one of its crew, when it runs alone from some reading of the clock on, and
its seat holds nothing then. -/
def RunsOut (store : Store σ) (Holds : σ → (Nat → Holding) → Prop) (clock : StateM τ UInt64)
    (base place : Nat) (w : Worker) (c : Crew σ) (holding : Nat → Holding) (reading : τ) : Prop :=
  ∃ v t raised later events,
    (w.run clock store (base + place) c.store c.halt).run reading = pure (some (v, t, raised), later) ∧
    v.next = none ∧ Crew.Runs store base c events ⟨t, raised, c.workers.set place v⟩ ∧
    Holds t (Function.update holding (base + place) .nothing)

theorem RunsOut.of_act {clock : StateM τ UInt64} {v : Worker} {c : Crew σ} {s : σ} {halt : Bool}
    (event : Crew.Event) (now : UInt64) {later : Nat → Holding} {reading after : τ}
    (first : c.act store base place now = some (event, ⟨s, halt, c.workers.set place v⟩))
    (hrun : (w.run clock store (base + place) c.store c.halt).run reading =
      (v.run clock store (base + place) s halt).run after)
    (hsame : Function.update later (base + place) .nothing = Function.update holding (base + place) .nothing)
    (rest : RunsOut store Holds clock base place v ⟨s, halt, c.workers.set place v⟩ later after) :
    RunsOut store Holds clock base place w c holding reading := by
  obtain ⟨u, t, raised, last, events, hends, hnext, hruns, ht⟩ := rest
  rw [List.set_set] at hruns
  exact ⟨u, t, raised, last, event :: events, hrun.trans hends, hnext, .act first hruns, hsame ▸ ht⟩

/-- A worker that holds all that is open for a transaction runs to its end, and lets go of everything. -/
theorem runsOut (hstore : store.Attentive Holds) (clock : StateM τ UInt64) {w : Worker} {c : Crew σ}
    (hw : c.workers[place]? = some w) {holding : Nat → Holding} (hs : Holds c.store holding)
    (hheld : holding (base + place) = w.stage.holding)
    (halone : ∀ other, other ≠ base + place → holding other ≠ .transaction) (reading : τ) :
    RunsOut store Holds clock base place w c holding reading := by
  have hlt : place < c.workers.length := (List.getElem?_eq_some_iff.mp hw).1
  have again (v : Worker) : (c.workers.set place v)[place]? = some v := by simp [hlt]
  -- an action that is no call leaves the store and what is held as they are
  have quiet (event : Crew.Event) (halt : Bool) (now : UInt64) {after : τ} (hn : w.next = some event.action)
      (he : event.exchanged = []) (hnearer : Nearer (w.after event).ahead w.ahead)
      (first : c.act store base place now =
        some (event, ⟨c.store, halt, c.workers.set place (w.after event)⟩))
      (hrun : (w.run clock store (base + place) c.store c.halt).run reading =
        ((w.after event).run clock store (base + place) c.store halt).run after) :
      RunsOut store Holds clock base place w c holding reading :=
    .of_act event now first hrun rfl (runsOut hstore clock (c := ⟨c.store, halt, _⟩) (again _) hs
      (hheld.trans (holding_quiet hn he).symm) halone after)
  rcases hn : w.next with _ | (request | _ | _ | _)
  case none =>
    obtain ⟨_, he⟩ := List.getElem?_eq_some_iff.mp hw
    obtain ⟨stop, hstage⟩ := Bench.ended_of_next hn
    have hnothing : holding (base + place) = .nothing := by
      rw [hheld, hstage]
      rfl
    refine ⟨w, c.store, c.halt, reading, [], ?_, hn, ?_, ?_⟩
    · rw [run_of_ended hn]
      rfl
    · rw [← he, List.set_getElem_self]
      exact .done _
    · rwa [← hnothing, Function.update_eq_self]
  case some.call =>
    have hplace := Holding.inPlace_of_after (holding_answer hn (.ok .accepted))
    obtain ⟨reply, t, next, hcall, hafter, ht⟩ := hstore.answers hs halone hheld hplace
    have hnearer := answer_nearer hn reply
    cases (holding_answer hn reply).symm.trans hafter
    refine .of_act (.call place request reply) 0 ?_ (by rw [run_of_call hn hcall])
      (Function.update_idem ..) (runsOut hstore clock (again _) ht (Function.update_self ..) ?_ reading)
    · simp [Crew.act, hw, hn, hcall, Crew.setWorker]
    · intro other hne
      rw [Function.update_of_ne hne]
      exact halone other hne
  case some.readHalt =>
    apply quiet (.readHalt place c.halt) c.halt 0 hn rfl (sawHalt_nearer hn _)
    · simp [Crew.act, hw, hn, Crew.setWorker, after]
    · rw [run_of_readHalt hn]
      rfl
  case some.raiseHalt =>
    apply quiet (.raiseHalt place) true 0 hn rfl (raised_nearer hn)
    · simp [Crew.act, hw, hn, Crew.setWorker, after]
    · rw [run_of_raiseHalt hn]
      rfl
  case some.readClock =>
    let now := (clock reading).1
    apply quiet (.readClock place now) c.halt now hn rfl (tick_nearer hn now)
    · simp [Crew.act, hw, hn, Crew.setWorker, after]
    · rw [run_of_readClock hn]
      rfl
termination_by w.ahead
decreasing_by all_goals exact ‹Nearer _ _›

end Worker

namespace Crew

theorem inTurn_ends (hstore : store.Attentive Holds) (clock : StateM τ UInt64) (now before : List Worker)
    {s : σ} {holding : Nat → Holding} (hs : Holds s holding)
    (hheld : ∀ i w, now[i]? = some w → holding (base + (before.length + i)) = w.stage.holding)
    (halone : ∀ seat, holding seat ≠ .transaction) (halt : Bool) (reading : τ) :
    ∃ done t raised later events,
      (inTurn clock store now (base + before.length) s halt).run reading =
        pure (some (done, t, raised), later) ∧
      (∀ w ∈ done, w.next = none) ∧
      Runs store base ⟨s, halt, before ++ now⟩ events ⟨t, raised, before ++ done⟩ := by
  induction now generalizing before s holding halt reading with
  | nil => exact ⟨[], s, halt, reading, [], rfl, by simp, .done _⟩
  | cons w rest ih =>
    have hw : (before ++ w :: rest)[before.length]? = some w := by simp
    obtain ⟨v, u, raised, later, first, hrun, hend, hfirst, hu⟩ := Worker.runsOut hstore clock
      (c := ⟨s, halt, before ++ w :: rest⟩) hw hs (hheld 0 w rfl) (fun other _ => halone other) reading
    have hheld' : ∀ i x, rest[i]? = some x → Function.update holding (base + before.length) .nothing
        (base + ((before ++ [v]).length + i)) = x.stage.holding := by
      intro i x hx
      rw [Function.update_of_ne (by simp; omega), ← hheld (i + 1) x hx, List.length_append]
      congr 1
      simp
      omega
    have halone' : ∀ seat, Function.update holding (base + before.length) .nothing seat ≠ .transaction := by
      intro seat
      rw [Function.update_apply]
      split
      · decide
      · exact halone seat
    obtain ⟨done, t, flag, last, events, hrest, hdone, hevents⟩ :=
      ih (before ++ [v]) hu hheld' halone' raised later
    refine ⟨v :: done, t, flag, last, first ++ events, ?_, ?_, hfirst.trans ?_⟩
    · rw [List.length_append, List.length_singleton, ← Nat.add_assoc] at hrest
      rw [inTurn, StateT.run_bind, hrun]
      rw [pure_bind]
      dsimp only
      rw [StateT.run_bind, hrest]
      rfl
    · simpa [hend] using hdone
    · simpa using hevents

/-- A session is open on each of the seats of these places, and nothing else. -/
def seated (base : Nat) (places : List Nat) (seat : Nat) : Holding :=
  if seat ∈ places.map (base + ·) then .session else .nothing

theorem seated_ne_transaction (base : Nat) (places : List Nat) (seat : Nat) :
    seated base places seat ≠ .transaction := by
  unfold seated
  split <;> decide

theorem seated_of_not_mem {places : List Nat} (h : place ∉ places) :
    seated base places (base + place) = .nothing := if_neg (mem_seats.not.mpr h)

theorem seated_of_mem {places : List Nat} (h : place ∈ places) :
    seated base places (base + place) = .session := if_pos (mem_seats.mpr h)

theorem update_seated_concat (base : Nat) (places : List Nat) (place : Nat) :
    Function.update (seated base places) (base + place) .session = seated base (places ++ [place]) := by
  funext seat
  rw [Function.update_apply]
  by_cases he : seat = base + place
  · subst he
    rw [if_pos rfl, seated_of_mem (List.mem_append_right _ List.mem_cons_self)]
  · rw [if_neg he]
    simp [seated, he]

theorem update_seated_cons {places : List Nat} (h : place ∉ places) :
    Function.update (seated base (place :: places)) (base + place) .nothing = seated base places := by
  funext seat
  rw [Function.update_apply]
  by_cases he : seat = base + place
  · subst he
    rw [if_pos rfl, seated_of_not_mem h]
  · rw [if_neg he]
    simp [seated, he]

theorem dismiss_ends (hstore : store.Attentive Holds) {places : List Nat} (hnodup : places.Nodup) {s : σ}
    (hs : Holds s (seated base places)) : ∃ t, dismiss store (places.map (base + ·)) s = some t := by
  induction places generalizing s with
  | nil => exact ⟨s, rfl⟩
  | cons place places ih =>
    obtain ⟨hnot, hnodup⟩ := List.nodup_cons.mp hnodup
    obtain ⟨reply, t, next, hcall, hafter, ht⟩ := hstore.answers hs
      (fun other _ => seated_ne_transaction _ _ other) (seated_of_mem List.mem_cons_self) .dropSession
    cases hafter
    rw [update_seated_cons hnot] at ht
    obtain ⟨u, hu⟩ := ih hnodup ht
    refine ⟨u, ?_⟩
    rw [List.map_cons, dismiss, hcall]
    exact hu

theorem hire_ends (hstore : store.Attentive Holds) (left : Nat) {s : σ}
    (hs : Holds s (seated base (eagerBefore post place))) :
    ∃ outcome t, hire store base post left place s = some (outcome, t) ∧
      ∀ workers, outcome = .ok workers → Holds t (seated base (eagerBefore post (place + left))) := by
  induction left generalizing place s with
  | zero => exact ⟨.ok [], s, rfl, fun _ _ => hs⟩
  | succ left ih =>
    have hnot : place ∉ eagerBefore post place := fun h => Nat.lt_irrefl _ (lt_of_mem_eagerBefore h)
    have hnext := eagerBefore_succ post place
    rw [show place + (left + 1) = place + 1 + left by omega]
    have hjoined {first : Worker} {u : σ} (joins : Joins store (base + place) (post place) s first u)
        (hu : Holds u (seated base (eagerBefore post (place + 1)))) :
        ∃ outcome t, hire store base post (left + 1) place s = some (outcome, t) ∧ ∀ workers,
          outcome = .ok workers → Holds t (seated base (eagerBefore post (place + 1 + left))) := by
      obtain ⟨outcome, t, rest, ht⟩ := ih hu
      cases outcome with
      | ok workers => exact ⟨_, t, hire_of_hires (.joined joins rest), fun _ _ => ht workers rfl⟩
      | error stop => exact ⟨_, t, hire_of_hires (.inVain joins rest), by simp⟩
    cases mode : (post place).workload.sessionStart with
    | lazy =>
      rw [mode, if_neg (by decide), List.append_nil] at hnext
      exact hjoined (.lazy mode) (hnext ▸ hs)
    | eager =>
      rw [mode, if_pos rfl] at hnext
      obtain ⟨reply, t, next, hcall, hafter, ht⟩ := hstore.answers hs
        (fun other _ => seated_ne_transaction _ _ other) (seated_of_not_mem hnot)
        (.openSession (post place).table)
      cases reply with
      | error stop =>
        cases hafter
        rw [← seated_of_not_mem hnot, Function.update_eq_self] at ht
        obtain ⟨u, dismissed⟩ := dismiss_ends hstore (nodup_eagerBefore post place) ht
        exact ⟨_, u, hire_of_hires (.refused mode hcall dismissed), by simp⟩
      | ok verdict =>
        cases hafter
        rw [update_seated_concat, ← hnext] at ht
        exact hjoined (.eager mode hcall) ht

theorem holding_of_muster {workers : List Worker} {s t : σ} {size : Nat}
    (hire : hire store base post size 0 s = some (.ok workers, t)) (short : Option Shortage)
    (i : Nat) (w : Worker) (hw : (muster short workers)[i]? = some w) :
    seated base (eagerBefore post size) (base + i) = w.stage.holding := by
  have hlt := (List.getElem?_eq_some_iff.mp hw).1
  rw [length_muster, (hire_workers hire).1] at hlt
  rw [holding_muster hire short hw, holding_hired post hlt, seated]
  simp only [mem_seats]

end Crew

namespace Bench

variable {b : Bench} {createdAt : Int64}

/-- A run on a store that is attentive ends, as under some schedule. -/
theorem runOn_ends (hstore : store.Attentive Holds) (b : Bench) (clock : StateM τ UInt64) (createdAt : Int64)
    {s : σ} (hs : Holds s fun _ => .nothing) (short : Option Crew.Shortage) (reading : τ) :
    ∃ result t later log,
      (b.runOn clock createdAt store base s short).run reading = pure (some (result, t), later) ∧
      b.Returns createdAt store base (Crew.Runs store base) s (b.met short) log result t := by
  have hnone : (fun _ => Holding.nothing) = Crew.seated base (Crew.eagerBefore (b.post createdAt) 0) := by
    funext seat
    rfl
  obtain ⟨outcome, t, hhire, ht⟩ := Crew.hire_ends hstore b.workload.threads.toNat (hnone ▸ hs)
  cases outcome with
  | error stop => exact ⟨.error stop, t, reading, [], by rw [runOn, hhire]; rfl, .unmanned hhire⟩
  | ok workers =>
    have hopen := ht workers rfl
    rw [Nat.zero_add] at hopen
    have hheld : ∀ i w, (Crew.muster (b.met short) workers)[i]? = some w → Crew.seated base
        (Crew.eagerBefore (b.post createdAt) b.workload.threads.toNat)
          (base + (([] : List Worker).length + i)) = w.stage.holding := by
      intro i w hw
      rw [List.length_nil, Nat.zero_add]
      exact Crew.holding_of_muster hhire _ i w hw
    obtain ⟨since, started, hclock⟩ : ∃ now next, clock.run reading = pure (now, next) := ⟨_, _, rfl⟩
    obtain ⟨done, u, raised, later, log, hturn, hended, hruns⟩ := Crew.inTurn_ends hstore clock _ []
      hopen hheld (Crew.seated_ne_transaction _ _) false started
    rw [List.length_nil, Nat.add_zero] at hturn
    cases hmet : b.met short with
    | none =>
      rw [hmet] at hturn hruns
      obtain ⟨now, last, hnow⟩ : ∃ now next, clock.run later = pure (now, next) := ⟨_, _, rfl⟩
      let found := b.conclude store (.ofMicros (now - since)) done u
      refine ⟨found.1, found.2, last, log, ?_, .manned (.hired hhire hruns) hended rfl⟩
      simp [runOn, hhire, hclock, hmet, hturn, hnow, found]
    | some found =>
      rw [hmet] at hturn hruns
      refine ⟨_, u, later, log, ?_, .brokenOff (place_of_met hmet) (.hired hhire hruns) hended⟩
      simp [runOn, hhire, hclock, hmet, hturn]

/-- What is reported of a run on a new store: a failure of the run comes before one of ending the store. -/
def settle (store : Store σ) (result : Except Stop Report) (t : σ) : Except Stop Report := do
  let report ← result
  match store.shut t with
  | .ok _ => return report
  | .error stop => throw (stop.during .closeStore)

theorem settle_of_shut {result : Except Stop Report} {t : σ} (h : store.shut t = .ok ()) :
    settle store result t = result := by
  cases result with
  | error stop => rfl
  | ok report =>
    simp only [settle, h]
    rfl

theorem run_ends (hstore : store.Attentive Holds) (b : Bench) (clock : StateM τ UInt64) (createdAt : Int64)
    {s : σ} (hs : Holds s fun _ => .nothing) (short : Option Crew.Shortage) (reading : τ) :
    ∃ result t later log,
      (b.run clock createdAt store s short).run reading = pure (some (settle store result t), later) ∧
      b.Returns createdAt store 0 (Crew.Runs store 0) s (b.met short) log result t := by
  obtain ⟨result, t, later, log, hrun, hreturns⟩ := runOn_ends hstore b clock createdAt hs short reading
  refine ⟨result, t, later, log, ?_, hreturns⟩
  rw [run, StateT.run_bind, hrun]
  rcases result with (why | how) | report
  all_goals rfl

end Bench

end InsertBench
