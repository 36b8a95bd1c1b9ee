import InsertBench.Proofs.Bench.Blaming
import InsertBench.Proofs.Commit.Basic
import Mathlib.Logic.Function.Basic

/-! # Crews that are not hired

Eager workers open their sessions while the crew is hired. If one of them cannot, the run ends there: the
sessions opened before are dropped again and nobody starts.
-/
namespace InsertBench

namespace Store.Takes

variable {σ : Type} {store : Store σ} {s t : σ} {calls : List Call}

theorem recorded (h : store.Takes s calls t) (before : List Call) :
    store.recorded.Takes (s, before) calls (t, before ++ calls) := by
  induction h with
  | start =>
    rw [List.append_nil]
    exact .start
  | call _ last ih =>
    refine .call ih ?_
    change (store.call _ _ _).map _ = _
    rw [last, ← List.append_assoc]
    rfl

theorem counting (h : store.Takes s calls t) (counts : List String) :
    store.counting.Takes (s, counts) calls (t, counts) := by
  induction h with
  | start => exact .start
  | call _ last ih =>
    refine .call ih ?_
    change (store.call _ _ _).map _ = _
    rw [last]
    rfl

theorem keeps {α : Type} {view : σ → α} (h : store.Takes s calls t)
    (hview : ∀ call ∈ calls, ∀ u v, store.call u call.seat call.request = some (call.reply, v) →
      view v = view u) : view t = view s := by
  induction h with
  | start => rfl
  | call _ last ih =>
    obtain ⟨hcalls, hcall⟩ := List.forall_mem_append.mp hview
    rw [hcall _ (List.mem_singleton_self _) _ _ last, ih hcalls]

end Store.Takes

namespace Crew

variable {σ : Type} {store : Store σ} {base : Nat} {post : Nat → Post} {s t : σ}

def opens (base : Nat) (post : Nat → Post) (opened : Nat → Verdict) (place count : Nat) : List Call :=
  (List.range' place count).map fun i => ⟨base + i, .openSession (post i).table, .ok (opened i)⟩

def drops (base : Nat) (dropped : Nat → Reply) (places : List Nat) : List Call :=
  places.map fun i => ⟨base + i, .dropSession, dropped i⟩

theorem dismiss_of_takes {dropped : Nat → Reply} {places : List Nat}
    (h : store.Takes s (drops base dropped places) t) : dismiss store (places.map (base + ·)) s = some t := by
  induction places generalizing s with
  | nil =>
    obtain rfl := Store.takes_nil.mp h
    rfl
  | cons i places ih =>
    obtain ⟨u, first, rest⟩ := Store.takes_cons.mp h
    rw [List.map_cons, dismiss, first]
    exact ih rest

theorem takes_of_dismiss {places : List Nat} (hnodup : places.Nodup)
    (h : dismiss store (places.map (base + ·)) s = some t) :
    ∃ dropped, store.Takes s (drops base dropped places) t := by
  induction places generalizing s with
  | nil =>
    cases h
    exact ⟨fun _ => .ok .accepted, .start⟩
  | cons i places ih =>
    obtain ⟨hnot, hnodup⟩ := List.nodup_cons.mp hnodup
    rw [List.map_cons, dismiss] at h
    split at h
    · rename_i reply u first
      obtain ⟨dropped, hrest⟩ := ih hnodup h
      have hsame : drops base dropped places = drops base (Function.update dropped i reply) places := by
        refine List.map_congr_left fun j hj => ?_
        rw [Function.update_of_ne (ne_of_mem_of_not_mem hj hnot)]
      rw [hsame] at hrest
      refine ⟨Function.update dropped i reply, Store.takes_cons.mpr ⟨u, ?_, hrest⟩⟩
      dsimp only
      rwa [Function.update_self]
    · cases h

theorem eagerBefore_eager (heager : ∀ i, (post i).workload.sessionStart = .eager) (place : Nat) :
    eagerBefore post place = List.range place :=
  List.filter_eq_self.mpr fun i _ => decide_eq_true (heager i)

/-- The crew is not hired if one opening fails: the sessions opened before are dropped, and that is all. -/
theorem hire_refused (heager : ∀ i, (post i).workload.sessionStart = .eager) {opened : Nat → Verdict}
    {stop : Stop} {left place count : Nat} {u v : σ} (hcount : count < left)
    (h : store.Takes s (opens base post opened place count) u)
    (failed : store.call u (base + (place + count)) (.openSession (post (place + count)).table) =
      some (.error stop, v)) :
    hire store base post left place s =
      (dismiss store ((List.range (place + count)).map (base + ·)) v).map fun t =>
        (.error (stop.during (.openSession (post (place + count)).id)), t) := by
  induction count generalizing left place s with
  | zero =>
    obtain ⟨left, rfl⟩ := Nat.exists_eq_succ_of_ne_zero (by omega : left ≠ 0)
    obtain rfl := Store.takes_nil.mp h
    rw [Nat.add_zero] at failed ⊢
    rw [hire, heager]
    dsimp only
    rw [failed]
    dsimp only
    rw [eagerBefore_eager heager]
  | succ count ih =>
    obtain ⟨left, rfl⟩ := Nat.exists_eq_succ_of_ne_zero (by omega : left ≠ 0)
    have hshift : place + (count + 1) = place + 1 + count := by omega
    rw [hshift] at failed ⊢
    rw [opens, List.range'_succ] at h
    obtain ⟨_, first, rest⟩ := Store.takes_cons.mp h
    dsimp only at first
    rw [hire, heager]
    dsimp only
    rw [first]
    dsimp only
    rw [ih (by omega) rest failed]
    cases dismiss store ((List.range (place + 1 + count)).map (base + ·)) v <;> rfl

theorem hire_lazy (hlazy : ∀ i, (post i).workload.sessionStart = .lazy) (left place : Nat) (s : σ) :
    hire store base post left place s =
      some (.ok ((List.range' place left).map fun i => .new (post i)), s) := by
  induction left generalizing place with
  | zero => rfl
  | succ left ih => exact hire_of_hires (.joined (.lazy (hlazy place)) (ih (place + 1)))

end Crew

namespace Bench

open Crew (Event eventsOf)

variable {σ : Type} {store : Store σ} {b : Bench} {createdAt : Int64} {base place : Nat} {s t u : σ}
  {opened : Nat → Verdict} {dropped : Nat → Reply} {why : Failure} {short : Option Crew.Shortage}

/-- What opening sessions comes to when the worker at a place is the first that cannot open its own. -/
def openings (b : Bench) (base : Nat) (opened : Nat → Verdict) (place : Nat) (why : Failure) : List Call :=
  (List.range place).map (fun i => ⟨base + i, .openSession b.table, .ok (opened i)⟩) ++
    [⟨base + place, .openSession b.table, .error (.failed why)⟩]

def refusedCalls (b : Bench) (base : Nat) (opened : Nat → Verdict) (dropped : Nat → Reply) (place : Nat)
    (why : Failure) : List Call :=
  b.openings base opened place why ++ (List.range place).map fun i => ⟨base + i, .dropSession, dropped i⟩

def refusal (place : Nat) (why : Failure) : Stop := .failed (.during (.openSession place.toUInt64) why)

theorem message_refusal (hp : place < UInt64.size) (why : Failure) :
    (refusal place why).message = s!"worker {place}: open session: {why.message}" := by
  have hopen : ": open session: " = ": open session" ++ ": " := rfl
  change "worker " ++ toString place.toUInt64 ++ ": open session" ++ ": " ++ why.message =
    "worker " ++ toString place ++ ": open session: " ++ why.message
  simp only [Word.toString_toUInt64 hp, hopen, String.append_assoc]

theorem hire_openings (createdAt : Int64) (heager : b.workload.sessionStart = .eager)
    (hp : place < b.workload.threads.toNat) (h : store.Takes s (b.openings base opened place why) u) :
    Crew.hire store base (b.post createdAt) b.workload.threads.toNat 0 s =
      (Crew.dismiss store ((List.range place).map (base + ·)) u).map fun t =>
      (.error (refusal place why), t) := by
  have hopens : Crew.opens base (b.post createdAt) opened 0 place =
      (List.range place).map fun i => ⟨base + i, .openSession b.table, .ok (opened i)⟩ := by
    rw [Crew.opens, ← List.range_eq_range']
    rfl
  obtain ⟨v, hopened, hlast⟩ := Store.takes_append.mp h
  obtain ⟨_, failed, hnone⟩ := Store.takes_cons.mp hlast
  obtain rfl := Store.takes_nil.mp hnone
  rw [← hopens] at hopened
  rw [← Nat.zero_add place] at failed
  have hhire := Crew.hire_refused (fun _ => heager) hp hopened failed
  rwa [Nat.zero_add] at hhire

theorem hire_turnedAway (createdAt : Int64) (heager : b.workload.sessionStart = .eager)
    (hp : place < b.workload.threads.toNat)
    (h : store.Takes s (b.refusedCalls base opened dropped place why) t) :
    Crew.hire store base (b.post createdAt) b.workload.threads.toNat 0 s =
      some (.error (refusal place why), t) := by
  obtain ⟨u, hopened, hdropped⟩ := Store.takes_append.mp h
  rw [hire_openings createdAt heager hp hopened, Crew.dismiss_of_takes hdropped]
  rfl

/-- Whatever a run returns whose openings come to this, the sessions were dropped and nobody started. -/
theorem refused_of_returns {goes : Crew σ → List Event → Crew σ → Prop} {log : List Event}
    {result : Except Stop Report} (heager : b.workload.sessionStart = .eager)
    (hp : place < b.workload.threads.toNat) (h : store.Takes s (b.openings base opened place why) u)
    (hreturns : b.Returns createdAt store base goes s short log result t) :
    log = [] ∧ result = .error (refusal place why) ∧
      ∃ dropped, store.Takes s (b.refusedCalls base opened dropped place why) t := by
  have hhire := hire_openings createdAt heager hp h
  cases hreturns with
  | unmanned hire =>
    rw [hhire] at hire
    obtain ⟨_, dismissed, he⟩ := Option.map_eq_some_iff.mp hire
    cases he
    obtain ⟨dropped, hdropped⟩ := Crew.takes_of_dismiss List.nodup_range dismissed
    exact ⟨rfl, rfl, dropped, Store.takes_append.mpr ⟨u, h, hdropped⟩⟩
  | manned reached _ _ | brokenOff _ reached _ =>
    obtain ⟨hire, _⟩ := reached
    rw [hhire] at hire
    obtain ⟨_, _, he⟩ := Option.map_eq_some_iff.mp hire
    cases he

/-- The run ends with the hiring, whether or not there are threads: it makes these calls and no others,
counts no rows, and nobody starts. -/
structure TurnedAway (b : Bench) (store : Store σ) (createdAt : Int64) (base : Nat) (s t : σ)
    (calls : List Call) (stop : Stop) : Prop where
  runOn {m : Type → Type} [Monad m] (clock : m UInt64) (short : Option Crew.Shortage) :
    b.runOn clock createdAt store base s short = pure (some (.error stop, t))
  recorded {m : Type → Type} [Monad m] (clock : m UInt64) (short : Option Crew.Shortage) :
    b.runOn clock createdAt store.counting.recorded base ((s, []), []) short =
      pure (some (.error stop, (t, []), calls))
  returns (short : Option Crew.Shortage) (log : List Event) (result : Except Stop Report)
    (u : (σ × List String) × List Call) :
    b.Returns createdAt store.counting.recorded base (Crew.Runs store.counting.recorded base)
      ((s, []), []) short log result u → log = [] ∧ result = .error stop ∧ u = ((t, []), calls)

theorem runOn_of_hire {stop : Stop} {m : Type → Type} [Monad m] (clock : m UInt64)
    (short : Option Crew.Shortage)
    (h : Crew.hire store base (b.post createdAt) b.workload.threads.toNat 0 s = some (.error stop, t)) :
    b.runOn clock createdAt store base s short = pure (some (.error stop, t)) := by
  rw [runOn, h]

theorem turnedAway_of_takes (heager : b.workload.sessionStart = .eager)
    (hp : place < b.workload.threads.toNat)
    (h : store.Takes s (b.refusedCalls base opened dropped place why) t) :
    b.TurnedAway store createdAt base s t (b.refusedCalls base opened dropped place why)
      (refusal place why) := by
  have hrecorded := hire_turnedAway createdAt heager hp ((h.counting []).recorded [])
  rw [List.nil_append] at hrecorded
  constructor
  case runOn => exact fun clock short => runOn_of_hire clock short (hire_turnedAway createdAt heager hp h)
  case recorded => exact fun clock short => runOn_of_hire clock short hrecorded
  case returns =>
    intro short log result u hreturns
    cases hreturns with
    | unmanned hire =>
      rw [hrecorded] at hire
      cases hire
      exact ⟨rfl, rfl, rfl⟩
    | manned reached _ _ | brokenOff _ reached _ =>
      obtain ⟨hire, _⟩ := reached
      rw [hrecorded] at hire
      cases hire

theorem kept_of_takes {α : Type} {view : σ → α}
    (hopen : ∀ u seat table reply v, store.call u seat (.openSession table) = some (reply, v) →
      view v = view u)
    (hdrop : ∀ u seat reply v, store.call u seat .dropSession = some (reply, v) → view v = view u)
    (h : store.Takes s (b.refusedCalls base opened dropped place why) t) : view t = view s := by
  refine h.keeps fun call hmem u v hcall => ?_
  simp only [refusedCalls, openings, List.mem_append, List.mem_map, List.mem_singleton] at hmem
  rcases hmem with (⟨i, _, rfl⟩ | rfl) | ⟨i, _, rfl⟩
  · exact hopen _ _ _ _ _ hcall
  · exact hopen _ _ _ _ _ hcall
  · exact hdrop _ _ _ _ hcall

end Bench

end InsertBench
