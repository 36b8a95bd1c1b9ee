import InsertBench.Proofs.Batch.Calls
import InsertBench.Proofs.Worker.Moves

/-! # What seats hold

The calls through a seat tell what is open there: nothing, a session, or a session with a transaction.
However a store replies, a worker makes no call out of place, and holds what it is about to use or let go
of in each of its stages.
-/
namespace InsertBench

inductive Holding
  | nothing
  | session
  | transaction
deriving DecidableEq

namespace Holding

/-- What a seat holds after a call, unless the call is out of place. What is to end by a call has ended
whatever the reply is. -/
def after : Holding → Exchange → Option Holding
  | .nothing, (.openSession _, .ok _) => some .session
  | .nothing, (.openSession _, .error _) => some .nothing
  | .session, (.beginTxn, .ok _) => some .transaction
  | .session, (.beginTxn, .error _) => some .session
  | .session, (.close, _) | .session, (.dropSession, _) => some .nothing
  | .transaction, (.insert .., _) | .transaction, (.prepare _, _) => some .transaction
  | .transaction, (.commit, _) | .transaction, (.abort, _) | .transaction, (.dropTxn, _) => some .session
  | _, _ => none

def afterAll (h : Holding) (calls : List Exchange) : Option Holding := calls.foldlM after h

theorem afterAll_append {h k : Holding} {calls more : List Exchange} (hcalls : h.afterAll calls = some k) :
    h.afterAll (calls ++ more) = k.afterAll more := by
  rw [afterAll, List.foldlM_append]
  change (h.afterAll calls).bind _ = _
  rw [hcalls]
  rfl

theorem afterAll_singleton (h : Holding) (call : Exchange) : h.afterAll [call] = h.after call := by
  change (h.after call).bind some = _
  cases h.after call <;> rfl

end Holding

namespace Exchange

def opens : Exchange → Bool
  | (.openSession _, .ok _) => true
  | _ => false

def releases : Exchange → Bool
  | (.close, _) | (.dropSession, _) => true
  | _ => false

def begins : Exchange → Bool
  | (.beginTxn, .ok _) => true
  | _ => false

def ends : Exchange → Bool
  | (.commit, _) | (.abort, _) | (.dropTxn, _) => true
  | _ => false

end Exchange

/-- Sessions that are opened and released, and transactions that begin and end, by what is held. -/
theorem Holding.counts_of_after {h k : Holding} {call : Exchange} (hafter : h.after call = some k) :
    (if call.opens then 1 else 0) + (if h = .nothing then 0 else 1) =
        (if call.releases then 1 else 0) + (if k = .nothing then 0 else 1) ∧
      (if call.begins then 1 else 0) + (if h = .transaction then 1 else 0) =
        (if call.ends then 1 else 0) + if k = .transaction then 1 else 0 := by
  obtain ⟨request, reply⟩ := call
  cases h <;> cases request <;> simp only [after, reduceCtorEq] at hafter
  case nothing.openSession | session.beginTxn =>
    cases reply <;> cases hafter <;> exact ⟨rfl, rfl⟩
  all_goals
    cases hafter
    exact ⟨rfl, rfl⟩

theorem Holding.counts {h k : Holding} {calls : List Exchange} (hcalls : h.afterAll calls = some k) :
    calls.countP Exchange.opens + (if h = .nothing then 0 else 1) =
        calls.countP Exchange.releases + (if k = .nothing then 0 else 1) ∧
      calls.countP Exchange.begins + (if h = .transaction then 1 else 0) =
        calls.countP Exchange.ends + if k = .transaction then 1 else 0 := by
  induction calls generalizing h with
  | nil =>
    cases hcalls
    exact ⟨rfl, rfl⟩
  | cons call calls ih =>
    change (h.after call).bind _ = _ at hcalls
    obtain ⟨next, hnext, hrest⟩ := Option.bind_eq_some_iff.mp hcalls
    have hone := counts_of_after hnext
    have hall := ih hrest
    simp only [List.countP_cons]
    omega

structure Call where
  seat : Nat
  request : Request
  reply : Reply

def callsAt (calls : List Call) (seat : Nat) : List Exchange :=
  calls.filterMap fun call => if call.seat = seat then some (call.request, call.reply) else none

@[simp] theorem callsAt_nil (seat : Nat) : callsAt [] seat = [] := rfl

@[simp] theorem callsAt_append (calls more : List Call) (seat : Nat) :
    callsAt (calls ++ more) seat = callsAt calls seat ++ callsAt more seat := List.filterMap_append ..

theorem callsAt_singleton (call : Call) (seat : Nat) :
    callsAt [call] seat = if call.seat = seat then [(call.request, call.reply)] else [] := by
  unfold callsAt
  split <;> simp_all

def Crew.Event.exchanged : Crew.Event → List Exchange
  | .call _ request reply => [(request, reply)]
  | _ => []

namespace Worker

/-- What a worker has open in a stage. -/
def Stage.holding : Stage → Holding
  | .opening | .raising _ | .ended _ => .nothing
  | .running _ _ ⟨_, .starting⟩ => .session
  | .running .. => .transaction
  | .polling _ | .starting _ | .stopping .. | .closing | .releasing _ | .leaving => .session

theorem holding_goOn (w : Worker) (round : Nat) : (w.goOn round).stage.holding = .session := by
  unfold goOn
  split
  · dsimp only [moveTo]
    split <;> rfl
  · rfl

theorem holding_fail (w : Worker) (stop : Stop) :
    (w.fail stop).stage.holding = .nothing := by cases stop <;> rfl

theorem holding_phaseAt (p : Batch.Plan) (round offset : Nat) (since conflicts : UInt64) :
    (Stage.running round since ⟨conflicts, p.phaseAt offset⟩).holding = .transaction := by
  unfold Batch.Plan.phaseAt
  split
  · split <;> rfl
  · split
    · split <;> rfl
    · rfl

variable {w v : Worker} {event : Crew.Event}

/-- No call of a worker is out of place, and it holds afterwards what its stage needs. -/
theorem Moves.holding (h : Moves w event v) :
    w.stage.holding.afterAll event.exchanged = some v.stage.holding := by
  cases h with
  | opened stage =>
    rw [stage, holding_goOn]
    rfl
  | openFailed stage | closeFailed stage | released stage =>
    rw [stage, holding_fail]
    rfl
  | begun stage | inserted stage =>
    rw [stage]
    exact congrArg some (holding_phaseAt ..).symm
  | counted stage _ =>
    rw [stage, holding_goOn]
    rfl
  | carriedOn stage | halted stage | started stage | beginFailed stage | lockedOut stage
  | insertFailed stage | redone stage _ | gaveUp stage | prepared stage | prepareFailed stage
  | committed stage | commitFailed stage | rolledBack stage | uncounted stage _ | closed stage
  | left stage | raised stage =>
    rw [stage]
    rfl

end Worker

namespace Crew

def Event.placed (base : Nat) (event : Event) : List Call :=
  event.exchanged.map fun call => ⟨base + event.worker, call.1, call.2⟩

def callsOf (base : Nat) (log : List Event) : List Call := log.flatMap (Event.placed base)

theorem callsAt_placed (base place : Nat) (event : Event) :
    callsAt (event.placed base) (base + place) = if event.worker = place then event.exchanged else [] := by
  by_cases he : event.worker = place
  · subst he
    rw [if_pos rfl]
    cases event <;> simp [Event.placed, Event.exchanged, Event.worker, callsAt_singleton]
  · rw [if_neg he]
    cases event <;> simp_all [Event.placed, Event.exchanged, Event.worker, callsAt_singleton]

theorem callsAt_callsOf (base : Nat) (log : List Event) (place : Nat) :
    callsAt (callsOf base log) (base + place) = (eventsOf log place).flatMap Event.exchanged := by
  induction log with
  | nil => rfl
  | cons event log ih =>
    have hsplit : eventsOf (event :: log) place = eventsOf [event] place ++ eventsOf log place :=
      eventsOf_append [event] log place
    rw [hsplit, List.flatMap_append, ← ih, eventsOf_singleton]
    change callsAt (event.placed base ++ callsOf base log) (base + place) = _
    rw [callsAt_append, callsAt_placed]
    split <;> simp

theorem callsAt_callsOf_eq_nil {log : List Event} {seat : Nat}
    (h : ∀ event ∈ log, base + event.worker ≠ seat) : callsAt (callsOf base log) seat = [] := by
  simp only [callsAt, callsOf, List.filterMap_eq_nil_iff, List.mem_flatMap, Event.placed, List.mem_map]
  rintro _ ⟨event, hevent, call, _, rfl⟩
  exact if_neg (h event hevent)

end Crew

end InsertBench
