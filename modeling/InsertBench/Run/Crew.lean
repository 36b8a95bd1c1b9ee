import InsertBench.Run.Worker

/-! # Crews

A crew is all workers of a run on their common store, with the halt flag that they share. Its workers
act one at a time in any order: `act` is one action of one worker, and `Runs` relates a crew to what
becomes of it under any schedule, along with everything that happened.
-/
namespace InsertBench

structure Crew (σ : Type) where
  store : σ
  halt : Bool
  workers : List Worker

namespace Crew

/-- What a worker, given by its place in the crew, did. -/
inductive Event
  | call (worker : Nat) (request : Request) (reply : Reply)
  | readHalt (worker : Nat) (raised : Bool)
  | raiseHalt (worker : Nat)
  | readClock (worker : Nat) (now : UInt64)

variable {σ : Type}

def setWorker (c : Crew σ) (place : Nat) (w : Worker) : Crew σ :=
  { c with workers := c.workers.set place w }

/-- The next action of one worker, at a time. Workers sit on consecutive seats of the store, of which
the first one is given. Nothing can be done by a worker that has ended or that has to wait. -/
def act (store : Store σ) (base : Nat) (c : Crew σ) (place : Nat) (now : UInt64) :
    Option (Event × Crew σ) := do
  let w ← c.workers[place]?
  match ← w.next with
  | .call request =>
    let (reply, s) ← store.call c.store (base + place) request
    return (.call place request reply, { c with store := s }.setWorker place (w.answer reply))
  | .readHalt => return (.readHalt place c.halt, c.setWorker place (w.sawHalt c.halt))
  | .raiseHalt => return (.raiseHalt place, { c with halt := true }.setWorker place w.raised)
  | .readClock => return (.readClock place now, c.setWorker place (w.tick now))

/-- What a crew becomes under some schedule, and what happened on the way. -/
inductive Runs (store : Store σ) (base : Nat) : Crew σ → List Event → Crew σ → Prop
  | done (c : Crew σ) : Runs store base c [] c
  | act {c d e : Crew σ} {place : Nat} {now : UInt64} {event : Event} {events : List Event}
      (first : c.act store base place now = some (event, d)) (rest : Runs store base d events e) :
      Runs store base c (event :: events) e

theorem Runs.trans {store : Store σ} {base : Nat} {c d e : Crew σ} {xs ys : List Event}
    (h : Runs store base c xs d) (k : Runs store base d ys e) : Runs store base c (xs ++ ys) e := by
  induction h with
  | done c => exact k
  | act first _ ih => exact .act first (ih k)

/-- The system has no thread for the worker at a place, and says why. -/
structure Shortage where
  place : Nat
  reason : String
deriving DecidableEq

def Shortage.failure (short : Shortage) : Failure :=
  .during (.startWorker short.place.toUInt64) (.reported short.reason)

/-- The workers as they stand when the crew begins to act. Where threads run short, the workers from that
place on do not work: they let go of their sessions, and the first of them has the halt flag raised. -/
def muster : Option Shortage → List Worker → List Worker
  | none, workers => workers
  | some short, workers => workers.mapIdx fun place w =>
    if place < short.place then w
    else if place = short.place then w.strand short.failure
    else w.standDown

def dismiss (store : Store σ) : List Nat → σ → Option σ
  | [], s => some s
  | seat :: seats, s =>
    match store.call s seat .dropSession with
    | some (_, s) => dismiss store seats s
    | none => none

/-- The places before one whose workers open their sessions when they are hired. -/
def eagerBefore (post : Nat → Post) (place : Nat) : List Nat :=
  (List.range place).filter fun i => (post i).workload.sessionStart = .eager

/-- Fills as many posts as are left, from a place on and in order; a post is looked at only when it is
filled. Eager workers open their sessions here; if one cannot, the sessions that were opened before are
dropped. -/
def hire (store : Store σ) (base : Nat) (post : Nat → Post) :
    (left place : Nat) → σ → Option (Except Stop (List Worker) × σ)
  | 0, _, s => some (.ok [], s)
  | left + 1, place, s =>
    match (post place).workload.sessionStart with
    | .lazy =>
      match hire store base post left (place + 1) s with
      | some (.ok workers, s) => some (.ok (.new (post place) :: workers), s)
      | outcome => outcome
    | .eager =>
      match store.call s (base + place) (.openSession (post place).table) with
      | none => none
      | some (.error stop, s) =>
        (dismiss store ((eagerBefore post place).map (base + ·)) s).map fun s =>
          (.error (stop.during (.openSession (post place).id)), s)
      | some (.ok verdict, s) =>
        match hire store base post left (place + 1) s with
        | some (.ok workers, s) =>
          some (.ok ((Worker.new (post place)).answer (.ok verdict) :: workers), s)
        | outcome => outcome

end Crew

end InsertBench
