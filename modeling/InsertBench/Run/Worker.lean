import InsertBench.Latency.Histogram
import InsertBench.Run.Batch

/-! # Workers

A worker commits its share of batches through one session that it owns alone, and then closes it. It
reads a shared halt flag before each batch and stops early once the flag is raised; it raises the flag
itself when it fails. Whatever happens, its session is closed or dropped. Like a batch, a worker is a
machine that takes one action after another, and it ends however its actions turn out.
-/
namespace InsertBench

structure Post where
  id : UInt64
  table : String
  workload : Workload
  createdAt : Int64
deriving DecidableEq

structure Tally where
  id : UInt64
  rows : UInt64
  batches : UInt64
  conflicts : UInt64
  /-- Microseconds that each batch took, its retries included. -/
  latency : Histogram

def Tally.zero (id : UInt64) : Tally := ⟨id, 0, 0, 0, .empty⟩

def Tally.addBatch (t : Tally) (rows conflicts micros : UInt64) : Except Fault Tally := do
  let rows ← Word.add t.rows rows
  let batches ← Word.add t.batches 1
  let conflicts ← Word.add t.conflicts conflicts
  return ⟨t.id, rows, batches, conflicts, t.latency.record micros 1⟩

inductive Worker.Stage
  | opening
  /-- Before the halt flag is read for a round. -/
  | polling (round : Nat)
  /-- Before the clock is read for a round. -/
  | starting (round : Nat)
  | running (round : Nat) (since : UInt64) (batch : Batch)
  /-- After the batch of a round has committed, before the clock is read again. -/
  | stopping (round : Nat) (since conflicts : UInt64)
  | closing
  /-- Letting go of the session before ending for a reason. -/
  | releasing (why : Stop)
  /-- Letting go of the session of a worker that does not start. -/
  | leaving
  /-- Before the halt flag is raised for a failure. -/
  | raising (why : Failure)
  | ended (stop : Option Stop)
deriving DecidableEq

structure Worker where
  post : Post
  tally : Tally
  stage : Worker.Stage
  /-- What the rows of all its batches are written into before they are inserted. -/
  buffer : Bytes

namespace Worker

inductive Action
  | call (request : Request)
  | readHalt
  | raiseHalt
  | readClock
deriving DecidableEq

def moveTo (w : Worker) (stage : Stage) : Worker := { w with stage }

def new (post : Post) : Worker := ⟨post, .zero post.id, .opening, []⟩

def plan (w : Worker) (round : Nat) : Batch.Plan :=
  ⟨w.post.workload, w.post.createdAt, w.post.id, round.toUInt64⟩

/-- With an open session and the rounds before this one done: the round, or else the end. -/
def goOn (w : Worker) (round : Nat) : Worker :=
  match w.post.workload.rounds with
  | .ok rounds => w.moveTo (if round < rounds.toNat then .polling round else .closing)
  | .error how => w.moveTo (.releasing (.crashed how))

/-- How a worker ends that holds nothing any more: a failure makes it raise the halt flag first, a fault
ends it as it is. -/
def fail (w : Worker) : Stop → Worker
  | .failed why => w.moveTo (.raising why)
  | .crashed how => w.moveTo (.ended (some (.crashed how)))

def next (w : Worker) : Option Action :=
  match w.stage with
  | .opening => some (.call (.openSession w.post.table))
  | .polling _ => some .readHalt
  | .starting _ => some .readClock
  | .running round _ batch => some (.call (batch.ask (w.plan round) w.buffer).1)
  | .stopping .. => some .readClock
  | .closing => some (.call .close)
  | .releasing _ | .leaving => some (.call .dropSession)
  | .raising _ => some .raiseHalt
  | .ended _ => none

/-- With its buffer as the next call of a batch leaves it. -/
def asked (w : Worker) (round : Nat) (batch : Batch) : Worker :=
  { w with buffer := (batch.ask (w.plan round) w.buffer).2 }

def answer (w : Worker) (reply : Reply) : Worker :=
  match w.stage, reply with
  | .opening, .ok _ => w.goOn 0
  | .opening, .error stop => w.fail (stop.during (.openSession w.post.id))
  | .running round since batch, reply =>
    match batch.answer (w.plan round) reply with
    | .more later => (w.asked round batch).moveTo (.running round since later)
    | .over (.ok conflicts) => (w.asked round batch).moveTo (.stopping round since conflicts)
    | .over (.error stop) => (w.asked round batch).moveTo (.releasing (stop.during (.work w.post.id)))
  | .closing, .ok _ => w.moveTo (.ended none)
  | .closing, .error stop => w.fail (stop.during (.closeSession w.post.id))
  | .releasing why, _ => w.fail why
  | .leaving, _ => w.moveTo (.ended none)
  | _, _ => w

def sawHalt (w : Worker) (raised : Bool) : Worker :=
  match w.stage with
  | .polling round => w.moveTo (if raised then .closing else .starting round)
  | _ => w

def raised (w : Worker) : Worker :=
  match w.stage with
  | .raising why => w.moveTo (.ended (some (.failed why)))
  | _ => w

def tick (w : Worker) (now : UInt64) : Worker :=
  match w.stage with
  | .starting round => w.moveTo (.running round now .start)
  | .stopping round since conflicts =>
    match w.tally.addBatch w.post.workload.rowsPerTxn conflicts (now - since) with
    | .ok tally => { w with tally }.goOn (round + 1)
    | .error how => w.moveTo (.releasing (.crashed how))
  | _ => w

def result? (w : Worker) : Option (Except Stop Tally) :=
  match w.stage with
  | .ended none => some (.ok w.tally)
  | .ended (some stop) => some (.error stop)
  | _ => none

/-- A worker for which no thread can be started: it lets go of its session, if it has one, and the halt
flag goes up for the reason. -/
def strand (w : Worker) (why : Failure) : Worker :=
  match w.post.workload.sessionStart with
  | .lazy => w.moveTo (.raising why)
  | .eager => w.moveTo (.releasing (.failed why))

/-- A worker behind one for which no thread can be started: it only lets go of its session. -/
def standDown (w : Worker) : Worker :=
  match w.post.workload.sessionStart with
  | .lazy => w.moveTo (.ended none)
  | .eager => w.moveTo .leaving

def hasFaulted (w : Worker) : Bool :=
  match w.stage with
  | .ended (some (.crashed _)) => true
  | _ => false

def rounds (w : Worker) : Nat :=
  match w.post.workload.rounds with
  | .ok rounds => rounds.toNat
  | .error _ => 0

/-- How much is before a worker, in decreasing weight. -/
def ahead (w : Worker) : Nat × Nat × Nat × Nat × Nat :=
  match w.stage with
  | .opening => (4, 0, 0, 0, 0)
  | .polling round => (3, w.rounds - round, 3, 0, 0)
  | .starting round => (3, w.rounds - round, 2, 0, 0)
  | .running round _ batch =>
    (3, w.rounds - round, 1, batch.patience, batch.callsLeft (w.plan round))
  | .stopping round _ _ => (3, w.rounds - round, 0, 0, 0)
  | .closing | .releasing _ | .leaving => (2, 0, 0, 0, 0)
  | .raising _ => (1, 0, 0, 0, 0)
  | .ended _ => (0, 0, 0, 0, 0)

def Nearer : (a b : Nat × Nat × Nat × Nat × Nat) → Prop :=
  Prod.Lex (· < ·) (Prod.Lex (· < ·) (Prod.Lex (· < ·) (Prod.Lex (· < ·) (· < ·))))

theorem nearer_iff {a b c d e a' b' c' d' e' : Nat} :
    Nearer (a, b, c, d, e) (a', b', c', d', e') ↔
      a < a' ∨ a = a' ∧ (b < b' ∨ b = b' ∧ (c < c' ∨ c = c' ∧ (d < d' ∨ d = d' ∧ e < e'))) := by
  simp [Nearer, Prod.lex_def]

theorem goOn_ahead (w : Worker) (round : Nat) :
    (w.goOn round).ahead = (2, 0, 0, 0, 0) ∨
      round < w.rounds ∧ (w.goOn round).ahead = (3, w.rounds - round, 3, 0, 0) := by
  have hm (stage : Stage) : (w.moveTo stage).rounds = w.rounds := rfl
  unfold goOn
  split
  · rename_i rounds h
    have hr : w.rounds = rounds.toNat := by simp [Worker.rounds, h]
    split
    · exact .inr ⟨by omega, by simp only [ahead, hm]; rfl⟩
    · exact .inl rfl
  · exact .inl rfl

theorem goOn_succ_nearer (w : Worker) (round : Nat) :
    Nearer (w.goOn (round + 1)).ahead (3, w.rounds - round, 0, 0, 0) := by
  rcases goOn_ahead w (round + 1) with h | ⟨hlt, h⟩ <;> rw [h, nearer_iff] <;> omega

theorem fail_nearer (w : Worker) (stop : Stop) (b c d e : Nat) :
    Nearer (w.fail stop).ahead (2, b, c, d, e) := by
  cases stop <;> simp [fail, ahead, moveTo, nearer_iff]

theorem answer_nearer {w : Worker} {request : Request} (h : w.next = some (.call request)) (reply : Reply) :
    Nearer (w.answer reply).ahead w.ahead := by
  obtain ⟨post, tally, stage, buffer⟩ := w
  cases stage with
  | opening =>
    cases reply with
    | ok _ =>
      rcases goOn_ahead ⟨post, tally, .opening, buffer⟩ 0 with h | ⟨_, h⟩ <;>
        simp only [answer, h] <;> simp [ahead, nearer_iff]
    | error stop =>
      cases stop <;> simp [answer, Stop.during, fail, ahead, moveTo, nearer_iff]
  | running round since batch =>
    simp only [answer]
    split
    · rename_i later hb
      rcases Batch.answer_decreases hb with hlt | ⟨heq, hlt⟩
      · simp [ahead, moveTo, asked, nearer_iff, rounds, hlt]
      · exact nearer_iff.mpr (.inr ⟨rfl, .inr ⟨rfl, .inr ⟨rfl, .inr ⟨heq, hlt⟩⟩⟩⟩)
    · exact nearer_iff.mpr (.inr ⟨rfl, .inr ⟨rfl, .inl (by decide)⟩⟩)
    · simp [ahead, moveTo, nearer_iff]
  | closing =>
    cases reply with
    | ok _ => simp [answer, ahead, moveTo, nearer_iff]
    | error stop => exact fail_nearer _ _ _ _ _ _
  | releasing why => exact fail_nearer _ _ _ _ _ _
  | leaving => simp [answer, ahead, moveTo, nearer_iff]
  | _ => simp [next] at h

theorem sawHalt_nearer {w : Worker} (h : w.next = some .readHalt) (raised : Bool) :
    Nearer (w.sawHalt raised).ahead w.ahead := by
  obtain ⟨post, tally, stage, buffer⟩ := w
  cases stage with
  | polling round => cases raised <;> simp [sawHalt, moveTo, ahead, nearer_iff, rounds]
  | _ => simp [next] at h

theorem raised_nearer {w : Worker} (h : w.next = some .raiseHalt) : Nearer w.raised.ahead w.ahead := by
  obtain ⟨post, tally, stage, buffer⟩ := w
  cases stage with
  | raising why => simp [raised, moveTo, ahead, nearer_iff]
  | _ => simp [next] at h

theorem tick_nearer {w : Worker} (h : w.next = some .readClock) (now : UInt64) :
    Nearer (w.tick now).ahead w.ahead := by
  obtain ⟨post, tally, stage, buffer⟩ := w
  cases stage with
  | starting round => simp [tick, moveTo, ahead, nearer_iff, rounds]
  | stopping round since conflicts =>
    simp only [tick]
    split
    · exact goOn_succ_nearer _ _
    · simp [moveTo, ahead, nearer_iff]
  | _ => simp [next] at h

/-- Runs a worker through the session of a seat until it has ended, with the halt flag and a clock.
There is no outcome if a call is never answered. -/
def run {σ : Type} {m : Type → Type} [Monad m] (clock : m UInt64) (store : Store σ) (seat : Nat)
    (w : Worker) (s : σ) (halt : Bool) : m (Option (Worker × σ × Bool)) :=
  match _h : w.next with
  | none => return some (w, s, halt)
  | some (.call request) =>
    match store.call s seat request with
    | none => return none
    | some (reply, s) => run clock store seat (w.answer reply) s halt
  | some .readHalt => run clock store seat (w.sawHalt halt) s halt
  | some .raiseHalt => run clock store seat w.raised s true
  | some .readClock => do run clock store seat (w.tick (← clock)) s halt
termination_by w.ahead
decreasing_by
  · exact answer_nearer _h reply
  · exact sawHalt_nearer _h halt
  · exact raised_nearer _h
  · exact tick_nearer _h _

end Worker

end InsertBench
