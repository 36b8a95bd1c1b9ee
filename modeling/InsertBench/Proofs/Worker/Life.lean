import InsertBench.Proofs.Crew.Hiring
import InsertBench.Proofs.Worker.Rounds

/-! # The life of a worker

From its hiring to its end, all that a worker does is told by its turns: one for each of its first rounds,
in which it finds the halt flag down and commits the batch of the round. Before them it opens its session,
after them it closes it, and in between it may have seen the flag up. So its report can be read off the
turns.
-/
namespace InsertBench

def Exchange.ofSession : Exchange → Bool
  | (.openSession _, _) | (.close, _) | (.dropSession, _) => true
  | _ => false

theorem Batch.Runs.inSession {plan : Batch.Plan} {b : Batch} {calls : List Exchange}
    {progress : Batch.Progress}
    (h : Batch.Runs plan b calls progress) : ∀ call ∈ calls, call.ofSession = false := by
  induction h with
  | start => simp
  | @call log c _ reply ih =>
    intro call hmem
    rcases List.mem_append.mp hmem with hold | hnew
    · exact ih call hold
    · obtain rfl := List.mem_singleton.mp hnew
      obtain ⟨conflicts, phase⟩ := c
      cases phase <;> rfl

namespace Worker

open Crew (Event eventsOf callsOf)

/-- A round that a worker has done: the clock before and after it, the calls of its batch, and how many
conflicts it met. -/
structure Turn where
  since : UInt64
  calls : List Exchange
  conflicts : UInt64
  now : UInt64

def Turn.micros (turn : Turn) : UInt64 := turn.now - turn.since

def called (place : Nat) (calls : List Exchange) : List Event :=
  calls.map fun call => .call place call.1 call.2

def Turn.events (place : Nat) (turn : Turn) : List Event :=
  [.readHalt place false, .readClock place turn.since] ++ called place turn.calls ++
    [.readClock place turn.now]

/-- The batches of these turns, for one round after another, have all committed, and a tally counts
them. -/
structure Counted (p : Post) (turns : List Turn) (t : Tally) : Prop where
  commits : ∀ round turn, turns[round]? = some turn →
    Batch.Runs (p.plan round) .start turn.calls (.over (.ok turn.conflicts))
  id : t.id = p.id
  batches : t.batches.toNat = turns.length
  rows : t.rows.toNat = turns.length * p.workload.width
  conflicts : t.conflicts.toNat = (turns.map fun turn => turn.conflicts.toNat).sum
  latency : t.latency = turns.foldl (fun h turn => h.record turn.micros 1) .empty

/-- What a worker has done after its session was opened, when these turns are done. -/
def past (p : Post) (place : Nat) (verdict : Verdict) (turns : List Turn) : List Event :=
  .call place (.openSession p.table) (.ok verdict) :: turns.flatMap (Turn.events place)

/-- All that a worker has done by the time it is in a stage, as long as nothing has failed. -/
inductive Lived (p : Post) (place : Nat) : List Event → Tally → Stage → Prop
  | opening {t : Tally} (new : t = .zero p.id) : Lived p place [] t .opening
  | polling {verdict : Verdict} {turns : List Turn} {t : Tally} (counted : Counted p turns t) :
      Lived p place (past p place verdict turns) t (.polling turns.length)
  | starting {verdict : Verdict} {turns : List Turn} {t : Tally} (counted : Counted p turns t) :
      Lived p place (past p place verdict turns ++ [.readHalt place false]) t (.starting turns.length)
  | running {verdict : Verdict} {turns : List Turn} {t : Tally} {since : UInt64} {batch : Batch}
      {calls : List Exchange} (counted : Counted p turns t)
      (runs : Batch.Runs (p.plan turns.length) .start calls (.more batch)) :
      Lived p place
        (past p place verdict turns ++
          ([.readHalt place false, .readClock place since] ++ called place calls)) t
        (.running turns.length since batch)
  | stopping {verdict : Verdict} {turns : List Turn} {t : Tally} {since conflicts : UInt64}
      {calls : List Exchange} (counted : Counted p turns t)
      (commits : Batch.Runs (p.plan turns.length) .start calls (.over (.ok conflicts))) :
      Lived p place
        (past p place verdict turns ++
          ([.readHalt place false, .readClock place since] ++ called place calls)) t
        (.stopping turns.length since conflicts)
  | through {verdict : Verdict} {turns : List Turn} {t : Tally} (counted : Counted p turns t)
      (all : turns.length = p.workload.roundCount) : Lived p place (past p place verdict turns) t .closing
  | halted {verdict : Verdict} {turns : List Turn} {t : Tally} (counted : Counted p turns t)
      (left : turns.length < p.workload.roundCount) :
      Lived p place (past p place verdict turns ++ [.readHalt place true]) t .closing
  | closed {log : List Event} {t : Tally} {verdict : Verdict} (before : Lived p place log t .closing) :
      Lived p place (log ++ [.call place .close (.ok verdict)]) t (.ended none)
  | releasing {log : List Event} {t : Tally} {why : Stop} : Lived p place log t (.releasing why)
  | raising {log : List Event} {t : Tally} {why : Failure} : Lived p place log t (.raising why)
  | failed {log : List Event} {t : Tally} {why : Stop} : Lived p place log t (.ended (some why))

variable {p : Post} {place : Nat} {turns : List Turn} {t u : Tally} {w v : Worker} {log : List Event}
  {event : Event}

theorem called_append (place : Nat) (calls more : List Exchange) :
    called place (calls ++ more) = called place calls ++ called place more := List.map_append

theorem counted_zero : Counted p [] (.zero p.id) :=
  ⟨by simp, rfl, rfl, by simp [Tally.zero], rfl, rfl⟩

theorem Counted.next (h : Counted p turns t) {since conflicts now : UInt64} {calls : List Exchange}
    (commits : Batch.Runs (p.plan turns.length) .start calls (.over (.ok conflicts)))
    (added : t.addBatch p.workload.rowsPerTxn conflicts (now - since) = .ok u) :
    Counted p (turns ++ [⟨since, calls, conflicts, now⟩]) u := by
  obtain ⟨hid, hrows, hbatches, hconflicts, hlatency⟩ := addBatch_eq_ok added
  constructor
  case commits =>
    intro round turn hget
    rcases Nat.lt_or_ge round turns.length with hlt | hge
    · rw [List.getElem?_append_left hlt] at hget
      exact h.commits round turn hget
    · rw [List.getElem?_append_right hge, List.getElem?_singleton] at hget
      obtain rfl : round = turns.length := by
        split at hget
        · omega
        · cases hget
      simp at hget
      subst hget
      exact commits
  case id => rw [hid, h.id]
  case batches => rw [hbatches, h.batches, List.length_append, List.length_singleton]
  case rows =>
    rw [hrows, h.rows, List.length_append, List.length_singleton, Nat.succ_mul]
    rfl
  case conflicts => rw [hconflicts, h.conflicts, List.map_append, List.sum_append, List.map_singleton,
      List.sum_singleton]
  case latency =>
    rw [hlatency, h.latency, List.foldl_append]
    rfl

theorem past_next (p : Post) (place : Nat) (verdict : Verdict) (turns : List Turn) (turn : Turn) :
    past p place verdict (turns ++ [turn]) = past p place verdict turns ++
      ([.readHalt place false, .readClock place turn.since] ++ called place turn.calls) ++
        [.readClock place turn.now] := by
  simp [past, Turn.events]

theorem lived_goOn (hfit : w.post.Fit) (place : Nat) (verdict : Verdict) (counted : Counted w.post turns t)
    {round : Nat} (hround : turns.length = round) (hle : round ≤ w.post.workload.roundCount) :
    Lived w.post place (past w.post place verdict turns) ({ w with tally := t }.goOn round).tally
      ({ w with tally := t }.goOn round).stage := by
  subst hround
  rw [goOn_eq (w := { w with tally := t }) hfit]
  dsimp only [moveTo]
  split
  · exact .polling counted
  · exact .through counted (by omega)

theorem lived_fail (w : Worker) (stop : Stop) :
    Lived p place log (w.fail stop).tally (w.fail stop).stage := by
  cases stop
  · exact .raising
  · exact .failed

theorem Lived.running_after (h : Lived w.post place log w.tally w.stage) {round : Nat} {since : UInt64}
    {batch : Batch} (stage : w.stage = .running round since batch) (reply : Reply) :
    Lived w.post place (log ++ [.call place (batch.next (w.plan round)) reply]) (w.answer reply).tally
      (w.answer reply).stage := by
  rw [stage] at h
  cases h with
  | @running verdict turns _ _ _ calls counted runs =>
    have hcall := runs.call reply
    have hlog : ∀ front : List Event, front ++ called place calls ++
        [Event.call place (batch.next (w.plan turns.length)) reply] =
          front ++ called place (calls ++ [(batch.next (w.post.plan turns.length), reply)]) := by
      intro front
      rw [called_append, List.append_assoc]
      rfl
    simp only [answer, stage]
    change Batch.Runs (w.post.plan turns.length) _ _ (batch.answer (w.plan turns.length) reply) at hcall
    generalize batch.answer (w.plan turns.length) reply = progress at hcall
    rw [List.append_assoc, hlog]
    rcases progress with later | stop | count
    · exact .running counted hcall
    · exact .releasing
    · exact .stopping counted hcall

theorem Lived.moves (h : Lived w.post place log w.tally w.stage) (hon : w.OnTrack)
    (hplace : event.worker = place) (hm : Moves w event v)
    (hidle : ∀ round since batch, w.stage ≠ .running round since batch) :
    Lived w.post place (log ++ [event]) v.tally v.stage := by
  have hstage := hon.stage
  cases hm with
  | opened stage =>
    obtain rfl := hplace
    rw [stage] at h
    cases h with
    | opening new =>
      have hzero : Counted w.post [] w.tally := new ▸ counted_zero
      exact lived_goOn hon.fit _ _ hzero rfl (Nat.zero_le _)
  | openFailed _ | closeFailed _ | released _ => exact lived_fail w _
  | left stage =>
    rw [stage] at h
    cases h
  | carriedOn stage =>
    obtain rfl := hplace
    rw [stage] at h
    cases h with
    | polling counted => exact .starting counted
  | halted stage =>
    obtain rfl := hplace
    rw [stage] at h hstage
    cases h with
    | polling counted => exact .halted counted hstage.1
  | started stage =>
    obtain rfl := hplace
    rw [stage] at h
    cases h with
    | starting counted =>
      rw [List.append_assoc]
      exact .running counted .start
  | @counted here round since conflicts now tally stage added =>
    obtain rfl : here = place := hplace
    rw [stage] at h hstage
    cases h with
    | @stopping verdict turns _ _ _ calls counted commits =>
      have hnext := counted.next commits added
      have hlived := lived_goOn hon.fit here verdict hnext List.length_append hstage.1
      rw [past_next] at hlived
      exact hlived
  | uncounted _ _ => exact .releasing
  | closed stage =>
    obtain rfl := hplace
    rw [stage] at h
    exact .closed h
  | raised _ => exact .failed
  | begun stage | beginFailed stage | inserted stage | lockedOut stage | insertFailed stage
  | redone stage _ | gaveUp stage | prepared stage | prepareFailed stage | committed stage
  | commitFailed stage | rolledBack stage => exact absurd stage (hidle _ _ _)

/-- A worker of a post with all it has done, of which some was done when it was hired. -/
structure Living (p : Post) (place : Nat) (early log : List Event) (w : Worker) : Prop where
  post : w.post = p
  onTrack : w.OnTrack
  lived : Lived p place (early ++ log) w.tally w.stage

theorem Living.after {early : List Event} (h : Living p place early log w) (hplace : event.worker = place)
    (hn : w.next = some event.action) : Living p place early (log ++ [event]) (w.after event) where
  post := by rw [(moves_of_next hn).post, h.post]
  onTrack := h.onTrack.moves (moves_of_next hn)
  lived := by
    obtain ⟨rfl, hon, hlived⟩ := h
    rw [← List.append_assoc]
    rcases running_or_moves hn with ⟨round, since, batch, other, reply, stage, rfl⟩ | ⟨hm, hidle⟩
    · obtain rfl := hplace
      exact hlived.running_after stage reply
    · exact hlived.moves hon hplace hm hidle

theorem living_keeps (p : Post) (place : Nat) (early : List Event) :
    Crew.EachKeeps fun other log w => other = place → Living p place early log w := by
  rintro other log w event h hplace hn rfl
  exact (h rfl).after hplace hn

theorem Counted.inSession (h : Counted p turns t) :
    (turns.flatMap Turn.calls).filter Exchange.ofSession = [] := by
  rw [List.filter_eq_nil_iff]
  intro call hmem
  obtain ⟨turn, hturn, hcall⟩ := List.mem_flatMap.mp hmem
  obtain ⟨round, hget⟩ := List.mem_iff_getElem?.mp hturn
  rw [(h.commits round turn hget).inSession call hcall]
  exact Bool.false_ne_true

theorem exchanged_called (place : Nat) (calls : List Exchange) :
    (called place calls).flatMap Event.exchanged = calls := by
  induction calls with
  | nil => rfl
  | cons call calls ih => exact congrArg (call :: ·) ih

theorem exchanged_turn (place : Nat) (turn : Turn) :
    (turn.events place).flatMap Event.exchanged = turn.calls := by
  simp [Turn.events, exchanged_called, Event.exchanged]

theorem exchanged_turns (place : Nat) (turns : List Turn) :
    (turns.flatMap (Turn.events place)).flatMap Event.exchanged = turns.flatMap Turn.calls := by
  rw [List.flatMap_assoc]
  exact congrArg turns.flatMap (funext (exchanged_turn place))

/-- What a worker does with an open session that returns a report after these turns, of so many rounds. -/
def lifeOf (place : Nat) (turns : List Turn) (rounds : UInt64) (verdict : Verdict) : List Event :=
  turns.flatMap (Turn.events place) ++
    (if turns.length < rounds.toNat then [.readHalt place true] else []) ++
      [.call place .close (.ok verdict)]

/-- A report of a worker, by the turns it has done. -/
structure Fulfilled (p : Post) (base place : Nat) (opening : List Call) (log : List Event) (report : Tally)
    (turns : List Turn) (rounds : UInt64) : Prop where
  all : p.workload.rounds = .ok rounds
  turns_le : turns.length ≤ rounds.toNat
  counted : Counted p turns report
  samples : report.latency.total.toNat = turns.length ∧ report.latency.recorded = turns.length
  /-- An eager worker opens its session when it is hired. -/
  early : p.workload.sessionStart = .eager → ∃ opened closed,
    opening = [⟨base + place, .openSession p.table, .ok opened⟩] ∧
      eventsOf log place = lifeOf place turns rounds closed
  /-- A lazy one opens it before all else. -/
  late : p.workload.sessionStart = .lazy → ∃ opened closed, opening = [] ∧
    eventsOf log place =
      .call place (.openSession p.table) (.ok opened) :: lifeOf place turns rounds closed
  session : ∃ opened closed, callsAt (opening ++ callsOf base log) (base + place) =
      (.openSession p.table, .ok opened) :: turns.flatMap Turn.calls ++ [(.close, .ok closed)] ∧
    (callsAt (opening ++ callsOf base log) (base + place)).filter Exchange.ofSession =
      [(.openSession p.table, .ok opened), (.close, .ok closed)]

/-- How a worker is hired, with what it does then. -/
inductive Hired (p : Post) (place : Nat) : List Event → Worker → Prop
  | lazy (mode : p.workload.sessionStart = .lazy) : Hired p place [] (new p)
  | eager (mode : p.workload.sessionStart = .eager) (verdict : Verdict) :
      Hired p place [.call place (.openSession p.table) (.ok verdict)] ((new p).answer (.ok verdict))

variable {σ : Type} {store : Store σ} {base : Nat} {post : Nat → Post} {s s' : σ} {opening : List Call}

theorem hired_of_hire
    (h : Crew.hire store.recorded base post 1 place (s, []) = some (.ok [w], s', opening)) :
    ∃ early, Hired (post place) place early w ∧ opening = callsOf base early := by
  cases Crew.hires_of_hire h with
  | joined joins rest =>
    cases rest
    cases joins with
    | lazy mode => exact ⟨[], .lazy mode, rfl⟩
    | eager mode opened =>
      obtain ⟨_, rfl⟩ := Store.recorded_call opened
      exact ⟨_, .eager mode _, rfl⟩

theorem Hired.living {early : List Event} (h : Hired p place early w) (hfit : p.Fit) :
    Living p place early [] w := by
  cases h with
  | lazy _ => exact ⟨rfl, onTrack_new hfit, .opening rfl⟩
  | eager _ verdict =>
    have hnew : Living p place [] [] (new p) := ⟨rfl, onTrack_new hfit, .opening rfl⟩
    have hopen : (new p).next = some (Event.call place (.openSession p.table) (.ok verdict)).action := rfl
    obtain ⟨hpost, hon, hlived⟩ := hnew.after rfl hopen
    exact ⟨hpost, hon, hlived⟩

theorem Lived.returned (h : Lived p place log t (.ended none)) :
    ∃ opened closed turns, Counted p turns t ∧ turns.length ≤ p.workload.roundCount ∧
      log = .call place (.openSession p.table) (.ok opened) ::
        lifeOf place turns p.workload.roundCount.toUInt64 closed := by
  have hcount : p.workload.roundCount.toUInt64.toNat = p.workload.roundCount :=
    Word.toNat_toUInt64 p.workload.roundCount_lt
  cases h with
  | @closed log _ closed before =>
    cases before with
    | @through opened turns _ counted all =>
      refine ⟨opened, closed, turns, counted, all.le, ?_⟩
      rw [lifeOf, hcount, if_neg (by omega), List.append_nil]
      rfl
    | @halted opened turns _ counted left =>
      refine ⟨opened, closed, turns, counted, left.le, ?_⟩
      rw [lifeOf, hcount, if_pos left]
      rfl

theorem exchanged_lifeOf (place : Nat) (turns : List Turn) (rounds : UInt64) (verdict : Verdict) :
    (lifeOf place turns rounds verdict).flatMap Event.exchanged =
      turns.flatMap Turn.calls ++ [(.close, .ok verdict)] := by
  have hflag : (if turns.length < rounds.toNat then [Event.readHalt place true] else []).flatMap
      Event.exchanged = [] := by
    split <;> rfl
  rw [lifeOf, List.flatMap_append, List.flatMap_append, exchanged_turns, hflag, List.append_nil]
  rfl

/-- Under any schedule a worker goes on living from what it did when it was hired. -/
theorem Hired.living_of_runs {c d : Crew σ} {early : List Event} (h : Hired p place early w) (hfit : p.Fit)
    (here : c.workers[place]? = some w) (runs : Crew.Runs store base c log d)
    (found : d.workers[place]? = some v) : Living p place early (eventsOf log place) v := by
  refine runs.follows.each (living_keeps p place early) (fun other u hget hother => ?_) place v found rfl
  subst hother
  rw [here] at hget
  cases hget
  exact h.living hfit

theorem Hired.session {early : List Event} (h : Hired p place early w) {opened closed : Verdict}
    {rounds : UInt64} (hall : early ++ eventsOf log place =
      .call place (.openSession p.table) (.ok opened) :: lifeOf place turns rounds closed) :
    callsAt (callsOf base early ++ callsOf base log) (base + place) =
      (.openSession p.table, .ok opened) :: turns.flatMap Turn.calls ++ [(.close, .ok closed)] := by
  have hearly : eventsOf early place = early := by
    cases h <;> simp [eventsOf, Event.worker]
  rw [callsAt_append, Crew.callsAt_callsOf, Crew.callsAt_callsOf, hearly, ← List.flatMap_append, hall,
    List.flatMap_cons, exchanged_lifeOf]
  rfl

/-- What a worker reports is what it has committed, one round after another, on a session that was opened
once and closed once at the end; it has left out rounds only if it saw the halt flag up. The store, the
other workers and the flag as it was found are arbitrary. -/
theorem fulfilled_of_runs {c d : Crew σ} {report : Tally} (hfit : (post place).Fit)
    (hired : Crew.hire store.recorded base post 1 place (s, []) = some (.ok [w], s', opening))
    (here : c.workers[place]? = some w) (runs : Crew.Runs store base c log d)
    (found : d.workers[place]? = some v) (returned : v.result? = some (.ok report)) :
    ∃ turns rounds, Fulfilled (post place) base place opening log report turns rounds := by
  obtain ⟨early, hhired, rfl⟩ := hired_of_hire hired
  obtain ⟨hstage, rfl⟩ := result?_eq_ok_iff.mp returned
  obtain ⟨_, hon, hlived⟩ := hhired.living_of_runs hfit here runs found
  rw [hstage] at hlived
  obtain ⟨opened, closed, turns, hcounted, hle, hall⟩ := hlived.returned
  refine ⟨turns, (post place).workload.roundCount.toUInt64, ?_⟩
  constructor
  case all => exact hfit.accepted.rounds_eq
  case turns_le => rwa [Word.toNat_toUInt64 (post place).workload.roundCount_lt]
  case counted => exact hcounted
  case samples =>
    have htotal : v.tally.latency.total.toNat = turns.length := by rw [hon.samples, hcounted.batches]
    exact ⟨htotal, hon.faithful.trans htotal⟩
  case early =>
    intro mode
    cases hhired with
    | lazy hlazy => simp [mode] at hlazy
    | eager _ verdict =>
      obtain ⟨hopen, hrest⟩ := List.cons.inj hall
      cases hopen
      exact ⟨opened, closed, rfl, hrest⟩
  case late =>
    intro mode
    cases hhired with
    | lazy _ => exact ⟨opened, closed, rfl, hall⟩
    | eager heager _ => simp [mode] at heager
  case session =>
    refine ⟨opened, closed, hhired.session hall, ?_⟩
    rw [hhired.session hall, List.filter_append, List.filter_cons_of_pos rfl, hcounted.inSession]
    rfl

def accepting : Store Unit where
  name _ := "accepting"
  call _ _ _ := some (.ok .accepted, ())
  rowCount _ _ := (.ok 0, ())
  shut _ := .ok ()

def shortPost : Post := ⟨0, "t", ⟨2, 1, 1, .eager, false, .unbounded⟩, 0⟩

def shortWorker : Worker := (new shortPost).answer (.ok .accepted)

/-- An eager worker commits its first batch before another worker raises the flag, and leaves out its
second one. -/
theorem fulfilled_halted : ∃ (log : List Event) (d : Crew Unit) (v : Worker),
    Crew.hire accepting.recorded 0 (fun _ => shortPost) 1 0 ((), []) =
      some (.ok [shortWorker], (), [⟨0, .openSession "t", .ok .accepted⟩]) ∧
    Crew.Runs accepting 0 ⟨(), false, [shortWorker, shortWorker.moveTo (.raising .workerPanicked)]⟩ log d ∧
    d.workers[0]? = some v ∧ v.result? = some (.ok v.tally) ∧ v.tally.batches = 1 ∧
    ∃ turns rounds,
      Fulfilled shortPost 0 0 [⟨0, .openSession "t", .ok .accepted⟩] log v.tally turns rounds := by
  have hhired : Crew.hire accepting.recorded 0 (fun _ => shortPost) 1 0 ((), []) =
      some (.ok [shortWorker], (), [⟨0, .openSession "t", .ok .accepted⟩]) := rfl
  have hruns : Crew.Runs accepting 0
      ⟨(), false, [shortWorker, shortWorker.moveTo (.raising .workerPanicked)]⟩ _ _ :=
    .turn 0 rfl <| .turn 0 rfl <| .turn 0 rfl <| .turn 0 rfl <| .turn 0 rfl <| .turn 0 rfl <| .turn 1 rfl <|
      .turn 0 rfl <| .turn 0 rfl <| .done _
  exact ⟨_, _, _, hhired, hruns, rfl, rfl, rfl,
    fulfilled_of_runs ⟨by decide, by decide⟩ hhired rfl hruns rfl rfl⟩

end Worker

end InsertBench
