import InsertBench.Proofs.Crew.Schedule

/-! # What a worker can do next

`Moves` lists the events that a worker can bring about in each of its stages, with what it becomes by
them. Every event of a worker is one of these: `moves_of_next`.
-/
namespace InsertBench.Worker

inductive Moves (w : Worker) : Crew.Event → Worker → Prop
  | opened {place : Nat} {verdict : Verdict} (stage : w.stage = .opening) :
      Moves w (.call place (.openSession w.post.table) (.ok verdict)) (w.goOn 0)
  | openFailed {place : Nat} {stop : Stop} (stage : w.stage = .opening) :
      Moves w (.call place (.openSession w.post.table) (.error stop))
        (w.fail (stop.during (.openSession w.post.id)))
  | carriedOn {place round : Nat} (stage : w.stage = .polling round) :
      Moves w (.readHalt place false) (w.moveTo (.starting round))
  | halted {place round : Nat} (stage : w.stage = .polling round) :
      Moves w (.readHalt place true) (w.moveTo .closing)
  | started {place round : Nat} {now : UInt64} (stage : w.stage = .starting round) :
      Moves w (.readClock place now) (w.moveTo (.running round now .start))
  | begun {place round : Nat} {since conflicts : UInt64} {verdict : Verdict}
      (stage : w.stage = .running round since ⟨conflicts, .starting⟩) :
      Moves w (.call place .beginTxn (.ok verdict))
        (w.moveTo (.running round since ⟨conflicts, (w.plan round).phaseAt 0⟩))
  | beginFailed {place round : Nat} {since conflicts : UInt64} {stop : Stop}
      (stage : w.stage = .running round since ⟨conflicts, .starting⟩) :
      Moves w (.call place .beginTxn (.error stop))
        (w.moveTo (.releasing ((stop.during .beginTxn).during (.work w.post.id))))
  | inserted {place round offset : Nat} {since conflicts : UInt64} {key : Int64}
      (stage : w.stage = .running round since ⟨conflicts, .writing offset key⟩) :
      Moves w (.call place (.insert key ((w.plan round).value key)) (.ok .accepted))
        ((w.asked round ⟨conflicts, .writing offset key⟩).moveTo
          (.running round since ⟨conflicts, (w.plan round).phaseAt (offset + 1)⟩))
  | lockedOut {place round offset : Nat} {since conflicts : UInt64} {key : Int64}
      (stage : w.stage = .running round since ⟨conflicts, .writing offset key⟩) :
      Moves w (.call place (.insert key ((w.plan round).value key)) (.ok .conflict))
        ((w.asked round ⟨conflicts, .writing offset key⟩).moveTo
          (.running round since ⟨conflicts, .backingOut key⟩))
  | insertFailed {place round offset : Nat} {since conflicts : UInt64} {key : Int64} {stop : Stop}
      (stage : w.stage = .running round since ⟨conflicts, .writing offset key⟩) :
      Moves w (.call place (.insert key ((w.plan round).value key)) (.error stop))
        ((w.asked round ⟨conflicts, .writing offset key⟩).moveTo
          (.running round since ⟨conflicts, .rollingBack (stop.during (.insertKey key))⟩))
  | redone {place round : Nat} {since conflicts next : UInt64} {key : Int64} {verdict : Verdict}
      (stage : w.stage = .running round since ⟨conflicts, .backingOut key⟩)
      (count : next.toNat = conflicts.toNat + 1) :
      Moves w (.call place .abort (.ok verdict)) (w.moveTo (.running round since ⟨next, .starting⟩))
  | gaveUp {place round : Nat} {since conflicts : UInt64} {key : Int64} {reply : Reply} {why : Stop}
      (stage : w.stage = .running round since ⟨conflicts, .backingOut key⟩) :
      Moves w (.call place .abort reply) (w.moveTo (.releasing why))
  | prepared {place round : Nat} {since conflicts id : UInt64} {verdict : Verdict}
      (stage : w.stage = .running round since ⟨conflicts, .preparing id⟩) :
      Moves w (.call place (.prepare id) (.ok verdict))
        (w.moveTo (.running round since ⟨conflicts, .committing⟩))
  | prepareFailed {place round : Nat} {since conflicts id : UInt64} {stop : Stop}
      (stage : w.stage = .running round since ⟨conflicts, .preparing id⟩) :
      Moves w (.call place (.prepare id) (.error stop))
        (w.moveTo (.running round since ⟨conflicts, .rollingBack (stop.during .prepareTxn)⟩))
  | committed {place round : Nat} {since conflicts : UInt64} {verdict : Verdict}
      (stage : w.stage = .running round since ⟨conflicts, .committing⟩) :
      Moves w (.call place .commit (.ok verdict)) (w.moveTo (.stopping round since conflicts))
  | commitFailed {place round : Nat} {since conflicts : UInt64} {stop : Stop}
      (stage : w.stage = .running round since ⟨conflicts, .committing⟩) :
      Moves w (.call place .commit (.error stop))
        (w.moveTo (.releasing ((stop.during .commitTxn).during (.work w.post.id))))
  | rolledBack {place round : Nat} {since conflicts : UInt64} {why : Stop} {reply : Reply}
      (stage : w.stage = .running round since ⟨conflicts, .rollingBack why⟩) :
      Moves w (.call place .dropTxn reply) (w.moveTo (.releasing (why.during (.work w.post.id))))
  | counted {place round : Nat} {since conflicts now : UInt64} {tally : Tally}
      (stage : w.stage = .stopping round since conflicts)
      (added : w.tally.addBatch w.post.workload.rowsPerTxn conflicts (now - since) = .ok tally) :
      Moves w (.readClock place now) ({ w with tally }.goOn (round + 1))
  | uncounted {place round : Nat} {since conflicts now : UInt64} {how : Fault}
      (stage : w.stage = .stopping round since conflicts)
      (overflow : w.tally.addBatch w.post.workload.rowsPerTxn conflicts (now - since) = .error how) :
      Moves w (.readClock place now) (w.moveTo (.releasing (.crashed how)))
  | closed {place : Nat} {verdict : Verdict} (stage : w.stage = .closing) :
      Moves w (.call place .close (.ok verdict)) (w.moveTo (.ended none))
  | closeFailed {place : Nat} {stop : Stop} (stage : w.stage = .closing) :
      Moves w (.call place .close (.error stop)) (w.fail (stop.during (.closeSession w.post.id)))
  | released {place : Nat} {why : Stop} {reply : Reply} (stage : w.stage = .releasing why) :
      Moves w (.call place .dropSession reply) (w.fail why)
  | left {place : Nat} {reply : Reply} (stage : w.stage = .leaving) :
      Moves w (.call place .dropSession reply) (w.moveTo (.ended none))
  | raised {place : Nat} {why : Failure} (stage : w.stage = .raising why) :
      Moves w (.raiseHalt place) (w.moveTo (.ended (some (.failed why))))

variable {w : Worker} {place : Nat}

theorem moves_of_running {round : Nat} {since : UInt64} {batch : Batch}
    (stage : w.stage = .running round since batch) (reply : Reply) :
    Moves w (.call place (batch.next (w.plan round)) reply) (w.answer reply) := by
  obtain ⟨conflicts, phase⟩ := batch
  cases phase with
  | starting =>
    cases reply with
    | ok verdict =>
      simp only [answer, stage]
      exact .begun stage
    | error stop =>
      simp only [answer, stage]
      exact .beginFailed stage
  | writing offset key =>
    cases reply with
    | ok verdict =>
      cases verdict with
      | accepted =>
        simp only [answer, stage]
        exact .inserted stage
      | conflict =>
        simp only [answer, stage]
        exact .lockedOut stage
    | error stop =>
      simp only [answer, stage]
      exact .insertFailed stage
  | backingOut key =>
    cases reply with
    | ok verdict =>
      simp only [answer, stage, Batch.answer]
      rcases Batch.redo_cases (w.plan round) ⟨conflicts, .backingOut key⟩ key with
        ⟨next, hcount, _, hredo⟩ | ⟨_, _, _, hredo⟩ | ⟨_, hredo⟩
      · rw [hredo]
        exact .redone stage hcount
      · rw [hredo]
        exact .gaveUp stage
      · rw [hredo]
        exact .gaveUp stage
    | error stop =>
      simp only [answer, stage]
      exact .gaveUp stage
  | preparing id =>
    cases reply with
    | ok verdict =>
      simp only [answer, stage]
      exact .prepared stage
    | error stop =>
      simp only [answer, stage]
      exact .prepareFailed stage
  | committing =>
    cases reply with
    | ok verdict =>
      simp only [answer, stage]
      exact .committed stage
    | error stop =>
      simp only [answer, stage]
      exact .commitFailed stage
  | rollingBack why =>
    simp only [answer, stage]
    exact .rolledBack stage

theorem event_of_running {round : Nat} {since : UInt64} {batch : Batch}
    (stage : w.stage = .running round since batch) {event : Crew.Event} (h : w.next = some event.action) :
    ∃ place reply, event = .call place (batch.next (w.plan round)) reply := by
  simp only [next, stage, Option.some.injEq, Batch.ask_fst] at h
  exact Crew.Event.call_of_action h

theorem moves_of_next {event : Crew.Event} (h : w.next = some event.action) :
    Moves w event (w.after event) := by
  cases stage : w.stage with
  | opening =>
    simp only [next, stage, Option.some.injEq] at h
    obtain ⟨place, reply, rfl⟩ := Crew.Event.call_of_action h
    cases reply with
    | ok verdict =>
      simp only [after, answer, stage]
      exact .opened stage
    | error stop =>
      simp only [after, answer, stage]
      exact .openFailed stage
  | polling round =>
    simp only [next, stage, Option.some.injEq] at h
    obtain ⟨place, flag, rfl⟩ := Crew.Event.readHalt_of_action h
    cases flag with
    | false =>
      simp only [after, sawHalt, stage]
      exact .carriedOn stage
    | true =>
      simp only [after, sawHalt, stage]
      exact .halted stage
  | starting round =>
    simp only [next, stage, Option.some.injEq] at h
    obtain ⟨place, now, rfl⟩ := Crew.Event.readClock_of_action h
    simp only [after, tick, stage]
    exact .started stage
  | running round since batch =>
    obtain ⟨place, reply, rfl⟩ := event_of_running stage h
    exact moves_of_running stage reply
  | stopping round since conflicts =>
    simp only [next, stage, Option.some.injEq] at h
    obtain ⟨place, now, rfl⟩ := Crew.Event.readClock_of_action h
    simp only [after, tick, stage]
    split
    · rename_i added
      exact .counted stage added
    · rename_i overflow
      exact .uncounted stage overflow
  | closing =>
    simp only [next, stage, Option.some.injEq] at h
    obtain ⟨place, reply, rfl⟩ := Crew.Event.call_of_action h
    cases reply with
    | ok verdict =>
      simp only [after, answer, stage]
      exact .closed stage
    | error stop =>
      simp only [after, answer, stage]
      exact .closeFailed stage
  | releasing why =>
    simp only [next, stage, Option.some.injEq] at h
    obtain ⟨place, reply, rfl⟩ := Crew.Event.call_of_action h
    simp only [after, answer, stage]
    exact .released stage
  | leaving =>
    simp only [next, stage, Option.some.injEq] at h
    obtain ⟨place, reply, rfl⟩ := Crew.Event.call_of_action h
    simp only [after, answer, stage]
    exact .left stage
  | raising why =>
    simp only [next, stage, Option.some.injEq] at h
    obtain ⟨place, rfl⟩ := Crew.Event.raiseHalt_of_action h
    simp only [after, Worker.raised, stage]
    exact .raised stage
  | ended stop => simp [next, stage] at h

/-- A worker in a batch makes its next call, and any other worker moves on. -/
theorem running_or_moves {event : Crew.Event} (h : w.next = some event.action) :
    (∃ round since batch place reply, w.stage = .running round since batch ∧
      event = .call place (batch.next (w.plan round)) reply) ∨
    Moves w event (w.after event) ∧ ∀ round since batch, w.stage ≠ .running round since batch := by
  cases stage : w.stage with
  | running round since batch =>
    obtain ⟨place, reply, rfl⟩ := event_of_running stage h
    exact .inl ⟨round, since, batch, place, reply, rfl, rfl⟩
  | _ => exact .inr ⟨moves_of_next h, by simp⟩

theorem Moves.post {event : Crew.Event} {v : Worker} (h : Moves w event v) : v.post = w.post := by
  have hfail (stop : Stop) : (w.fail stop).post = w.post := by cases stop <;> rfl
  have hgoOn (u : Worker) (round : Nat) : (u.goOn round).post = u.post := by
    unfold goOn
    split <;> rfl
  cases h <;> first | rfl | exact hfail _ | exact hgoOn _ _

end InsertBench.Worker
