import InsertBench.Proofs.Batch.Calls
import InsertBench.Proofs.Batch.Rows

/-! # Attempts

Whatever its store replies, a batch makes its calls in attempts. An attempt begins one transaction, inserts
rows of the batch from the first one on and in order, and ends the transaction once. Only an attempt that
was rolled back on a conflict is followed by another one, and only the last attempt commits.
-/
namespace InsertBench.Batch

/-- A transaction begins, and inserts of these rows are accepted. -/
def inserting (begun : Verdict) (rows : List (Int64 × Bytes)) : List Exchange :=
  (.beginTxn, .ok begun) :: rows.map fun row => (.insert row.1 row.2, .ok .accepted)

/-- An attempt that met a conflict on a key and was rolled back. -/
inductive BackedOut (p : Plan) : Int64 → List Exchange → Prop
  | mk {offset : Nat} {row : Int64 × Bytes} {begun aborted : Verdict} (here : p.rows[offset]? = some row) :
      BackedOut p row.1 (inserting begun (p.rows.take offset) ++
        [(.insert row.1 row.2, .ok .conflict), (.abort, .ok aborted)])

/-- Attempts that were backed out of, after each of which the batch was allowed to start again. -/
inductive Redone (p : Plan) : List Exchange → UInt64 → Prop
  | none : Redone p [] 0
  | again {log attempt : List Exchange} {key : Int64} {conflicts total : UInt64}
      (before : Redone p log conflicts) (backedOut : BackedOut p key attempt)
      (count : total.toNat = conflicts.toNat + 1) (allowed : p.workload.retry.allows total = true) :
      Redone p (log ++ attempt) total

inductive Prepared (p : Plan) : List Exchange → Prop
  | onePhase (one : p.workload.twoPhase = false) : Prepared p []
  | twoPhase {verdict : Verdict} (two : p.workload.twoPhase = true) :
      Prepared p [(.prepare (p.keyAt 0).toUInt64, .ok verdict)]

/-- The last attempt of a batch, after so many conflicts, and the result of the batch. -/
inductive Last (p : Plan) (conflicts : UInt64) : List Exchange → Except Stop UInt64 → Prop
  | beginFailed {stop : Stop} :
      Last p conflicts [(.beginTxn, .error stop)] (.error (stop.during .beginTxn))
  | insertFailed {offset : Nat} {row : Int64 × Bytes} {begun : Verdict} {stop : Stop} {dropped : Reply}
      (here : p.rows[offset]? = some row) :
      Last p conflicts
        (inserting begun (p.rows.take offset) ++ [(.insert row.1 row.2, .error stop), (.dropTxn, dropped)])
        (.error (stop.during (.insertKey row.1)))
  | abortFailed {offset : Nat} {row : Int64 × Bytes} {begun : Verdict} {stop : Stop}
      (here : p.rows[offset]? = some row) :
      Last p conflicts
        (inserting begun (p.rows.take offset) ++
          [(.insert row.1 row.2, .ok .conflict), (.abort, .error stop)])
        (.error (stop.during .abortTxn))
  | gaveUp {attempt : List Exchange} {key : Int64} {total : UInt64} (backedOut : BackedOut p key attempt)
      (count : total.toNat = conflicts.toNat + 1) (refused : p.workload.retry.allows total = false) :
      Last p conflicts attempt (.error (.failed (.gaveUp p.thread p.round total key)))
  /-- The conflicts have no word any more. -/
  | uncounted {attempt : List Exchange} {key : Int64} (backedOut : BackedOut p key attempt)
      (full : conflicts.toNat + 1 = UInt64.size) : Last p conflicts attempt (.error (.crashed .addOverflow))
  | prepareFailed {begun : Verdict} {stop : Stop} {dropped : Reply} (two : p.workload.twoPhase = true) :
      Last p conflicts
        (inserting begun p.rows ++ [(.prepare (p.keyAt 0).toUInt64, .error stop), (.dropTxn, dropped)])
        (.error (stop.during .prepareTxn))
  | commitFailed {begun : Verdict} {prepared : List Exchange} {stop : Stop} (ready : Prepared p prepared) :
      Last p conflicts (inserting begun p.rows ++ prepared ++ [(.commit, .error stop)])
        (.error (stop.during .commitTxn))
  | committed {begun verdict : Verdict} {prepared : List Exchange} (ready : Prepared p prepared) :
      Last p conflicts (inserting begun p.rows ++ prepared ++ [(.commit, .ok verdict)]) (.ok conflicts)

def Says (p : Plan) (log : List Exchange) (result : Except Stop UInt64) : Prop :=
  ∃ redone conflicts last, Redone p redone conflicts ∧ Last p conflicts last result ∧ log = redone ++ last

inductive Ongoing (p : Plan) : Phase → List Exchange → Prop
  | starting : Ongoing p .starting []
  | writing {offset : Nat} {row : Int64 × Bytes} {begun : Verdict} (here : p.rows[offset]? = some row) :
      Ongoing p (.writing offset row.1) (inserting begun (p.rows.take offset))
  | backingOut {offset : Nat} {row : Int64 × Bytes} {begun : Verdict} (here : p.rows[offset]? = some row) :
      Ongoing p (.backingOut row.1)
        (inserting begun (p.rows.take offset) ++ [(.insert row.1 row.2, .ok .conflict)])
  | insertFailed {offset : Nat} {row : Int64 × Bytes} {begun : Verdict} {stop : Stop}
      (here : p.rows[offset]? = some row) :
      Ongoing p (.rollingBack (stop.during (.insertKey row.1)))
        (inserting begun (p.rows.take offset) ++ [(.insert row.1 row.2, .error stop)])
  | preparing {begun : Verdict} (two : p.workload.twoPhase = true) :
      Ongoing p (.preparing (p.keyAt 0).toUInt64) (inserting begun p.rows)
  | prepareFailed {begun : Verdict} {stop : Stop} (two : p.workload.twoPhase = true) :
      Ongoing p (.rollingBack (stop.during .prepareTxn))
        (inserting begun p.rows ++ [(.prepare (p.keyAt 0).toUInt64, .error stop)])
  | committing {begun : Verdict} {prepared : List Exchange} (ready : Prepared p prepared) :
      Ongoing p .committing (inserting begun p.rows ++ prepared)

/-- The calls of an attempt after which the next key has no word or lies outside the partition. -/
inductive Spoilt (p : Plan) (how : Fault) : List Exchange → Prop
  | mk {offset : Nat} {begun : Verdict} (unkeyed : p.phaseAt offset = .rollingBack (.crashed how)) :
      Spoilt p how (inserting begun (p.rows.take offset))

/-- What a call makes of a batch, by the calls of its attempt with this one. -/
inductive Turn (p : Plan) (conflicts : UInt64) (attempt : List Exchange) : Progress → Prop
  | goesOn {phase : Phase} (ongoing : Ongoing p phase attempt) :
      Turn p conflicts attempt (.more ⟨conflicts, phase⟩)
  | again {key : Int64} {total : UInt64} (backedOut : BackedOut p key attempt)
      (count : total.toNat = conflicts.toNat + 1) (allowed : p.workload.retry.allows total = true) :
      Turn p conflicts attempt (.more ⟨total, .starting⟩)
  | ends {result : Except Stop UInt64} (last : Last p conflicts attempt result) :
      Turn p conflicts attempt (.over result)

variable {p : Plan} {b c : Batch} {log more attempt : List Exchange} {progress : Progress}
  {result : Except Stop UInt64}

theorem inserting_concat (begun : Verdict) (rows : List (Int64 × Bytes)) (row : Int64 × Bytes) :
    inserting begun (rows ++ [row]) = inserting begun rows ++ [(.insert row.1 row.2, .ok .accepted)] := by
  simp [inserting]

theorem map_fst_inserting (begun : Verdict) (rows : List (Int64 × Bytes)) :
    (inserting begun rows).map Prod.fst = .beginTxn :: rows.map fun row => .insert row.1 row.2 := by
  rw [inserting, List.map_cons, List.map_map]
  rfl

theorem phaseAt_cases (p : Plan) {offset : Nat} (ho : offset ≤ p.workload.width) :
    (∃ how, p.phaseAt offset = .rollingBack (.crashed how)) ∨
      ∀ begun, Ongoing p (p.phaseAt offset) (inserting begun (p.rows.take offset)) := by
  have hwidth : p.workload.rowsPerTxn.toNat = p.workload.width := rfl
  rw [Plan.phaseAt, hwidth]
  split
  · rename_i hlt
    cases hkey : p.key offset with
    | error how => exact .inl ⟨how, rfl⟩
    | ok key =>
      obtain rfl := Plan.key_of_ok hlt hkey
      exact .inr fun begun => .writing (Plan.getElem?_rows.mpr ⟨hlt, rfl⟩)
  · rename_i hlast
    rw [List.take_of_length_le (by rw [Plan.length_rows]; omega)]
    split
    · rename_i htwo
      cases hkey : p.key 0 with
      | error how => exact .inl ⟨how, rfl⟩
      | ok key =>
        obtain rfl := Plan.key_of_ok (Workload.key_eq_ok_iff.mp hkey).2.1 hkey
        exact .inr fun begun => .preparing htwo
    · rename_i hone
      refine .inr fun begun => ?_
      rw [← List.append_nil (inserting begun p.rows)]
      exact .committing (.onePhase (Bool.eq_false_of_not_eq_true hone))

theorem turn_redo (b : Batch) {key : Int64} (backedOut : BackedOut p key attempt) :
    Turn p b.conflicts attempt (b.redo p key) := by
  rcases redo_cases p b key with
    ⟨total, hcount, hallowed, hredo⟩ | ⟨total, hcount, hrefused, hredo⟩ | ⟨hfull, hredo⟩ <;> rw [hredo]
  · exact .again backedOut hcount hallowed
  · exact .ends (.gaveUp backedOut hcount hrefused)
  · exact .ends (.uncounted backedOut hfull)

/-- Each call of an attempt brings it on, unless the key that comes next overflows. -/
theorem Ongoing.turn_or_spoilt {phase : Phase} (ho : Ongoing p phase attempt) (conflicts : UInt64)
    (reply : Reply) :
    Turn p conflicts (attempt ++ [(next p ⟨conflicts, phase⟩, reply)]) (answer p ⟨conflicts, phase⟩ reply) ∨
      ∃ how, Spoilt p how (attempt ++ [(next p ⟨conflicts, phase⟩, reply)]) ∧
        answer p ⟨conflicts, phase⟩ reply = .more ⟨conflicts, .rollingBack (.crashed how)⟩ := by
  have hnext {offset : Nat} (hle : offset ≤ p.workload.width) (begun : Verdict) :
      Turn p conflicts (inserting begun (p.rows.take offset)) (.more ⟨conflicts, p.phaseAt offset⟩) ∨
        ∃ how, Spoilt p how (inserting begun (p.rows.take offset)) ∧
          Progress.more ⟨conflicts, p.phaseAt offset⟩ = .more ⟨conflicts, .rollingBack (.crashed how)⟩ := by
    rcases phaseAt_cases p hle with ⟨how, hunkeyed⟩ | hongoing
    · exact .inr ⟨how, .mk hunkeyed, by rw [hunkeyed]⟩
    · exact .inl (.goesOn (hongoing begun))
  cases ho with
  | starting =>
    cases reply with
    | ok begun => exact hnext (Nat.zero_le _) begun
    | error stop => exact .inl (.ends .beginFailed)
  | @writing offset row begun here =>
    have hcall : next p ⟨conflicts, .writing offset row.1⟩ = .insert row.1 row.2 := by
      simp only [next, Plan.value_of_getElem? here]
    rw [hcall]
    cases reply with
    | ok verdict =>
      cases verdict with
      | accepted =>
        have hturn := hnext (Plan.getElem?_rows.mp here).1 begun
        rw [List.take_add_one, here, Option.toList_some, inserting_concat] at hturn
        exact hturn
      | conflict => exact .inl (.goesOn (.backingOut here))
    | error stop => exact .inl (.goesOn (.insertFailed here))
  | backingOut here =>
    rw [List.append_assoc]
    cases reply with
    | ok aborted => exact .inl (turn_redo ⟨conflicts, _⟩ (.mk here))
    | error stop => exact .inl (.ends (.abortFailed here))
  | insertFailed here =>
    rw [List.append_assoc]
    exact .inl (.ends (.insertFailed here))
  | preparing two =>
    cases reply with
    | ok verdict => exact .inl (.goesOn (.committing (.twoPhase two)))
    | error stop => exact .inl (.goesOn (.prepareFailed two))
  | prepareFailed two =>
    rw [List.append_assoc]
    exact .inl (.ends (.prepareFailed two))
  | committing ready =>
    cases reply with
    | ok verdict => exact .inl (.ends (.committed ready))
    | error stop => exact .inl (.ends (.commitFailed ready))

def Stands (p : Plan) (log : List Exchange) : Progress → Prop
  | .more b => ∃ redone attempt, Redone p redone b.conflicts ∧ Ongoing p b.phase attempt ∧
      log = redone ++ attempt
  | .over result => Says p log result

/-- The batch comes to a key that overflows, lets go of its transaction and ends by the fault. -/
inductive Wrecked (p : Plan) : List Exchange → Progress → Prop
  | holding {redone attempt : List Exchange} {conflicts : UInt64} {how : Fault}
      (before : Redone p redone conflicts) (spoilt : Spoilt p how attempt) :
      Wrecked p (redone ++ attempt) (.more ⟨conflicts, .rollingBack (.crashed how)⟩)
  | dropped {redone attempt : List Exchange} {conflicts : UInt64} {how : Fault}
      (before : Redone p redone conflicts) (spoilt : Spoilt p how attempt) (reply : Reply) :
      Wrecked p (redone ++ (attempt ++ [(.dropTxn, reply)])) (.over (.error (.crashed how)))

theorem Runs.stands_or_wrecked (hr : Runs p .start log progress) :
    Stands p log progress ∨ Wrecked p log progress := by
  induction hr with
  | start => exact .inl ⟨[], [], .none, .starting, rfl⟩
  | @call log b _ reply ih =>
    rcases ih with ⟨redone, attempt, hredone, hongoing, rfl⟩ | hwrecked
    · rw [List.append_assoc]
      rcases hongoing.turn_or_spoilt b.conflicts reply with hturn | ⟨how, hspoilt, hanswer⟩
      · generalize b.answer p reply = progress at hturn
        cases hturn with
        | goesOn ongoing => exact .inl ⟨_, _, hredone, ongoing, rfl⟩
        | again backedOut count allowed =>
          exact .inl ⟨_, _, .again hredone backedOut count allowed, .starting, (List.append_nil _).symm⟩
        | ends last => exact .inl ⟨_, _, _, hredone, last, rfl⟩
      · rw [hanswer]
        exact .inr (.holding hredone hspoilt)
    · cases hwrecked with
      | holding before spoilt =>
        rw [List.append_assoc]
        exact .inr (.dropped before spoilt reply)

theorem Plan.Keyed.not_spoilt (h : p.Keyed) {how : Fault} : ¬ Spoilt p how attempt := by
  rintro ⟨hunkeyed⟩
  rw [h.phaseAt_eq] at hunkeyed
  split at hunkeyed
  · cases hunkeyed
  · split at hunkeyed <;> cases hunkeyed

theorem Runs.stands (h : p.Keyed) (hr : Runs p .start log progress) : Stands p log progress := by
  rcases hr.stands_or_wrecked with hstands | ⟨_, spoilt⟩ | ⟨_, spoilt, _⟩
  · exact hstands
  · exact (h.not_spoilt spoilt).elim
  · exact (h.not_spoilt spoilt).elim

end InsertBench.Batch
