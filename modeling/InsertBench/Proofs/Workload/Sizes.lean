import InsertBench.Proofs.Workload.KeySpace
import Mathlib.Order.Bounds.Defs

/-! # Sizes that fill a round

A workload is planned by dividing twice. That comes to the same as comparing its rows with the exact
product of the other two sizes, also where the product has no word; and what is computed from the sizes of
an accepted workload later on is exact too.
-/
namespace InsertBench.Workload

/-- There are rows for one batch of each thread, and a signed key for each row. -/
def FillRound (totalRows rowsPerTxn threads : UInt64) : Prop :=
  0 < totalRows.toNat ∧ 0 < rowsPerTxn.toNat ∧ 0 < threads.toNat ∧ totalRows.toNat ≤ 2 ^ 63 - 1 ∧
    rowsPerTxn.toNat * threads.toNat ≤ totalRows.toNat

/-- What is computed from the sizes of a workload, by exact arithmetic. -/
structure Measured (w : Workload) : Prop where
  rounds : ∃ rounds, w.rounds = .ok rounds ∧ rounds.toNat = w.totalRows.toNat / w.blockSize ∧ 1 ≤ rounds.toNat
  effectiveRows : ∃ rows, w.effectiveRows = .ok rows ∧
    IsGreatest {n | w.blockSize ∣ n ∧ n ≤ w.totalRows.toNat} rows.toNat
  droppedRows : ∃ dropped, w.droppedRows = .ok dropped ∧ dropped.toNat = w.totalRows.toNat % w.blockSize

/-- A workload of these sizes is planned exactly if they fill a round, and refused otherwise. -/
structure Plans (totalRows rowsPerTxn threads : UInt64) (start : SessionStart) : Prop where
  accepted : (∃ w, plan totalRows rowsPerTxn threads start = .ok w) ↔ FillRound totalRows rowsPerTxn threads
  refused : ¬ FillRound totalRows rowsPerTxn threads →
    ∃ why, plan totalRows rowsPerTxn threads start = .error (.failed (.refused why))
  sizes {w : Workload} : plan totalRows rowsPerTxn threads start = .ok w →
    w = ⟨totalRows, rowsPerTxn, threads, start, false, .unbounded⟩
  measured {w : Workload} (twoPhase : Bool) (retry : Retry) :
    plan totalRows rowsPerTxn threads start = .ok w →
    ({ w with twoPhase, retry } : Workload).Measured

variable {totalRows rowsPerTxn threads : UInt64} {start : SessionStart} {w : Workload}

theorem plan_cases (totalRows rowsPerTxn threads : UInt64) (start : SessionStart) :
    (∃ why, plan totalRows rowsPerTxn threads start = .error (.failed (.refused why))) ∨
      plan totalRows rowsPerTxn threads start =
        .ok ⟨totalRows, rowsPerTxn, threads, start, false, .unbounded⟩ := by
  unfold plan
  simp only [bind, Except.bind, pure, Except.pure, throw, throwThe, MonadExceptOf.throw]
  split
  · exact .inl ⟨_, rfl⟩
  split
  · exact .inl ⟨_, rfl⟩
  rename_i hwidth
  split
  · exact .inl ⟨_, rfl⟩
  rename_i hcrew
  split
  · exact .inl ⟨_, rfl⟩
  simp only [rounds, Word.div_eq_ok hwidth, Word.div_eq_ok hcrew, bind, Except.bind, Stop.lift]
  split
  · exact .inl ⟨_, rfl⟩
  · exact .inr rfl

theorem sizes_of_plan (h : plan totalRows rowsPerTxn threads start = .ok w) :
    w = ⟨totalRows, rowsPerTxn, threads, start, false, .unbounded⟩ := by
  rcases plan_cases totalRows rowsPerTxn threads start with ⟨why, hwhy⟩ | hplan
  · cases hwhy.symm.trans h
  · exact Except.ok.inj (h.symm.trans hplan)

theorem accepted_of_plan (h : plan totalRows rowsPerTxn threads start = .ok w) (twoPhase : Bool)
    (retry : Retry) : ({ w with twoPhase, retry } : Workload).Accepted := by
  obtain rfl := sizes_of_plan h
  exact h

theorem roundCount_eq (w : Workload) : w.roundCount = w.totalRows.toNat / w.blockSize := by
  rw [roundCount, Nat.div_div_eq_div_mul, blockSize, Nat.mul_comm w.threads.toNat]
  rfl

theorem Accepted.fillRound (h : w.Accepted) : FillRound w.totalRows w.rowsPerTxn w.threads := by
  obtain ⟨hwidth, hcrew, hmost, hround⟩ := h.sizes
  rw [roundCount_eq, blockSize, Nat.mul_comm] at hround
  have hle := Nat.le_of_not_lt fun hlt => hround.ne' (Nat.div_eq_of_lt hlt)
  have hblock : 0 < w.rowsPerTxn.toNat * w.threads.toNat := Nat.mul_pos hwidth hcrew
  exact ⟨by omega, hwidth, hcrew, by omega, hle⟩

theorem FillRound.plan_eq (h : FillRound totalRows rowsPerTxn threads) (start : SessionStart) :
    plan totalRows rowsPerTxn threads start =
      .ok ⟨totalRows, rowsPerTxn, threads, start, false, .unbounded⟩ := by
  obtain ⟨hrows, hwidth, hcrew, hmost, hround⟩ := h
  have hzero {a : UInt64} (ha : 0 < a.toNat) : a ≠ 0 := by
    rintro rfl
    exact absurd ha (by decide)
  have hkeys : ¬ 0x7fffffffffffffff < totalRows := by
    simp only [UInt64.lt_iff_toNat_lt, UInt64.reduceToNat, not_lt]
    omega
  have hfirst : totalRows / rowsPerTxn / threads ≠ 0 := by
    apply hzero
    rw [UInt64.toNat_div, UInt64.toNat_div, Nat.div_div_eq_div_mul]
    exact Nat.div_pos hround (Nat.mul_pos hwidth hcrew)
  simp only [plan, rounds, Word.div_eq_ok (hzero hwidth), Word.div_eq_ok (hzero hcrew), bind,
    Except.bind, pure,
    Except.pure, Stop.lift, if_neg (hzero hrows), if_neg (hzero hwidth), if_neg (hzero hcrew), if_neg hkeys,
    if_neg hfirst]

theorem Accepted.droppedRows_eq (h : w.Accepted) :
    w.droppedRows = .ok (w.totalRows - w.rowTotal.toUInt64) ∧ w.rowTotal.toUInt64.toNat = w.rowTotal := by
  have hmost := h.rowTotal_lt
  have hsize : UInt64.size = 2 ^ 64 := rfl
  have htotal : w.rowTotal.toUInt64.toNat = w.rowTotal := Word.toNat_toUInt64 (by omega)
  have hle : w.rowTotal.toUInt64 ≤ w.totalRows := by
    rw [UInt64.le_iff_toNat_le, htotal]
    exact w.rowTotal_le
  refine ⟨?_, htotal⟩
  rw [droppedRows, h.effectiveRows_eq]
  exact if_pos hle

theorem Accepted.summary_ok (h : w.Accepted) : ∃ line, w.summary = .ok line := by
  rw [summary, h.rounds_eq, h.droppedRows_eq.1]
  exact ⟨_, rfl⟩

/-- The rows of whole rounds are as many as there can be. -/
theorem isGreatest_rowTotal (w : Workload) :
    IsGreatest {n | w.blockSize ∣ n ∧ n ≤ w.totalRows.toNat} w.rowTotal := by
  constructor
  · exact ⟨⟨w.roundCount, by rw [rowTotal_eq, Nat.mul_comm]⟩, w.rowTotal_le⟩
  · rintro n ⟨⟨rounds, rfl⟩, hle⟩
    rw [rowTotal_eq, roundCount_eq, Nat.mul_comm w.blockSize]
    rcases Nat.eq_zero_or_pos w.blockSize with hzero | hpos
    · rw [hzero, Nat.mul_zero]
      exact Nat.zero_le _
    · rw [Nat.mul_comm w.blockSize] at hle
      exact Nat.mul_le_mul_right _ ((Nat.le_div_iff_mul_le hpos).mpr hle)

theorem Accepted.measured (h : w.Accepted) : w.Measured := by
  obtain ⟨hdropped, htotal⟩ := h.droppedRows_eq
  have hle := w.rowTotal_le
  constructor
  case rounds =>
    refine ⟨_, h.rounds_eq, ?_, ?_⟩
    · rw [Word.toNat_toUInt64 w.roundCount_lt, roundCount_eq]
    · rw [Word.toNat_toUInt64 w.roundCount_lt]
      exact h.sizes.2.2.2
  case effectiveRows =>
    refine ⟨_, h.effectiveRows_eq, ?_⟩
    rw [htotal]
    exact w.isGreatest_rowTotal
  case droppedRows =>
    refine ⟨_, hdropped, ?_⟩
    have hdivision := Nat.div_add_mod' w.totalRows.toNat w.blockSize
    rw [← roundCount_eq, ← rowTotal_eq] at hdivision
    have hword : w.rowTotal.toUInt64 ≤ w.totalRows := by rwa [UInt64.le_iff_toNat_le, htotal]
    rw [UInt64.toNat_sub_of_le _ _ hword, htotal]
    omega

/-- Whatever the three sizes are, their product included. -/
theorem plans_exactly (totalRows rowsPerTxn threads : UInt64) (start : SessionStart) :
    Plans totalRows rowsPerTxn threads start where
  accepted := by
    constructor
    · rintro ⟨w, hw⟩
      obtain rfl := sizes_of_plan hw
      exact (accepted_of_plan hw false .unbounded).fillRound
    · intro hfills
      exact ⟨_, hfills.plan_eq start⟩
  refused hnot := by
    rcases plan_cases totalRows rowsPerTxn threads start with hrefused | hplan
    · exact hrefused
    · exact absurd (accepted_of_plan hplan false .unbounded).fillRound hnot
  sizes := sizes_of_plan
  measured twoPhase retry h := (accepted_of_plan h twoPhase retry).measured

/-- Here the product of the sizes leaves a word, and would be zero in it. -/
example : plan 0x7fffffffffffffff 0x100000000 0x100000000 .eager =
    .error (.failed (.refused (.noWholeRound 0x7fffffffffffffff 0x100000000 0x100000000))) := by decide

end InsertBench.Workload
