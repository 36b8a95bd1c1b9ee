import InsertBench.Proofs.Workload.Dealing
import InsertBench.Run.Batch

/-! # The rows of a batch

If none of its keys overflows, a batch has one fixed list of rows: the key of each offset in order, with
the bytes of the row that the key determines.
-/
namespace InsertBench.Batch.Plan

/-- The batch of a thread in a round, of an accepted workload that has this thread and this round. -/
structure Fit (p : Plan) : Prop where
  accepted : p.workload.Accepted
  thread : p.thread.toNat < p.workload.crewSize
  round : p.round.toNat < p.workload.roundCount

/-- The batch has rows, its thread is one of its workload, and no key of it overflows. -/
structure Keyed (p : Plan) : Prop where
  width : 0 < p.workload.width
  thread : p.thread < p.workload.threads
  fits {offset : Nat} : offset < p.workload.width →
    p.workload.position p.thread.toNat p.round.toNat offset < UInt64.size

def keyAt (p : Plan) (offset : Nat) : Int64 := p.workload.keyAt p.thread.toNat p.round.toNat offset

def row (p : Plan) (offset : Nat) : Int64 × Bytes := (p.keyAt offset, p.value (p.keyAt offset))

def rows (p : Plan) : List (Int64 × Bytes) := (List.range p.workload.width).map p.row

variable {p : Plan}

theorem Fit.keyed (h : p.Fit) : p.Keyed where
  width := h.accepted.sizes.1
  thread := UInt64.lt_iff_toNat_lt.mpr h.thread
  fits {offset} ho := by
    have hmost := h.accepted.rowTotal_lt
    have hlt := Workload.position_lt h.thread h.round ho
    have hsize : UInt64.size = 2 ^ 64 := rfl
    omega

theorem Keyed.key_eq (h : p.Keyed) {offset : Nat} (ho : offset < p.workload.width) :
    p.key offset = .ok (p.keyAt offset) := by
  have hoffset : offset.toUInt64.toNat = offset :=
    Word.toNat_toUInt64 (ho.trans p.workload.rowsPerTxn.toNat_lt_size)
  rw [key, Workload.key_eq_ok_iff, UInt64.lt_iff_toNat_lt (a := offset.toUInt64), hoffset]
  exact ⟨h.thread, ho, h.fits ho, rfl⟩

/-- The key that an offset is dealt is the one at its exact position. -/
theorem key_of_ok {offset : Nat} {key : Int64} (ho : offset < p.workload.width) (h : p.key offset = .ok key) :
    key = p.keyAt offset := by
  have hoffset : offset.toUInt64.toNat = offset :=
    Word.toNat_toUInt64 (ho.trans p.workload.rowsPerTxn.toNat_lt_size)
  have hkey := (Workload.key_eq_ok_iff.mp h).2.2.2
  rwa [hoffset] at hkey

theorem Keyed.phaseAt_eq (h : p.Keyed) (offset : Nat) :
    p.phaseAt offset =
      if offset < p.workload.width then .writing offset (p.keyAt offset)
      else if p.workload.twoPhase then .preparing (p.keyAt 0).toUInt64 else .committing := by
  have hwidth : p.workload.rowsPerTxn.toNat = p.workload.width := rfl
  rw [phaseAt, hwidth]
  by_cases ho : offset < p.workload.width
  · rw [if_pos ho, if_pos ho, h.key_eq ho]
  · rw [if_neg ho, if_neg ho, h.key_eq h.width]

@[simp] theorem length_rows : p.rows.length = p.workload.width := by simp [rows]

theorem getElem?_rows {offset : Nat} {row : Int64 × Bytes} :
    p.rows[offset]? = some row ↔ offset < p.workload.width ∧ p.row offset = row := by
  rw [rows, List.getElem?_map, Option.map_eq_some_iff]
  constructor
  · rintro ⟨o, ho, rfl⟩
    obtain ⟨hlt, rfl⟩ := List.getElem?_eq_some_iff.mp ho
    rw [List.length_range] at hlt
    simp [hlt]
  · rintro ⟨ho, rfl⟩
    exact ⟨offset, List.getElem?_range ho, rfl⟩

theorem value_of_getElem? {offset : Nat} {row : Int64 × Bytes} (h : p.rows[offset]? = some row) :
    p.value row.1 = row.2 := by
  obtain ⟨_, rfl⟩ := getElem?_rows.mp h
  simp only [Plan.row]

theorem reverse_take_rows {offset : Nat} (ho : offset < p.workload.width) :
    (p.rows.take (offset + 1)).reverse = p.row offset :: (p.rows.take offset).reverse := by
  rw [List.take_add_one, getElem?_rows.mpr ⟨ho, rfl⟩, Option.toList_some, List.reverse_append]
  rfl

theorem mem_rows {row : Int64 × Bytes} : row ∈ p.rows ↔ ∃ offset < p.workload.width, p.row offset = row := by
  simp [rows]

theorem keyAt_mem {offset : Nat} (ho : offset < p.workload.width) : p.keyAt offset ∈ p.rows.map Prod.fst :=
  List.mem_map_of_mem (mem_rows.mpr ⟨offset, ho, rfl⟩)

end InsertBench.Batch.Plan
