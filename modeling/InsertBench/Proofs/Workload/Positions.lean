import Mathlib.Data.UInt
import InsertBench.Workload.Partition

/-! # Positions in the order of dealing

A partition computes the position of a place by two products, a third one, and two sums. The position is
at least as large as what is computed on the way to it, so that no word overflows unless the position
itself has none. Reading it as a signed word keeps different positions apart.
-/
namespace InsertBench

namespace Word

variable {a b : UInt64} {n : Nat}

theorem toNat_toUInt64 (h : n < UInt64.size) : n.toUInt64.toNat = n := UInt64.toNat_ofNat_of_lt' h

theorem toString_toUInt64 (h : n < UInt64.size) : toString n.toUInt64 = toString n := by
  change toString n.toUInt64.toNat = _
  rw [toNat_toUInt64 h]

theorem toUInt64_toNat (a : UInt64) : a.toNat.toUInt64 = a := UInt64.ofNat_toNat

theorem add_ok (h : a.toNat + b.toNat < UInt64.size) : add a b = .ok (a + b) := if_pos h

theorem mul_toUInt64 (h : a.toNat * b.toNat = n) (hn : n < UInt64.size) : mul a b = .ok n.toUInt64 :=
  mul_eq_ok_iff.mpr (by rw [toNat_toUInt64 hn, h])

theorem add_toUInt64 (h : a.toNat + b.toNat = n) (hn : n < UInt64.size) : add a b = .ok n.toUInt64 :=
  add_eq_ok_iff.mpr (by rw [toNat_toUInt64 hn, h])

theorem mul_overflow (h : UInt64.size ≤ a.toNat * b.toNat) : mul a b = .error .multiplyOverflow :=
  if_neg (Nat.not_lt.mpr h)

theorem add_overflow (h : UInt64.size ≤ a.toNat + b.toNat) : add a b = .error .addOverflow :=
  if_neg (Nat.not_lt.mpr h)

end Word

theorem digits_inj {base x y x' y' : Nat} (hy : y < base) (hy' : y' < base)
    (h : x * base + y = x' * base + y') : x = x' ∧ y = y' := by
  have hlow := congrArg (· % base) h
  simp only [Nat.mul_add_mod_of_lt hy, Nat.mul_add_mod_of_lt hy'] at hlow
  have hhigh : x * base = x' * base := by omega
  exact ⟨Nat.eq_of_mul_eq_mul_right (by omega) hhigh, hlow⟩

namespace Partition

variable (p : Partition) {thread round offset thread' round' offset' : UInt64} {key : Int64}

/-- The place of an offset of a thread's slice of a round in the order of dealing, by exact arithmetic. -/
def position (thread round offset : UInt64) : Nat :=
  round.toNat * p.threads.toNat * p.rowsPerTxn.toNat + thread.toNat * p.rowsPerTxn.toNat + offset.toNat

variable {p}

theorem ofNat_inj {m n : Nat} (hm : m < UInt64.size) (hn : n < UInt64.size)
    (h : Int64.ofNat m = Int64.ofNat n) : m = n := by
  have hwords : m.toUInt64 = n.toUInt64 := congrArg Int64.toUInt64 h
  rw [← Word.toNat_toUInt64 hm, hwords, Word.toNat_toUInt64 hn]

theorem position_inj (ht : thread < p.threads) (ht' : thread' < p.threads) (ho : offset < p.rowsPerTxn)
    (ho' : offset' < p.rowsPerTxn) (h : p.position thread round offset = p.position thread' round' offset') :
    thread = thread' ∧ round = round' ∧ offset = offset' := by
  rw [UInt64.lt_iff_toNat_lt] at ht ht' ho ho'
  rw [position, position, ← Nat.add_mul, ← Nat.add_mul] at h
  obtain ⟨hslice, hoffset⟩ := digits_inj ho ho' h
  obtain ⟨hround, hthread⟩ := digits_inj ht ht' hslice
  exact ⟨UInt64.toNat_inj.mp hthread, UInt64.toNat_inj.mp hround, UInt64.toNat_inj.mp hoffset⟩

theorem key_of_outside (h : ¬ (thread < p.threads ∧ offset < p.rowsPerTxn)) :
    p.key thread round offset = .error .outsidePartition := if_neg h

section Inside

variable (ht : thread < p.threads) (ho : offset < p.rowsPerTxn)

include ht ho

/-- The first product overflows only if the second one would: a slice is not empty. -/
theorem key_of_block (h : UInt64.size ≤ round.toNat * p.threads.toNat * p.rowsPerTxn.toNat) :
    p.key thread round offset = .error .multiplyOverflow := by
  rw [key, if_pos ⟨ht, ho⟩]
  by_cases hdealt : round.toNat * p.threads.toNat < UInt64.size
  · have hblock : Word.mul (round.toNat * p.threads.toNat).toUInt64 p.rowsPerTxn = .error .multiplyOverflow :=
      Word.mul_overflow (by rwa [Word.toNat_toUInt64 hdealt])
    rw [Word.mul_toUInt64 rfl hdealt]
    simp only [bind, Except.bind, hblock]
  · rw [Word.mul_overflow (Nat.not_lt.mp hdealt)]
    rfl

theorem key_of_lt (h : round.toNat * p.threads.toNat * p.rowsPerTxn.toNat < UInt64.size) :
    p.key thread round offset = (do
      let slice ← Word.mul thread p.rowsPerTxn
      let position ← Word.add
        (← Word.add (round.toNat * p.threads.toNat * p.rowsPerTxn.toNat).toUInt64 slice) offset
      return position.toInt64) := by
  have hwidth : 0 < p.rowsPerTxn.toNat := Nat.zero_lt_of_lt (UInt64.lt_iff_toNat_lt.mp ho)
  have hdealt : round.toNat * p.threads.toNat < UInt64.size :=
    Nat.lt_of_le_of_lt (Nat.le_mul_of_pos_right _ hwidth) h
  have hblock : Word.mul (round.toNat * p.threads.toNat).toUInt64 p.rowsPerTxn =
      .ok (round.toNat * p.threads.toNat * p.rowsPerTxn.toNat).toUInt64 :=
    Word.mul_toUInt64 (by rw [Word.toNat_toUInt64 hdealt]) h
  rw [key, if_pos ⟨ht, ho⟩, Word.mul_toUInt64 rfl hdealt]
  simp only [bind, Except.bind, hblock]

theorem key_of_position_lt (h : p.position thread round offset < UInt64.size) :
    p.key thread round offset = .ok (Int64.ofNat (p.position thread round offset)) := by
  unfold position at h
  have hslice : Word.mul thread p.rowsPerTxn = .ok (thread.toNat * p.rowsPerTxn.toNat).toUInt64 :=
    Word.mul_toUInt64 rfl (by omega)
  have hstart : Word.add (round.toNat * p.threads.toNat * p.rowsPerTxn.toNat).toUInt64
      (thread.toNat * p.rowsPerTxn.toNat).toUInt64 =
      .ok (round.toNat * p.threads.toNat * p.rowsPerTxn.toNat + thread.toNat * p.rowsPerTxn.toNat).toUInt64 :=
    Word.add_toUInt64 (by rw [Word.toNat_toUInt64 (by omega), Word.toNat_toUInt64 (by omega)]) (by omega)
  have hplace : Word.add (round.toNat * p.threads.toNat * p.rowsPerTxn.toNat +
      thread.toNat * p.rowsPerTxn.toNat).toUInt64 offset = .ok (p.position thread round offset).toUInt64 :=
    Word.add_toUInt64 (by rw [Word.toNat_toUInt64 (by omega), position]) h
  rw [key_of_lt ht ho (by omega)]
  simp only [bind, Except.bind, hslice, hstart, hplace]
  rfl

theorem key_of_size_le (h : UInt64.size ≤ p.position thread round offset) :
    p.key thread round offset = .error .multiplyOverflow ∨
      p.key thread round offset = .error .addOverflow := by
  rcases Nat.lt_or_ge (round.toNat * p.threads.toNat * p.rowsPerTxn.toNat) UInt64.size with hblock | hblock
  · rw [key_of_lt ht ho hblock]
    rcases Nat.lt_or_ge (thread.toNat * p.rowsPerTxn.toNat) UInt64.size with hslice | hslice
    · have hsum : (round.toNat * p.threads.toNat * p.rowsPerTxn.toNat).toUInt64.toNat +
          (thread.toNat * p.rowsPerTxn.toNat).toUInt64.toNat =
          round.toNat * p.threads.toNat * p.rowsPerTxn.toNat + thread.toNat * p.rowsPerTxn.toNat := by
        rw [Word.toNat_toUInt64 hblock, Word.toNat_toUInt64 hslice]
      rw [Word.mul_toUInt64 rfl hslice]
      simp only [bind, Except.bind]
      rcases Nat.lt_or_ge (round.toNat * p.threads.toNat * p.rowsPerTxn.toNat +
        thread.toNat * p.rowsPerTxn.toNat) UInt64.size with hstart | hstart
      · rw [Word.add_toUInt64 hsum hstart]
        simp only
        rw [Word.add_overflow (by rwa [Word.toNat_toUInt64 hstart])]
        exact .inr rfl
      · rw [Word.add_overflow (by rwa [hsum])]
        exact .inr rfl
    · rw [Word.mul_overflow hslice]
      exact .inl rfl
  · exact .inl (key_of_block ht ho hblock)

end Inside

theorem key_eq_ok_iff : p.key thread round offset = .ok key ↔ thread < p.threads ∧ offset < p.rowsPerTxn ∧
    p.position thread round offset < UInt64.size ∧ key = Int64.ofNat (p.position thread round offset) := by
  constructor
  · intro h
    by_cases hinside : thread < p.threads ∧ offset < p.rowsPerTxn
    · by_cases hlt : p.position thread round offset < UInt64.size
      · rw [key_of_position_lt hinside.1 hinside.2 hlt, Except.ok.injEq] at h
        exact ⟨hinside.1, hinside.2, hlt, h.symm⟩
      · rcases key_of_size_le hinside.1 hinside.2 (Nat.not_lt.mp hlt) with he | he <;> simp [he] at h
    · simp [key_of_outside hinside] at h
  · rintro ⟨ht, ho, hlt, rfl⟩
    exact key_of_position_lt ht ho hlt

/-- What a partition answers to any words, whether or not a workload would ask for them. -/
structure DealsByPosition (p : Partition) : Prop where
  outside (thread round offset : UInt64) : p.key thread round offset = .error .outsidePartition ↔
    p.threads ≤ thread ∨ p.rowsPerTxn ≤ offset
  overflows {thread round offset : UInt64} : thread < p.threads → offset < p.rowsPerTxn →
    (p.key thread round offset = .error .multiplyOverflow ∨ p.key thread round offset = .error .addOverflow ↔
      2 ^ 64 ≤ p.position thread round offset)
  deals {thread round offset : UInt64} : thread < p.threads → offset < p.rowsPerTxn →
    p.position thread round offset < 2 ^ 64 → ∃ key, p.key thread round offset = .ok key ∧
      key.toInt = (p.position thread round offset : Int).bmod (2 ^ 64) ∧
      (key < 0 ↔ 2 ^ 63 ≤ p.position thread round offset)
  distinct {thread round offset thread' round' offset' : UInt64} {key : Int64} :
    p.key thread round offset = .ok key → p.key thread' round' offset' = .ok key →
      thread = thread' ∧ round = round' ∧ offset = offset'
  /-- Whoever is dealt a key at an offset is dealt one at every offset before it. -/
  earlier {thread round offset before : UInt64} {key : Int64} : p.key thread round offset = .ok key →
    before ≤ offset → ∃ key', p.key thread round before = .ok key'

theorem ofNat_neg_iff {n : Nat} (h : n < 2 ^ 64) : Int64.ofNat n < 0 ↔ 2 ^ 63 ≤ n := by
  have hsigned : (Int64.ofNat n).toInt = (n : Int).bmod (2 ^ 64) := Int64.toInt_ofNat'
  rw [Int64.lt_iff_toInt_lt, hsigned, Int64.toInt_zero, Int.bmod_def]
  have hmod : (n : Int) % (2 ^ 64 : Nat) = n := Int.emod_eq_of_lt (by omega) (by omega)
  rw [hmod]
  split <;> omega

theorem dealsByPosition (p : Partition) : p.DealsByPosition := by
  have hsize : UInt64.size = 2 ^ 64 := rfl
  constructor
  case outside =>
    intro thread round offset
    rw [← UInt64.not_lt, ← UInt64.not_lt, ← not_and_or]
    constructor
    · intro h hinside
      by_cases hlt : p.position thread round offset < UInt64.size
      · simp [key_of_position_lt hinside.1 hinside.2 hlt] at h
      · rcases key_of_size_le hinside.1 hinside.2 (Nat.not_lt.mp hlt) with he | he <;> simp [he] at h
    · exact key_of_outside
  case overflows =>
    intro thread round offset ht ho
    constructor
    · intro h
      refine Nat.not_lt.mp fun hlt => ?_
      rw [key_of_position_lt ht ho hlt] at h
      rcases h with h | h <;> cases h
    · exact key_of_size_le ht ho
  case deals =>
    intro thread round offset ht ho hlt
    exact ⟨_, key_of_position_lt ht ho hlt, Int64.toInt_ofNat', ofNat_neg_iff hlt⟩
  case distinct =>
    intro thread round offset thread' round' offset' key h h'
    obtain ⟨ht, ho, hlt, rfl⟩ := key_eq_ok_iff.mp h
    obtain ⟨ht', ho', hlt', he⟩ := key_eq_ok_iff.mp h'
    exact position_inj ht ht' ho ho' (ofNat_inj hlt hlt' he)
  case earlier =>
    intro thread round offset before key h hle
    obtain ⟨ht, ho, hlt, rfl⟩ := key_eq_ok_iff.mp h
    have hposition : p.position thread round before ≤ p.position thread round offset :=
      Nat.add_le_add_left (UInt64.le_iff_toNat_le.mp hle) _
    exact ⟨_, key_of_position_lt ht (UInt64.lt_of_le_of_lt hle ho) (by omega)⟩

/-- The position after the greatest key is the least key. -/
example : (⟨2, 0x8000000000000000⟩ : Partition).key 1 0 0 = .ok (-0x8000000000000000) := rfl

end Partition

end InsertBench
