import Mathlib.Data.Set.Function
import InsertBench.Proofs.Workload.Dealing

/-! # The key space of a workload

The keys of an accepted workload are the numbers from zero up to the number of rows that it inserts. Each
round is dealt one block of them, each thread one slice of every block, and each offset of a slice the key
after that of the offset before.
-/
namespace InsertBench.Workload

/-- The keys from one number on and before another. -/
def keysFrom (first last : Nat) : Set Int64 := {key | (first : Int) ≤ key.toInt ∧ key.toInt < last}

def blockSize (w : Workload) : Nat := w.threads.toNat * w.rowsPerTxn.toNat

/-- The keys that are dealt in so many rounds are so many in total, block by block and slice by slice. -/
structure DealsAll (w : Workload) (rounds total : UInt64) : Prop where
  bijOn : Set.BijOn (fun place : UInt64 × UInt64 × UInt64 => w.partition.key place.1 place.2.1 place.2.2)
    {place | place.1 < w.threads ∧ place.2.1 < rounds ∧ place.2.2 < w.rowsPerTxn}
    (Except.ok '' keysFrom 0 total.toNat)
  block {round : UInt64} : round < rounds →
    {dealt | ∃ thread < w.threads, ∃ offset < w.rowsPerTxn, w.partition.key thread round offset = dealt} =
      Except.ok '' keysFrom (round.toNat * w.blockSize) ((round.toNat + 1) * w.blockSize)
  slice {thread round : UInt64} : thread < w.threads → round < rounds →
    {dealt | ∃ offset < w.rowsPerTxn, w.partition.key thread round offset = dealt} =
      Except.ok '' keysFrom (round.toNat * w.blockSize + thread.toNat * w.rowsPerTxn.toNat)
        (round.toNat * w.blockSize + thread.toNat * w.rowsPerTxn.toNat + w.rowsPerTxn.toNat)
  ascending {thread round offset : UInt64} :
    thread < w.threads → round < rounds → offset < w.rowsPerTxn →
      ∃ key, w.partition.key thread round offset = .ok key ∧
        key.toInt = round.toNat * w.blockSize + thread.toNat * w.rowsPerTxn.toNat + offset.toNat

variable {w : Workload}

theorem mem_keysFrom {first last : Nat} (hlast : last ≤ 2 ^ 63) {key : Int64} :
    key ∈ keysFrom first last ↔ ∃ n, first ≤ n ∧ n < last ∧ Int64.ofNat n = key := by
  constructor
  · rintro ⟨hfirst, hlt⟩
    obtain ⟨n, hn⟩ := Int.eq_ofNat_of_zero_le (Int.le_trans (Int.natCast_nonneg first) hfirst)
    refine ⟨n, by omega, by omega, ?_⟩
    rw [← Int64.ofInt_eq_ofNat, ← hn, Int64.ofInt_toInt]
  · rintro ⟨n, hfirst, hlt, rfl⟩
    have hn : (Int64.ofNat n).toInt = n := Int64.toInt_ofNat_of_lt (by omega)
    exact ⟨by omega, by omega⟩

theorem position_eq (thread round offset : Nat) : w.position thread round offset =
    round * w.blockSize + thread * w.rowsPerTxn.toNat + offset := by
  change (round * w.threads.toNat + thread) * w.rowsPerTxn.toNat + offset = _
  rw [blockSize, Nat.add_mul, Nat.mul_assoc]

theorem rowTotal_eq : w.rowTotal = w.roundCount * w.blockSize := Nat.mul_assoc ..

theorem exists_offset {thread round n : Nat}
    (hfirst : round * w.blockSize + thread * w.rowsPerTxn.toNat ≤ n)
    (hlast : n < round * w.blockSize + thread * w.rowsPerTxn.toNat + w.rowsPerTxn.toNat) :
    ∃ offset < w.width, w.position thread round offset = n := by
  refine ⟨n - (round * w.blockSize + thread * w.rowsPerTxn.toNat), ?_, ?_⟩
  · change _ < w.rowsPerTxn.toNat
    omega
  · rw [position_eq]
    omega

theorem exists_thread {round n : Nat} (hfirst : round * w.blockSize ≤ n)
    (hlast : n < (round + 1) * w.blockSize) :
    ∃ thread < w.crewSize, ∃ offset < w.width, w.position thread round offset = n := by
  obtain ⟨inside, rfl⟩ := Nat.exists_eq_add_of_le hfirst
  rw [Nat.succ_mul] at hlast
  have hinside : inside < w.threads.toNat * w.rowsPerTxn.toNat := Nat.lt_of_add_lt_add_left hlast
  have hwidth : 0 < w.rowsPerTxn.toNat := Nat.pos_of_mul_pos_left (Nat.zero_lt_of_lt hinside)
  refine ⟨inside / w.rowsPerTxn.toNat, Nat.div_lt_of_lt_mul (by rwa [Nat.mul_comm]),
    inside % w.rowsPerTxn.toNat, Nat.mod_lt _ hwidth, ?_⟩
  rw [position_eq, Nat.add_assoc, Nat.div_add_mod']

theorem Accepted.toInt_keyAt (h : w.Accepted) {thread round offset : Nat} (ht : thread < w.crewSize)
    (hr : round < w.roundCount) (ho : offset < w.width) :
    (w.keyAt thread round offset).toInt = w.position thread round offset := by
  have hmost := h.rowTotal_lt
  have hlt := position_lt ht hr ho
  exact Int64.toInt_ofNat_of_lt (by omega)

/-- Every place of an accepted workload is dealt its key. -/
theorem Accepted.key_place (h : w.Accepted) {rounds thread round offset : UInt64}
    (hrounds : rounds.toNat = w.roundCount) (ht : thread < w.threads) (hr : round < rounds)
    (ho : offset < w.rowsPerTxn) : w.partition.key thread round offset =
      .ok (w.keyAt thread.toNat round.toNat offset.toNat) := by
  rw [UInt64.lt_iff_toNat_lt] at ht hr ho
  have hkey := h.key_eq ht (hrounds ▸ hr) ho
  rwa [Word.toUInt64_toNat, Word.toUInt64_toNat, Word.toUInt64_toNat] at hkey

/-- A number below the total has a place, and its key is dealt to that place. -/
theorem Accepted.exists_place (h : w.Accepted) {rounds : UInt64} (hrounds : rounds.toNat = w.roundCount)
    {thread round offset : Nat} (ht : thread < w.crewSize) (hr : round < w.roundCount)
    (ho : offset < w.width) : thread.toUInt64 < w.threads ∧ round.toUInt64 < rounds ∧
      offset.toUInt64 < w.rowsPerTxn ∧
      w.partition.key thread.toUInt64 round.toUInt64 offset.toUInt64 =
        .ok (Int64.ofNat (w.position thread round offset)) := by
  refine ⟨?_, ?_, ?_, h.key_eq ht hr ho⟩
  · rwa [UInt64.lt_iff_toNat_lt, Word.toNat_toUInt64 (ht.trans w.threads.toNat_lt_size)]
  · rwa [UInt64.lt_iff_toNat_lt, hrounds, Word.toNat_toUInt64 (hr.trans w.roundCount_lt)]
  · rwa [UInt64.lt_iff_toNat_lt, Word.toNat_toUInt64 (ho.trans w.rowsPerTxn.toNat_lt_size)]

theorem blockEnd_le {rounds round : UInt64} (hrounds : rounds.toNat = w.roundCount) (hr : round < rounds) :
    (round.toNat + 1) * w.blockSize ≤ w.rowTotal := by
  rw [UInt64.lt_iff_toNat_lt, hrounds] at hr
  rw [rowTotal_eq]
  exact Nat.mul_le_mul_right _ hr

section Dealt

variable (h : w.Accepted) {rounds : UInt64} (hrounds : rounds.toNat = w.roundCount)

include h hrounds

theorem Accepted.bijOn {total : UInt64} (htotal : total.toNat = w.rowTotal) :
    Set.BijOn (fun place : UInt64 × UInt64 × UInt64 => w.partition.key place.1 place.2.1 place.2.2)
      {place | place.1 < w.threads ∧ place.2.1 < rounds ∧ place.2.2 < w.rowsPerTxn}
      (Except.ok '' keysFrom 0 total.toNat) := by
  have hmost := h.rowTotal_lt
  refine ⟨?_, ?_, ?_⟩
  · rintro ⟨thread, round, offset⟩ ⟨ht, hr, ho⟩
    refine ⟨_, ?_, (h.key_place hrounds ht hr ho).symm⟩
    rw [UInt64.lt_iff_toNat_lt] at ht hr ho
    rw [hrounds] at hr
    have hlt := position_lt (w := w) ht hr ho
    exact (mem_keysFrom (by omega)).mpr ⟨_, Nat.zero_le _, by omega, rfl⟩
  · rintro ⟨thread, round, offset⟩ ⟨ht, hr, ho⟩ ⟨thread', round', offset'⟩ ⟨ht', hr', ho'⟩ he
    dsimp only at he
    rw [h.key_place hrounds ht hr ho, h.key_place hrounds ht' hr' ho', Except.ok.injEq] at he
    rw [UInt64.lt_iff_toNat_lt] at ht hr ho ht' hr' ho'
    obtain ⟨hthread, hround, hoffset⟩ :=
      keyAt_inj h ht ht' (hrounds ▸ hr) (hrounds ▸ hr') ho ho' he
    rw [UInt64.toNat_inj] at hthread hround hoffset
    exact Prod.ext hthread (Prod.ext hround hoffset)
  · rintro _ ⟨key, hkey, rfl⟩
    obtain ⟨n, _, hlt, rfl⟩ := (mem_keysFrom (by omega)).mp hkey
    obtain ⟨thread, ht, round, hr, offset, ho, rfl⟩ := exists_position (w := w) (htotal ▸ hlt)
    obtain ⟨hthread, hround, hoffset, hdealt⟩ := h.exists_place hrounds ht hr ho
    exact ⟨(thread.toUInt64, round.toUInt64, offset.toUInt64), ⟨hthread, hround, hoffset⟩, hdealt⟩

theorem Accepted.block {round : UInt64} (hr : round < rounds) :
    {dealt | ∃ thread < w.threads, ∃ offset < w.rowsPerTxn, w.partition.key thread round offset = dealt} =
      Except.ok '' keysFrom (round.toNat * w.blockSize) ((round.toNat + 1) * w.blockSize) := by
  have hmost := h.rowTotal_lt
  have hlast := blockEnd_le hrounds hr
  have hround : round.toNat < w.roundCount := by rwa [← hrounds, ← UInt64.lt_iff_toNat_lt]
  ext dealt
  constructor
  · rintro ⟨thread, ht, offset, ho, rfl⟩
    refine ⟨_, (mem_keysFrom (by omega)).mpr ⟨_, ?_, ?_, rfl⟩, (h.key_place hrounds ht hr ho).symm⟩
    · rw [position_eq]
      omega
    · rw [position_eq, Nat.succ_mul]
      rw [UInt64.lt_iff_toNat_lt] at ht ho
      have hslice := Nat.mul_le_mul_right w.rowsPerTxn.toNat ht
      rw [Nat.succ_mul] at hslice
      unfold blockSize
      omega
  · rintro ⟨key, hkey, rfl⟩
    obtain ⟨n, hfirst, hlt, rfl⟩ := (mem_keysFrom (by omega)).mp hkey
    obtain ⟨thread, ht, offset, ho, rfl⟩ := exists_thread hfirst hlt
    obtain ⟨hthread, _, hoffset, hdealt⟩ := h.exists_place hrounds ht hround ho
    rw [Word.toUInt64_toNat] at hdealt
    exact ⟨_, hthread, _, hoffset, hdealt⟩

theorem Accepted.slice {thread round : UInt64} (ht : thread < w.threads) (hr : round < rounds) :
    {dealt | ∃ offset < w.rowsPerTxn, w.partition.key thread round offset = dealt} =
      Except.ok '' keysFrom (round.toNat * w.blockSize + thread.toNat * w.rowsPerTxn.toNat)
        (round.toNat * w.blockSize + thread.toNat * w.rowsPerTxn.toNat + w.rowsPerTxn.toNat) := by
  have hmost := h.rowTotal_lt
  have hlast := blockEnd_le hrounds hr
  have hround : round.toNat < w.roundCount := by rwa [← hrounds, ← UInt64.lt_iff_toNat_lt]
  have hthread : thread.toNat < w.crewSize := UInt64.lt_iff_toNat_lt.mp ht
  have hslice := Nat.mul_le_mul_right w.rowsPerTxn.toNat hthread
  rw [Nat.succ_mul] at hslice
  have hend : round.toNat * w.blockSize + thread.toNat * w.rowsPerTxn.toNat + w.rowsPerTxn.toNat ≤
      (round.toNat + 1) * w.blockSize := by
    rw [Nat.succ_mul, Nat.add_assoc]
    exact Nat.add_le_add_left hslice _
  ext dealt
  constructor
  · rintro ⟨offset, ho, rfl⟩
    refine ⟨_, (mem_keysFrom (by omega)).mpr ⟨_, ?_, ?_, rfl⟩, (h.key_place hrounds ht hr ho).symm⟩
    · rw [position_eq]
      omega
    · rw [position_eq]
      exact Nat.add_lt_add_left (UInt64.lt_iff_toNat_lt.mp ho) _
  · rintro ⟨key, hkey, rfl⟩
    obtain ⟨n, hfirst, hlt, rfl⟩ := (mem_keysFrom (by omega)).mp hkey
    obtain ⟨offset, ho, rfl⟩ := exists_offset hfirst hlt
    obtain ⟨_, _, hoffset, hdealt⟩ := h.exists_place hrounds hthread hround ho
    rw [Word.toUInt64_toNat, Word.toUInt64_toNat] at hdealt
    exact ⟨_, hoffset, hdealt⟩

end Dealt

/-- An accepted workload deals the keys from zero up to the number of its rows one to one to its places,
and no word on the way to a key overflows. -/
theorem dealsAll_of_accepted (h : w.Accepted) :
    ∃ rounds total, w.rounds = .ok rounds ∧ w.effectiveRows = .ok total ∧ w.DealsAll rounds total := by
  have hmost := h.rowTotal_lt
  have hsize : UInt64.size = 2 ^ 64 := rfl
  have hrounds : w.roundCount.toUInt64.toNat = w.roundCount := Word.toNat_toUInt64 w.roundCount_lt
  have htotal : w.rowTotal.toUInt64.toNat = w.rowTotal := Word.toNat_toUInt64 (by omega)
  refine ⟨_, _, h.rounds_eq, h.effectiveRows_eq, h.bijOn hrounds htotal, h.block hrounds, h.slice hrounds, ?_⟩
  intro thread round offset ht hr ho
  refine ⟨_, h.key_place hrounds ht hr ho, ?_⟩
  rw [UInt64.lt_iff_toNat_lt] at ht hr ho
  rw [h.toInt_keyAt ht (hrounds ▸ hr) ho, position_eq]
  simp only [Nat.cast_add, Nat.cast_mul]

/-- Nearly as many rows as there are keys, for nearly as many threads as rows in a batch. -/
theorem dealsAll_greatest :
    let w : Workload := ⟨0x7fffffffffffffff, 3037000499, 3037000499, .eager, true, .bounded 2⟩
    w.Accepted ∧ w.rounds = .ok 1 ∧ w.effectiveRows = .ok 9223372030926249001 ∧
      w.DealsAll 1 9223372030926249001 := by
  intro w
  have hw : w.Accepted := by decide
  obtain ⟨rounds, total, hrounds, htotal, hdeals⟩ := dealsAll_of_accepted hw
  have hone : w.rounds = .ok 1 := by decide
  have hmost : w.effectiveRows = .ok 9223372030926249001 := by decide
  obtain rfl : rounds = 1 := Except.ok.inj (hrounds.symm.trans hone)
  obtain rfl : total = 9223372030926249001 := Except.ok.inj (htotal.symm.trans hmost)
  exact ⟨hw, hone, hmost, hdeals⟩

end InsertBench.Workload
