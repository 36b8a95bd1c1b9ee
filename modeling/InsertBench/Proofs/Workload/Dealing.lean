import Mathlib.Data.List.Nodup
import Mathlib.Data.List.Perm.Basic
import Mathlib.Tactic.Ring
import InsertBench.Workload.Basic
import InsertBench.Proofs.Workload.Positions

/-! # How keys are dealt

An accepted workload deals its keys in whole rounds. Every key below the number of rows that are
inserted is dealt to exactly one thread, in one round and at one offset, and no word on the way to it
overflows.
-/
namespace InsertBench

theorem nodup_map_range {α : Type} {n : Nat} {f : Nat → α}
    (hinj : ∀ i < n, ∀ j < n, f i = f j → i = j) : ((List.range n).map f).Nodup := by
  apply (List.nodup_map_iff_inj_on List.nodup_range).mpr
  intro i hi j hj he
  exact hinj i (List.mem_range.mp hi) j (List.mem_range.mp hj) he

theorem nodup_flatMap_range {α : Type} {n : Nat} {f : Nat → List α} (heach : ∀ i < n, (f i).Nodup)
    (hapart : ∀ i < n, ∀ j < n, ∀ a ∈ f i, a ∈ f j → i = j) : ((List.range n).flatMap f).Nodup := by
  apply List.nodup_flatMap.mpr
  constructor
  · intro i hi
    exact heach i (List.mem_range.mp hi)
  · apply List.nodup_range.pairwise_of_forall_ne
    intro i hi j hj hne a ha ha'
    exact hne (hapart i (List.mem_range.mp hi) j (List.mem_range.mp hj) a ha ha')

namespace Workload

/-- The workload is one that `plan` accepts, up to what may be chosen afterwards. -/
def Accepted (w : Workload) : Prop :=
  plan w.totalRows w.rowsPerTxn w.threads w.sessionStart =
    .ok { w with twoPhase := false, retry := .unbounded }

instance (w : Workload) : Decidable w.Accepted := inferInstanceAs (Decidable (_ = _))

variable (w : Workload)

def width : Nat := w.rowsPerTxn.toNat
def crewSize : Nat := w.threads.toNat
def roundCount : Nat := w.totalRows.toNat / w.width / w.crewSize

def rowTotal : Nat := w.roundCount * w.crewSize * w.width

/-- The place of an offset of a thread's slice of a round in the order of dealing. -/
def position (thread round offset : Nat) : Nat := (round * w.crewSize + thread) * w.width + offset

def keyAt (thread round offset : Nat) : Int64 := Int64.ofNat (w.position thread round offset)

/-- The keys of a batch, in the order in which it inserts them. -/
def batchKeys (thread round : Nat) : List Int64 := (List.range w.width).map (w.keyAt thread round)

variable {w}

theorem Accepted.sizes (h : w.Accepted) :
    0 < w.width ∧ 0 < w.crewSize ∧ w.totalRows.toNat < 2 ^ 63 ∧ 0 < w.roundCount := by
  simp only [Accepted, plan, bind, Except.bind, pure, Except.pure, throw, throwThe, MonadExceptOf.throw] at h
  split at h <;> [cases h; skip]
  split at h <;> [cases h; rename_i hwidth]
  split at h <;> [cases h; rename_i hcrew]
  split at h <;> [cases h; rename_i hmost]
  simp only [rounds, Word.div_eq_ok hwidth, Word.div_eq_ok hcrew, bind, Except.bind, Stop.lift] at h
  split at h <;> [cases h; rename_i hround]
  simp only [width, crewSize, roundCount]
  rw [← UInt64.toNat_inj, UInt64.toNat_zero] at hwidth hcrew hround
  rw [UInt64.toNat_div, UInt64.toNat_div] at hround
  simp only [UInt64.lt_iff_toNat_lt, not_lt, UInt64.reduceToNat] at hmost
  exact ⟨Nat.pos_of_ne_zero hwidth, Nat.pos_of_ne_zero hcrew, by omega, Nat.pos_of_ne_zero hround⟩

theorem rowTotal_le (w : Workload) : w.rowTotal ≤ w.totalRows.toNat := by
  have hrounds : w.roundCount * w.crewSize ≤ w.totalRows.toNat / w.width := Nat.div_mul_le_self _ _
  exact (Nat.mul_le_mul_right _ hrounds).trans (Nat.div_mul_le_self _ _)

theorem Accepted.rowTotal_lt (h : w.Accepted) : w.rowTotal < 2 ^ 63 := by
  obtain ⟨_, _, hmost, _⟩ := h.sizes
  have hrows := w.rowTotal_le
  omega

theorem position_lt {thread round offset : Nat} (ht : thread < w.crewSize) (hr : round < w.roundCount)
    (ho : offset < w.width) : w.position thread round offset < w.rowTotal := by
  have hslice : round * w.crewSize + thread + 1 ≤ w.roundCount * w.crewSize := by
    have := Nat.mul_le_mul_right w.crewSize hr
    rw [Nat.succ_mul] at this
    omega
  have := Nat.mul_le_mul_right w.width hslice
  rw [Nat.succ_mul] at this
  unfold position rowTotal
  omega

theorem position_inj {thread round offset thread' round' offset' : Nat} (ht : thread < w.crewSize)
    (ht' : thread' < w.crewSize) (ho : offset < w.width) (ho' : offset' < w.width)
    (h : w.position thread round offset = w.position thread' round' offset') :
    thread = thread' ∧ round = round' ∧ offset = offset' := by
  obtain ⟨hslice, hoffset⟩ := digits_inj ho ho' h
  obtain ⟨hround, hthread⟩ := digits_inj ht ht' hslice
  exact ⟨hthread, hround, hoffset⟩

theorem exists_position {n : Nat} (h : n < w.rowTotal) :
    ∃ thread < w.crewSize, ∃ round < w.roundCount, ∃ offset < w.width,
      w.position thread round offset = n := by
  have hpos : 0 < w.roundCount * w.crewSize * w.width := Nat.zero_lt_of_lt h
  have hwidth : 0 < w.width := Nat.pos_of_mul_pos_left hpos
  have hcrew : 0 < w.crewSize := Nat.pos_of_mul_pos_left (Nat.pos_of_mul_pos_right hpos)
  have hslice : n / w.width < w.roundCount * w.crewSize := Nat.div_lt_of_lt_mul (by rwa [Nat.mul_comm])
  refine ⟨n / w.width % w.crewSize, Nat.mod_lt _ hcrew, n / w.width / w.crewSize,
    Nat.div_lt_of_lt_mul (by rwa [Nat.mul_comm]), n % w.width, Nat.mod_lt _ hwidth, ?_⟩
  rw [position, Nat.div_add_mod', Nat.div_add_mod']

theorem keyAt_inj (h : w.Accepted) {thread round offset thread' round' offset' : Nat}
    (ht : thread < w.crewSize) (ht' : thread' < w.crewSize) (hr : round < w.roundCount)
    (hr' : round' < w.roundCount) (ho : offset < w.width) (ho' : offset' < w.width)
    (he : w.keyAt thread round offset = w.keyAt thread' round' offset') :
    thread = thread' ∧ round = round' ∧ offset = offset' := by
  have hmost := h.rowTotal_lt
  have hlt := position_lt ht hr ho
  have hlt' := position_lt ht' hr' ho'
  apply position_inj ht ht' ho ho'
  have := congrArg Int64.toInt he
  rw [keyAt, keyAt, Int64.toInt_ofNat_of_lt (by omega), Int64.toInt_ofNat_of_lt (by omega)] at this
  omega

theorem roundCount_lt (w : Workload) : w.roundCount < UInt64.size :=
  (Nat.div_le_self _ _).trans_lt ((Nat.div_le_self _ _).trans_lt w.totalRows.toNat_lt_size)

theorem Accepted.rounds_eq (h : w.Accepted) : w.rounds = .ok w.roundCount.toUInt64 := by
  obtain ⟨hwidth, hcrew, _, _⟩ := h.sizes
  have hwidth : w.rowsPerTxn ≠ 0 := fun he => by simp [width, he] at hwidth
  have hcrew : w.threads ≠ 0 := fun he => by simp [crewSize, he] at hcrew
  simp only [rounds, Word.div_eq_ok hwidth, Word.div_eq_ok hcrew, bind, Except.bind, Except.ok.injEq]
  rw [← UInt64.toNat_inj, UInt64.toNat_div, UInt64.toNat_div, Word.toNat_toUInt64]
  · rfl
  · exact w.roundCount_lt

theorem position_partition (w : Workload) (thread round offset : UInt64) :
    w.partition.position thread round offset = w.position thread.toNat round.toNat offset.toNat := by
  rw [position, Nat.add_mul]
  rfl

/-- A key is dealt to a place that is inside, if the exact position has a word. -/
theorem key_eq_ok_iff {thread round offset : UInt64} {key : Int64} :
    w.partition.key thread round offset = .ok key ↔ thread < w.threads ∧ offset < w.rowsPerTxn ∧
      w.position thread.toNat round.toNat offset.toNat < UInt64.size ∧
      key = w.keyAt thread.toNat round.toNat offset.toNat := by
  rw [Partition.key_eq_ok_iff, position_partition]
  rfl

theorem Accepted.key_eq (h : w.Accepted) {thread round offset : Nat} (ht : thread < w.crewSize)
    (hr : round < w.roundCount) (ho : offset < w.width) :
    w.partition.key thread.toUInt64 round.toUInt64 offset.toUInt64 =
      .ok (w.keyAt thread round offset) := by
  have hmost := h.rowTotal_lt
  have hposition := position_lt ht hr ho
  have hsize : UInt64.size = 2 ^ 64 := rfl
  have hthread : thread.toUInt64.toNat = thread := Word.toNat_toUInt64 (ht.trans w.threads.toNat_lt_size)
  have hround : round.toUInt64.toNat = round := Word.toNat_toUInt64 (hr.trans w.roundCount_lt)
  have hoffset : offset.toUInt64.toNat = offset := Word.toNat_toUInt64 (ho.trans w.rowsPerTxn.toNat_lt_size)
  rw [key_eq_ok_iff, UInt64.lt_iff_toNat_lt, UInt64.lt_iff_toNat_lt, hthread, hround, hoffset]
  exact ⟨ht, ho, by omega, rfl⟩

theorem mem_batchKeys {thread round : Nat} {key : Int64} :
    key ∈ w.batchKeys thread round ↔ ∃ offset < w.width, w.keyAt thread round offset = key := by
  simp [batchKeys]

theorem Accepted.effectiveRows_eq (h : w.Accepted) : w.effectiveRows = .ok w.rowTotal.toUInt64 := by
  have hmost := h.rowTotal_lt
  have hsize : UInt64.size = 2 ^ 64 := rfl
  have htotal : w.roundCount * w.width * w.crewSize = w.rowTotal := by rw [rowTotal, Nat.mul_right_comm]
  have hpart : w.roundCount * w.width < UInt64.size :=
    (Nat.le_mul_of_pos_right _ h.sizes.2.1).trans_lt (by omega)
  have hpartWord : Word.mul w.roundCount.toUInt64 w.rowsPerTxn = .ok (w.roundCount * w.width).toUInt64 :=
    Word.mul_toUInt64 (by rw [Word.toNat_toUInt64 w.roundCount_lt]; rfl) hpart
  have htotalWord : Word.mul (w.roundCount * w.width).toUInt64 w.threads = .ok w.rowTotal.toUInt64 :=
    Word.mul_toUInt64 (by rw [Word.toNat_toUInt64 hpart]; exact htotal) (by omega)
  simp only [effectiveRows, h.rounds_eq, hpartWord, htotalWord, bind, Except.bind]

/-- The keys of some first batches of each thread. -/
def firstKeys (w : Workload) (batches : Nat → Nat) : List Int64 :=
  (List.range w.crewSize).flatMap fun thread => (List.range (batches thread)).flatMap (w.batchKeys thread)

theorem mem_firstKeys {batches : Nat → Nat} {key : Int64} :
    key ∈ w.firstKeys batches ↔ ∃ thread < w.crewSize, ∃ round < batches thread, ∃ offset < w.width,
      w.keyAt thread round offset = key := by
  simp [firstKeys, mem_batchKeys]

theorem firstKeys_congr {batches batches' : Nat → Nat}
    (h : ∀ thread < w.crewSize, batches thread = batches' thread) :
    w.firstKeys batches = w.firstKeys batches' :=
  List.flatMap_congr fun thread ht => by rw [h thread (List.mem_range.mp ht)]

theorem Accepted.nodup_firstKeys (h : w.Accepted) {batches : Nat → Nat}
    (hb : ∀ thread < w.crewSize, batches thread ≤ w.roundCount) : (w.firstKeys batches).Nodup := by
  apply nodup_flatMap_range
  · intro thread ht
    apply nodup_flatMap_range
    · intro round hr
      have hr := hr.trans_le (hb thread ht)
      apply nodup_map_range
      intro o ho o' ho' he
      exact (keyAt_inj h ht ht hr hr ho ho' he).2.2
    · intro round hr round' hr' key hkey hkey'
      obtain ⟨o, ho, rfl⟩ := mem_batchKeys.mp hkey
      obtain ⟨o', ho', he⟩ := mem_batchKeys.mp hkey'
      exact (keyAt_inj h ht ht (hr'.trans_le (hb thread ht)) (hr.trans_le (hb thread ht)) ho' ho he).2.1.symm
  · intro thread ht thread' ht' key hkey hkey'
    obtain ⟨round, hr, hkey⟩ := List.mem_flatMap.mp hkey
    obtain ⟨round', hr', hkey'⟩ := List.mem_flatMap.mp hkey'
    rw [List.mem_range] at hr hr'
    obtain ⟨o, ho, rfl⟩ := mem_batchKeys.mp hkey
    obtain ⟨o', ho', he⟩ := mem_batchKeys.mp hkey'
    exact (keyAt_inj h ht' ht (hr'.trans_le (hb thread' ht')) (hr.trans_le (hb thread ht)) ho' ho he).1.symm

theorem Accepted.nodup_keysBelow (h : w.Accepted) : ((List.range w.rowTotal).map Int64.ofNat).Nodup := by
  have hmost := h.rowTotal_lt
  apply nodup_map_range
  intro m hm n hn he
  have := congrArg Int64.toInt he
  rw [Int64.toInt_ofNat_of_lt (by omega), Int64.toInt_ofNat_of_lt (by omega)] at this
  omega

theorem mem_keysBelow {n : Nat} (hn : n ≤ 2 ^ 63) {key : Int64} :
    key ∈ (List.range n).map Int64.ofNat ↔ 0 ≤ key.toInt ∧ key.toInt < n := by
  rw [List.mem_map]
  constructor
  · rintro ⟨m, hm, rfl⟩
    rw [List.mem_range] at hm
    rw [Int64.toInt_ofNat_of_lt (by omega)]
    omega
  · rintro ⟨hleast, hlt⟩
    obtain ⟨m, hm⟩ := Int.eq_ofNat_of_zero_le hleast
    refine ⟨m, List.mem_range.mpr (by omega), ?_⟩
    rw [← Int64.ofInt_eq_ofNat, ← hm, Int64.ofInt_toInt]

/-- All batches together are dealt every key below the number of rows, once. -/
theorem Accepted.perm_firstKeys (h : w.Accepted) :
    (w.firstKeys fun _ => w.roundCount).Perm ((List.range w.rowTotal).map Int64.ofNat) := by
  refine (List.perm_ext_iff_of_nodup (h.nodup_firstKeys fun _ _ => Nat.le_refl _) h.nodup_keysBelow).mpr
    fun key => ?_
  rw [mem_firstKeys, List.mem_map]
  constructor
  · rintro ⟨thread, ht, round, hr, offset, ho, rfl⟩
    exact ⟨_, List.mem_range.mpr (position_lt ht hr ho), rfl⟩
  · rintro ⟨n, hn, rfl⟩
    obtain ⟨thread, ht, round, hr, offset, ho, rfl⟩ := exists_position (List.mem_range.mp hn)
    exact ⟨thread, ht, round, hr, offset, ho, rfl⟩

/-- The keys of a thread ascend round by round, and in each round offset by offset. -/
theorem Accepted.keyAt_le (h : w.Accepted) {thread round offset round' offset' : Nat}
    (ht : thread < w.crewSize) (hr' : round' < w.roundCount) (ho : offset < w.width) (ho' : offset' < w.width)
    (hle : round < round' ∨ round = round' ∧ offset ≤ offset') :
    w.keyAt thread round offset ≤ w.keyAt thread round' offset' := by
  have hposition : w.position thread round offset ≤ w.position thread round' offset' := by
    rcases hle with hlt | ⟨rfl, hle⟩
    · have hslice : round * w.crewSize + thread + 1 ≤ round' * w.crewSize + thread := by
        have hrounds := Nat.mul_le_mul_right w.crewSize hlt
        rw [Nat.succ_mul] at hrounds
        omega
      have hrows := Nat.mul_le_mul_right w.width hslice
      rw [Nat.succ_mul] at hrows
      unfold position
      omega
    · exact Nat.add_le_add_left hle _
  have hmost := h.rowTotal_lt
  have hlt := position_lt ht hr' ho'
  rw [Int64.le_iff_toInt_le, keyAt, keyAt, Int64.toInt_ofNat_of_lt (by omega),
    Int64.toInt_ofNat_of_lt (by omega)]
  omega

end Workload

end InsertBench
