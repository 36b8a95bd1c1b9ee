import InsertBench.Proofs.Commit.LastWins
import InsertBench.Proofs.Row.Layout
import Mathlib.Algebra.Group.Int.Defs
import Mathlib.Data.Set.Function

/-! # Keys in the order of their bytes

Read most significant byte first, the bytes of a key are the key raised by 2^63. So the order of the bytes
is the order of the keys, any eight bytes are those of one key, and whoever goes through a table by the
bytes of its keys meets the keys in ascending order.
-/
namespace InsertBench

namespace Bytes

variable {bytes other : Bytes}

theorem value_append (bytes rest : Bytes) :
    value (bytes ++ rest) = value bytes + 256 ^ bytes.length * value rest := by
  induction bytes with
  | nil => simp [value]
  | cons b bytes ih =>
    rw [List.cons_append, value, value, ih, List.length_cons, Nat.pow_succ', Nat.mul_add, Nat.mul_assoc,
      Nat.add_assoc]

theorem value_reverse_cons (b : UInt8) (bytes : Bytes) :
    value (b :: bytes).reverse = value bytes.reverse + 256 ^ bytes.length * b.toNat := by
  rw [List.reverse_cons, value_append, List.length_reverse]
  simp [value]

theorem value_reverse_lt (bytes : Bytes) : value bytes.reverse < 256 ^ bytes.length := by
  have h := value_lt bytes.reverse
  rwa [List.length_reverse] at h

/-- Byte order is the order of the numbers that are written most significant byte first. -/
theorem lt_iff_value_reverse_lt (h : bytes.length = other.length) :
    bytes < other ↔ value bytes.reverse < value other.reverse := by
  induction bytes generalizing other with
  | nil =>
    obtain rfl := List.length_eq_zero_iff.mp h.symm
    simp
  | cons b bytes ih =>
    cases other with
    | nil => cases h
    | cons c other =>
      rw [List.length_cons, List.length_cons, Nat.add_right_cancel_iff] at h
      have hbytes := value_reverse_lt bytes
      have hother := value_reverse_lt other
      rw [List.cons_lt_cons_iff, ih h, value_reverse_cons, value_reverse_cons, UInt8.lt_iff_toNat_lt,
        ← UInt8.toNat_inj]
      rw [← h] at hother ⊢
      generalize 256 ^ bytes.length = place at *
      -- the first byte decides, unless it is the same: the others make up less than one of its steps
      rcases Nat.lt_trichotomy b.toNat c.toNat with hlt | heq | hgt
      · have hstep := Nat.mul_le_mul_left place (Nat.succ_le_of_lt hlt)
        rw [Nat.mul_succ] at hstep
        omega
      · rw [heq]
        omega
      · have hstep := Nat.mul_le_mul_left place (Nat.succ_le_of_lt hgt)
        rw [Nat.mul_succ] at hstep
        omega

/-- Maps from byte strings are ordered by byte order. -/
theorem compare_eq_lt_iff : compare bytes other = .lt ↔ bytes < other := by
  induction bytes generalizing other with
  | nil =>
    cases other with
    | nil => simp
    | cons c other => simp [List.compare_nil_cons]
  | cons b bytes ih =>
    cases other with
    | nil => simp [List.compare_cons_nil]
    | cons c other =>
      rw [List.compare_cons_cons, Ordering.then_eq_lt, ih, List.cons_lt_cons_iff, Std.compare_eq_lt,
        Std.compare_eq_eq_iff_eq]

end Bytes

/-- A word with its highest bit flipped is the signed reading of the word, raised by half of all words. -/
theorem toNat_xor_signBit (word : UInt64) :
    ((word ^^^ 0x8000000000000000).toNat : Int) = word.toInt64.toInt + 2 ^ 63 := by
  have hlt := word.toNat_lt
  have hsigned : word.toInt64.toInt = if 2 * word.toNat < 2 ^ 64 then (word.toNat : Int)
      else (word.toNat : Int) - (2 ^ 64 : Nat) := BitVec.toInt_eq_toNat_cond word.toBitVec
  have hhigh : (word.toNat ^^^ 2 ^ 63) / 2 ^ 63 = word.toNat / 2 ^ 63 ^^^ 1 := Nat.xor_div_two_pow
  have hlow : (word.toNat ^^^ 2 ^ 63) % 2 ^ 63 = word.toNat % 2 ^ 63 ^^^ 0 := Nat.xor_mod_two_pow
  rw [Nat.xor_zero] at hlow
  have hflip : (word ^^^ 0x8000000000000000).toNat = word.toNat ^^^ 2 ^ 63 := UInt64.toNat_xor ..
  rw [hflip, hsigned]
  rcases (by omega : word.toNat / 2 ^ 63 = 0 ∨ word.toNat / 2 ^ 63 = 1) with hbit | hbit
  · rw [hbit, Nat.zero_xor] at hhigh
    omega
  · rw [hbit, Nat.xor_self] at hhigh
    omega

variable {key other : Int64} {bytes : Bytes}

theorem value_reverse_keyBytes (key : Int64) :
    (Bytes.value (keyBytes key).reverse : Int) = key.toInt + 2 ^ 63 := by
  have hvalue : Bytes.value (keyBytes key).reverse = (key.toUInt64 ^^^ 0x8000000000000000).toNat := by
    rw [keyBytes, List.reverse_reverse, Bytes.ofWord, Bytes.value_little]
    exact Nat.mod_eq_of_lt (UInt64.toNat_lt _)
  rw [hvalue, toNat_xor_signBit]
  rfl

theorem keyBytes_lt_iff : keyBytes key < keyBytes other ↔ key < other := by
  have hkey := value_reverse_keyBytes key
  have hother := value_reverse_keyBytes other
  rw [Bytes.lt_iff_value_reverse_lt (by rw [length_keyBytes, length_keyBytes]), Int64.lt_iff_toInt_lt]
  omega

/-- The key that eight bytes belong to. -/
def keyOf (bytes : Bytes) : Int64 := (Bytes.toWord bytes.reverse ^^^ 0x8000000000000000).toInt64

theorem keyOf_keyBytes (key : Int64) : keyOf (keyBytes key) = key := by
  rw [keyOf, keyBytes, List.reverse_reverse, Bytes.toWord_ofWord, UInt64.xor_assoc, UInt64.xor_self,
    UInt64.xor_zero]
  exact Int64.toInt64_toUInt64 key

theorem keyBytes_keyOf (h : bytes.length = 8) : keyBytes (keyOf bytes) = bytes := by
  rw [keyBytes, keyOf, UInt64.toUInt64_toInt64, UInt64.xor_assoc, UInt64.xor_self, UInt64.xor_zero,
    Bytes.ofWord_toWord (by rwa [List.length_reverse]), List.reverse_reverse]

theorem bijOn_keyBytes : Set.BijOn keyBytes Set.univ {bytes | bytes.length = 8} :=
  ⟨fun key _ => length_keyBytes key, keyBytes_injective.injOn,
    fun bytes h => ⟨keyOf bytes, Set.mem_univ _, keyBytes_keyOf h⟩⟩

theorem pairwise_keyBytes_iff {keys : List Int64} :
    (keys.map keyBytes).Pairwise (· < ·) ↔ keys.Pairwise (· < ·) := by
  rw [List.pairwise_map]
  simp only [keyBytes_lt_iff]

namespace Buffered

variable {s : Buffered} {table : String} {l : Ledger} {calls : List Call}

/-- The keys of a table, as one meets them who goes through it by their bytes. -/
def keysMet (s : Buffered) (table : String) : List Int64 := (s.rows table).keys.map keyOf

/-- Going through a table by bytes, one reads every key back and meets it in its place. -/
structure InKeyOrder (s : Buffered) (table : String) : Prop where
  bytes : (keysMet s table).map keyBytes = (s.rows table).keys
  ascending : (keysMet s table).Pairwise (· < ·)
  stored (key : Int64) : key ∈ keysMet s table ↔ (view.value s table key).isSome

theorem Accounts.inKeyOrder (h : Accounts l s) (table : String) : InKeyOrder s table := by
  have hbytes : (keysMet s table).map keyBytes = (s.rows table).keys := by
    rw [keysMet, List.map_map]
    refine (List.map_congr_left fun bytes hmem => ?_).trans (List.map_id _)
    obtain ⟨key, rfl⟩ := h.bytes (Std.ExtTreeMap.mem_keys.mp hmem)
    exact congrArg keyBytes (keyOf_keyBytes key)
  refine ⟨hbytes, ?_, fun key => ?_⟩
  · rw [← pairwise_keyBytes_iff, hbytes]
    exact Std.ExtTreeMap.ordered_keys.imp Bytes.compare_eq_lt_iff.mp
  · rw [← List.mem_map_of_injective keyBytes_injective, hbytes, Std.ExtTreeMap.mem_keys]
    exact Std.ExtTreeMap.mem_iff_isSome_getElem?

/-- Keys are kept by their bytes in their own order, and none is lost among them. -/
theorem keyBytes_embeds :
    (∀ key other : Int64, key < other ↔ keyBytes key < keyBytes other) ∧ Function.Injective keyBytes ∧
      Set.BijOn keyBytes Set.univ {bytes | bytes.length = 8} ∧ (∀ key, keyOf (keyBytes key) = key) ∧
        ∀ calls s, store.Takes .empty calls s → ∀ table, InKeyOrder s table := by
  refine ⟨fun key other => keyBytes_lt_iff.symm, keyBytes_injective, bijOn_keyBytes, keyOf_keyBytes, ?_⟩
  intro calls s htakes table
  obtain ⟨haccounts, _⟩ := traced_of_takes htakes
  exact haccounts.inKeyOrder table

/-- Three rows are committed, of which the one with a negative key comes last. -/
def committingThree : List Call :=
  [⟨0, .openSession "t", .ok .accepted⟩, ⟨0, .beginTxn, .ok .accepted⟩, ⟨0, .insert 256 [1], .ok .accepted⟩,
    ⟨0, .insert 0 [2], .ok .accepted⟩, ⟨0, .insert (-1) [3], .ok .accepted⟩, ⟨0, .commit, .ok .accepted⟩]

theorem keyBytes_embeds_three : ∃ s, store.Takes .empty committingThree s ∧ InKeyOrder s "t" ∧
    keysMet s "t" = [-1, 0, 256] := by
  have htakes : store.Takes .empty committingThree _ :=
    .call (.call (.call (.call (.call (.call .start rfl) rfl) rfl) rfl) rfl) rfl
  exact ⟨_, htakes, keyBytes_embeds.2.2.2.2 _ _ htakes "t", rfl⟩

end Buffered

end InsertBench
