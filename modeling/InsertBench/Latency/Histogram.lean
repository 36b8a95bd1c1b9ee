import InsertBench.Word.Checked
import InsertBench.Word.Saturating
import Std.Data.ExtTreeMap

/-! # Latency histograms

Counts of values in slots whose width grows with the value, so that each value is known to three
significant digits. Below 2048 every value has a slot of its own; above, the values that share their
upper eleven bits share a slot. Counts and their total saturate, but sums of counts on the way to a
quantile do not.
-/
namespace InsertBench

structure Histogram where
  /-- The counts of the slots that are not empty, by the least value of the slot. -/
  counts : Std.ExtTreeMap UInt64 UInt64
  total : UInt64

namespace Histogram

def empty : Histogram := ⟨{}, 0⟩

/-- How many low bits the values of a slot differ in. -/
def blur (value : UInt64) : UInt64 := (value.toNat.log2 - 10).toUInt64

def slotLeast (value : UInt64) : UInt64 := value >>> blur value <<< blur value

def slotGreatest (value : UInt64) : UInt64 := slotLeast value + (1 <<< blur value - 1)

/-- Values from here on have no slot. -/
def limit : UInt64 := 16777216

/-- What a value without a slot is taken for. -/
def ceiling : UInt64 := 10000000

def slotOf (value : UInt64) : UInt64 := slotLeast (if value < limit then value else ceiling)

def count (h : Histogram) (slot : UInt64) : UInt64 := h.counts[slot]?.getD 0

def addTo (h : Histogram) (slot n : UInt64) : Histogram :=
  if n = 0 then h
  else ⟨h.counts.insert slot (Word.addSaturating (h.count slot) n), Word.addSaturating h.total n⟩

def record (h : Histogram) (value n : UInt64) : Histogram := h.addTo (slotOf value) n

def merge (h other : Histogram) : Histogram :=
  other.counts.toList.foldl (fun h entry => h.addTo entry.1 entry.2) h

def position (slot : UInt64) : Nat := 1024 * (blur slot).toNat + (slot >>> blur slot).toNat

/-- Slots with their counts, eight neighbours in a group. -/
def groups (h : Histogram) : List (List (UInt64 × UInt64)) :=
  h.counts.toList.splitBy fun a b => position a.1 / 8 == position b.1 / 8

/-- The greatest value of the first slot at which so many values are reached. -/
def reach (target : Nat) : List (UInt64 × UInt64) → UInt64
  | [] => 0
  | (slot, n) :: rest => if target ≤ n.toNat then slotGreatest slot else reach (target - n.toNat) rest

/-- Passes over whole groups as long as fewer values are reached, from a number reached before. -/
def reachIn (target before : UInt64) : List (List (UInt64 × UInt64)) → Except Fault UInt64
  | [] => .ok 0
  | slots :: rest => do
    let reached ← Word.add before (← Word.sum (slots.map (·.2)))
    if target ≤ reached then return reach (target.toNat - before.toNat) slots
    else reachIn target reached rest

/-- The greatest value of the slot in which a given fraction of the values is reached, but at least one
of them. -/
def quantile (h : Histogram) (fraction : Float) : Except Fault UInt64 :=
  reachIn (max 1 (fraction * h.total.toFloat).ceil.toUInt64) 0 h.groups

theorem count_addTo (h : Histogram) (slot n s : UInt64) :
    (h.addTo slot n).count s = if slot = s then Word.addSaturating (h.count s) n else h.count s := by
  unfold addTo
  by_cases hn : n = 0
  · subst hn
    simp
  · rw [if_neg hn]
    simp only [count, Std.ExtTreeMap.getElem?_insert, Std.LawfulEqCmp.compare_eq_iff_eq]
    split
    · rename_i he
      simp [he]
    · rfl

theorem reachIn_ok {target before : UInt64} {groups : List (List (UInt64 × UInt64))}
    (h : before.toNat + Word.total (groups.flatten.map (·.2)) < UInt64.size) :
    ∃ value, reachIn target before groups = .ok value := by
  induction groups generalizing before with
  | nil => exact ⟨0, rfl⟩
  | cons slots rest ih =>
    rw [List.flatten_cons, List.map_append, Word.total_append] at h
    obtain ⟨here, hh, hn⟩ := @Word.sum_ok (slots.map (·.2)) (by omega)
    have hlt : before.toNat + here.toNat < UInt64.size := by omega
    have ha : Word.add before here = .ok (before + here) := if_pos hlt
    rw [reachIn, hh]
    simp only [bind, Except.bind, ha]
    split
    · exact ⟨_, rfl⟩
    · refine ih ?_
      rw [UInt64.toNat_add, Nat.mod_eq_of_lt hlt]
      omega

end Histogram

end InsertBench
