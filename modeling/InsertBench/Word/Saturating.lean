/-! # Saturating sums of words -/
namespace InsertBench.Word

def greatest : UInt64 := 0xffffffffffffffff

/-- The sum, or the greatest word where there is none. -/
def addSaturating (a b : UInt64) : UInt64 := if a.toNat + b.toNat < UInt64.size then a + b else greatest

theorem toNat_addSaturating (a b : UInt64) :
    (addSaturating a b).toNat = min (a.toNat + b.toNat) (UInt64.size - 1) := by
  unfold addSaturating
  split
  · rename_i h
    rw [UInt64.toNat_add, Nat.mod_eq_of_lt h]
    omega
  · rename_i h
    have : greatest.toNat = UInt64.size - 1 := by decide
    omega

@[simp] theorem addSaturating_zero (a : UInt64) : addSaturating a 0 = a := by
  rw [addSaturating, UInt64.toNat_zero, Nat.add_zero, if_pos a.toNat_lt_size, UInt64.add_zero]

end InsertBench.Word
