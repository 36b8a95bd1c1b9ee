import Mathlib.Algebra.Order.Ring.Nat
import InsertBench.Latency.Histogram

/-! # Slots of latencies

A slot is known by its least value, which has as many binary digits as all others in the slot. Whatever the
value, it is counted in a slot of its own or, beyond all slots, in that of the ceiling; so a slot that is
counted in ends below the limit.
-/
namespace InsertBench.Histogram

theorem log2_lt_of_lt {n digits : Nat} (hd : 0 < digits) (h : n < 2 ^ digits) : n.log2 < digits := by
  rcases Nat.eq_zero_or_pos n with rfl | hpos
  · exact hd
  · exact (Nat.log2_lt hpos.ne').mpr h

theorem toNat_blur (value : UInt64) : (blur value).toNat = value.toNat.log2 - 10 := by
  have hlog : value.toNat.log2 < 64 := log2_lt_of_lt (by decide) value.toNat_lt
  exact UInt64.toNat_ofNat_of_lt' (by rw [UInt64.size]; omega)

theorem toNat_blur_lt (value : UInt64) : (blur value).toNat < 64 := by
  have hlog : value.toNat.log2 < 64 := log2_lt_of_lt (by decide) value.toNat_lt
  rw [toNat_blur]
  omega

theorem toNat_slotLeast (value : UInt64) :
    (slotLeast value).toNat = value.toNat / 2 ^ (blur value).toNat * 2 ^ (blur value).toNat := by
  have hle := Nat.div_mul_le_self value.toNat (2 ^ (blur value).toNat)
  rw [slotLeast, UInt64.toNat_shiftLeft, UInt64.toNat_shiftRight, Nat.mod_eq_of_lt (toNat_blur_lt value),
    Nat.shiftRight_eq_div_pow, Nat.shiftLeft_eq, Nat.mod_eq_of_lt (hle.trans_lt value.toNat_lt)]

theorem slotLeast_le (value : UInt64) : (slotLeast value).toNat ≤ value.toNat := by
  rw [toNat_slotLeast]
  exact Nat.div_mul_le_self ..

theorem log2_slotLeast (value : UInt64) : (slotLeast value).toNat.log2 = value.toNat.log2 := by
  rcases Nat.eq_zero_or_pos value.toNat with hzero | hpos
  · obtain rfl : value = 0 := UInt64.toNat_inj.mp hzero
    rfl
  · have hfirst := Nat.log2_self_le hpos.ne'
    have hdigits : 2 ^ value.toNat.log2 ≤ (slotLeast value).toNat := by
      have hsplit : 2 ^ value.toNat.log2 =
          2 ^ (value.toNat.log2 - (blur value).toNat) * 2 ^ (blur value).toNat := by
        rw [← Nat.pow_add, toNat_blur]
        congr 1
        omega
      rw [hsplit, toNat_slotLeast]
      rw [hsplit] at hfirst
      exact Nat.mul_le_mul_right _ ((Nat.le_div_iff_mul_le (Nat.two_pow_pos _)).mpr hfirst)
    have hsmall := slotLeast_le value
    have hlast := @Nat.lt_log2_self value.toNat
    exact (Nat.log2_eq_iff (by have := Nat.two_pow_pos value.toNat.log2; omega)).mpr
      ⟨hdigits, hsmall.trans_lt hlast⟩

theorem blur_slotLeast (value : UInt64) : blur (slotLeast value) = blur value := by
  rw [blur, log2_slotLeast, ← blur]

@[simp] theorem slotLeast_slotLeast (value : UInt64) : slotLeast (slotLeast value) = slotLeast value := by
  rw [← UInt64.toNat_inj, toNat_slotLeast (slotLeast value), blur_slotLeast, toNat_slotLeast,
    Nat.mul_div_cancel _ (Nat.two_pow_pos _)]

/-- The least value of a slot, whose greatest value lies below the limit as well. -/
structure IsSlot (slot : UInt64) : Prop where
  least : slotOf slot = slot
  inRange : slotGreatest slot < limit

theorem slotLeast_add_le {value : UInt64} (h : value < limit) :
    (slotLeast value).toNat + 2 ^ (blur value).toNat ≤ 2 ^ 24 ∧ (blur value).toNat < 24 := by
  have hvalue : value.toNat < 2 ^ 24 := UInt64.lt_iff_toNat_lt.mp h
  have hlog : value.toNat.log2 < 24 := log2_lt_of_lt (by decide) hvalue
  have hblur : (blur value).toNat < 24 := by
    rw [toNat_blur]
    omega
  rw [toNat_slotLeast]
  generalize (blur value).toNat = digits at *
  refine ⟨?_, hblur⟩
  have hsplit : 2 ^ 24 = 2 ^ (24 - digits) * 2 ^ digits := by
    rw [← Nat.pow_add, Nat.sub_add_cancel hblur.le]
  have hquotient : value.toNat / 2 ^ digits < 2 ^ (24 - digits) := by
    rw [Nat.div_lt_iff_lt_mul (Nat.two_pow_pos _), ← hsplit]
    exact hvalue
  calc value.toNat / 2 ^ digits * 2 ^ digits + 2 ^ digits
      = (value.toNat / 2 ^ digits + 1) * 2 ^ digits := (Nat.succ_mul ..).symm
    _ ≤ 2 ^ (24 - digits) * 2 ^ digits := Nat.mul_le_mul_right _ hquotient
    _ = 2 ^ 24 := hsplit.symm

theorem isSlot_slotLeast {value : UInt64} (h : value < limit) : IsSlot (slotLeast value) where
  least := by
    have hsmall : slotLeast value < limit :=
      UInt64.lt_iff_toNat_lt.mpr ((slotLeast_le value).trans_lt (UInt64.lt_iff_toNat_lt.mp h))
    rw [slotOf, if_pos hsmall, slotLeast_slotLeast]
  inRange := by
    obtain ⟨hend, hblur⟩ := slotLeast_add_le h
    have hpos := Nat.two_pow_pos (blur value).toNat
    have hwidth : ((1 : UInt64) <<< blur value).toNat = 2 ^ (blur value).toNat := by
      rw [UInt64.toNat_shiftLeft, Nat.mod_eq_of_lt (toNat_blur_lt value), Nat.shiftLeft_eq, UInt64.toNat_one,
        Nat.one_mul, Nat.mod_eq_of_lt (by omega)]
    have hrest : ((1 : UInt64) <<< blur value - 1).toNat = 2 ^ (blur value).toNat - 1 := by
      rw [UInt64.toNat_sub_of_le _ _ (UInt64.le_iff_toNat_le.mpr (by rw [hwidth]; exact hpos)), hwidth]
      rfl
    have hlimit : limit.toNat = 2 ^ 24 := rfl
    rw [slotGreatest, blur_slotLeast, slotLeast_slotLeast, UInt64.lt_iff_toNat_lt, UInt64.toNat_add, hrest,
      hlimit, Nat.mod_eq_of_lt (by omega)]
    omega

theorem isSlot_slotOf (value : UInt64) : IsSlot (slotOf value) := by
  unfold slotOf
  split
  · rename_i h
    exact isSlot_slotLeast h
  · exact isSlot_slotLeast (by decide)

end InsertBench.Histogram
