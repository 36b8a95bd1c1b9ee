import Mathlib.Algebra.Group.Nat.Defs
import InsertBench.Bytes

/-! # Reading bytes back

Little-endian forms and values are inverse to each other: `value_little` reads a form back, and
`little_value` writes a value again.
-/
namespace InsertBench.Bytes

theorem value_little (width n : Nat) : value (little width n) = n % 256 ^ width := by
  induction width generalizing n with
  | zero => simp [little, value, Nat.mod_one]
  | succ width ih =>
    have h : (n % 256).toUInt8.toNat = n % 256 :=
      UInt8.toNat_ofNat_of_lt' (Nat.mod_lt n (by decide))
    rw [little, value, ih, h, Nat.pow_succ', Nat.mod_mul]

theorem little_value (bytes : Bytes) : little bytes.length (value bytes) = bytes := by
  induction bytes with
  | nil => rfl
  | cons b rest ih =>
    have h := b.toNat_lt
    rw [List.length_cons, little, value, Nat.add_mul_mod_self_left, Nat.mod_eq_of_lt h,
      Nat.add_mul_div_left _ _ (by decide), Nat.div_eq_of_lt h, Nat.zero_add, ih]
    simp

@[simp] theorem toWord_ofWord (w : UInt64) : toWord (ofWord w) = w := by
  have h : w.toNat < 256 ^ 8 := w.toNat_lt
  rw [toWord, ofWord, value_little, Nat.mod_eq_of_lt h]
  exact UInt64.ofNat_toNat

end InsertBench.Bytes
