import InsertBench.Fault

/-! # Bytes of a word

Byte strings, and the little-endian form of a number: its digits to the base 256, least significant
first. A byte or a part that is read from outside a byte string is a fault.
-/
namespace InsertBench

abbrev Bytes := List UInt8

namespace Bytes

/-- The lowest bytes of a number, so many of them. -/
def little : Nat → Nat → Bytes
  | 0, _ => []
  | width + 1, n => (n % 256).toUInt8 :: little width (n / 256)

def value : Bytes → Nat
  | [] => 0
  | b :: rest => b.toNat + 256 * value rest

@[simp] theorem length_little (width n : Nat) : (little width n).length = width := by
  induction width generalizing n with
  | zero => rfl
  | succ width ih => simp [little, ih]

def ofWord (w : UInt64) : Bytes := little 8 w.toNat

def toWord (bytes : Bytes) : UInt64 := bytes.value.toUInt64

@[simp] theorem length_ofWord (w : UInt64) : (ofWord w).length = 8 := length_little 8 _

def byteAt (bytes : Bytes) (index : Nat) : Except Fault UInt8 :=
  match bytes[index]? with
  | some byte => .ok byte
  | none => .error (.indexOutside bytes.length index)

/-- The bytes from one place up to another, which is left out. -/
def slice (bytes : Bytes) (first last : Nat) : Except Fault Bytes :=
  if last < first then .error (.sliceBackwards first last)
  else if bytes.length < last then .error (.sliceEndsOutside last bytes.length)
  else .ok ((bytes.drop first).take (last - first))

def sliceFrom (bytes : Bytes) (first : Nat) : Except Fault Bytes :=
  if bytes.length < first then .error (.sliceStartsOutside first bytes.length)
  else .ok (bytes.drop first)

def wordAt (bytes : Bytes) (place : Nat) : Except Fault UInt64 :=
  toWord <$> bytes.slice (place * 8) (place * 8 + 8)

variable {bytes : Bytes} {first last : Nat}

theorem slice_eq (h : first ≤ last) (hlast : last ≤ bytes.length) :
    bytes.slice first last = .ok ((bytes.drop first).take (last - first)) := by
  rw [slice, if_neg (Nat.not_lt_of_le h), if_neg (Nat.not_lt_of_le hlast)]

theorem sliceFrom_eq (h : first ≤ bytes.length) : bytes.sliceFrom first = .ok (bytes.drop first) :=
  if_neg (Nat.not_lt_of_le h)

theorem wordAt_eq {place : Nat} (h : place * 8 + 8 ≤ bytes.length) :
    bytes.wordAt place = .ok (toWord ((bytes.drop (place * 8)).take 8)) := by
  rw [wordAt, slice_eq (Nat.le_add_right _ _) h, Nat.add_sub_cancel_left]
  rfl

end Bytes

end InsertBench
