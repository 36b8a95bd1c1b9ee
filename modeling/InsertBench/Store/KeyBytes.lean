import InsertBench.Bytes

/-! # Keys as bytes

Signed keys as byte strings whose byte order is the order of the keys.
-/
namespace InsertBench

/-- Most significant byte first, with the sign bit flipped: negative keys come before the others. -/
def keyBytes (key : Int64) : Bytes :=
  (Bytes.ofWord (key.toUInt64 ^^^ 0x8000000000000000)).reverse

@[simp] theorem length_keyBytes (key : Int64) : (keyBytes key).length = 8 := by
  simp [keyBytes]

end InsertBench
