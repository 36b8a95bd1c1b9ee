import InsertBench.Row.Basic
import InsertBench.Text.Utf8

/-! # Rows as bytes

A row is laid out as three little-endian words, for the key, the amount and the time of creation, and
then two texts, each after one byte for its length. A text of more than 255 bytes does not fit its
length byte, which then holds the length modulo 256.
-/
namespace InsertBench

def Bytes.ofText (text : String) : Bytes :=
  let bytes := Utf8.encode text
  bytes.length.toUInt8 :: bytes

namespace Row

def encode (row : Row) : Bytes :=
  Bytes.ofWord row.id.toUInt64 ++ Bytes.ofWord row.amount ++ Bytes.ofWord row.createdAt.toUInt64 ++
    Bytes.ofText row.name ++ Bytes.ofText row.tag

/-- Writes a row into a buffer that is emptied first. -/
def encodeInto (row : Row) (buffer : Bytes) : Bytes := buffer.drop buffer.length ++ row.encode

/-- Nothing of what the buffer held is left. -/
theorem encodeInto_eq_encode (row : Row) (buffer : Bytes) : row.encodeInto buffer = row.encode := by
  rw [encodeInto, List.drop_length, List.nil_append]

inductive DecodeError
  | tooShort (length : Nat)
  | noTextLength
  | textTruncated
  | notUtf8 (place : Utf8.Malformed)
  | crashed (how : Fault)
deriving DecidableEq

def DecodeError.message : DecodeError → String
  | tooShort length => s!"row too short: {length} bytes"
  | noTextLength => "missing text length"
  | textTruncated => "text truncated"
  | notUtf8 place => place.message
  | crashed how => how.message

def DecodeError.lift {α : Type} : Except Fault α → Except DecodeError α
  | .ok a => .ok a
  | .error how => .error (.crashed how)

/-- Reads a text after its length byte, and leaves what follows it. -/
def decodeText (bytes : Bytes) : Except DecodeError (String × Bytes) := do
  if bytes.isEmpty then throw .noTextLength
  let length := (← DecodeError.lift (bytes.byteAt 0)).toNat
  if bytes.length ≤ length then throw .textTruncated
  let text ← (Utf8.decode (← DecodeError.lift (bytes.slice 1 (length + 1)))).mapError .notUtf8
  return (text, ← DecodeError.lift (bytes.sliceFrom (length + 1)))

/-- Reads a row from the front of a byte string; what follows the second text is left alone. -/
def decode (bytes : Bytes) : Except DecodeError Row := do
  if bytes.length < 24 then throw (.tooShort bytes.length)
  let (name, rest) ← decodeText (← DecodeError.lift (bytes.sliceFrom 24))
  let (tag, _) ← decodeText rest
  return ⟨(← DecodeError.lift (bytes.wordAt 0)).toInt64, ← DecodeError.lift (bytes.wordAt 1),
    (← DecodeError.lift (bytes.wordAt 2)).toInt64, name, tag⟩

/-! Each read stands behind a check of the length, so none is outside its bytes. -/

theorem decodeText_cons (length : UInt8) (rest : Bytes) : decodeText (length :: rest) =
    if rest.length < length.toNat then .error .textTruncated
    else match Utf8.decode (rest.take length.toNat) with
      | .ok text => .ok (text, rest.drop length.toNat)
      | .error place => .error (.notUtf8 place) := by
  have hfirst : Bytes.byteAt (length :: rest) 0 = .ok length := rfl
  simp only [decodeText, hfirst, DecodeError.lift, bind, Except.bind, List.isEmpty_cons, Bool.false_eq_true,
    if_false, List.length_cons, Nat.succ_le_iff]
  split
  · rfl
  · rename_i hlong
    have hin : length.toNat + 1 ≤ (length :: rest).length := by
      rw [List.length_cons]
      omega
    rw [Bytes.slice_eq (Nat.le_add_left 1 _) hin, Bytes.sliceFrom_eq hin]
    simp only [List.drop_succ_cons, List.drop_zero, Nat.add_sub_cancel]
    cases Utf8.decode (rest.take length.toNat) <;> rfl

theorem decode_of_length {bytes : Bytes} (h : 24 ≤ bytes.length) : decode bytes = (do
    let (name, rest) ← decodeText (bytes.drop 24)
    let (tag, _) ← decodeText rest
    return ⟨(Bytes.toWord ((bytes.drop 0).take 8)).toInt64, Bytes.toWord ((bytes.drop 8).take 8),
      (Bytes.toWord ((bytes.drop 16).take 8)).toInt64, name, tag⟩) := by
  rw [decode, if_neg (Nat.not_lt_of_le h), Bytes.sliceFrom_eq h, Bytes.wordAt_eq (by omega),
    Bytes.wordAt_eq (by omega), Bytes.wordAt_eq (by omega)]
  rfl

end Row

end InsertBench
