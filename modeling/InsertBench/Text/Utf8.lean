import InsertBench.Bytes

/-! # Ill-formed UTF-8

Where a byte string stops being well-formed UTF-8. Sequences have one to four bytes; the first byte
fixes how many and the range of the second, and the others are continuation bytes. Bytes that cannot
be part of any sequence end the text; so does a sequence that the text leaves unfinished.
-/
namespace InsertBench.Utf8

/-- How a nonempty byte string begins. -/
inductive Lead
  /-- A whole sequence of so many bytes. -/
  | whole (length : Nat)
  /-- So many bytes of a sequence that the next byte, if any, does not continue. -/
  | broken (length : Nat)
  /-- A sequence that would go on after the last byte. -/
  | unfinished
deriving DecidableEq

/-- The bytes after the second: so many are missing and so many are read. -/
def continued : Nat → Nat → Bytes → Lead
  | 0, length, _ => .whole length
  | _ + 1, _, [] => .unfinished
  | missing + 1, length, b :: rest =>
    if 0x80 ≤ b ∧ b ≤ 0xBF then continued missing (length + 1) rest else .broken length

/-- What a first byte of a longer sequence asks for: how many bytes come after the second one, and
the least and greatest second byte. -/
def shape? (first : UInt8) : Option (Nat × UInt8 × UInt8) :=
  if first < 0xC2 then none
  else if first < 0xE0 then some (0, 0x80, 0xBF)
  else if first = 0xE0 then some (1, 0xA0, 0xBF)
  else if first = 0xED then some (1, 0x80, 0x9F)
  else if first < 0xF0 then some (1, 0x80, 0xBF)
  else if first = 0xF0 then some (2, 0x90, 0xBF)
  else if first < 0xF4 then some (2, 0x80, 0xBF)
  else if first = 0xF4 then some (2, 0x80, 0x8F)
  else none

def lead (first : UInt8) (rest : Bytes) : Lead :=
  if first < 0x80 then .whole 1
  else match shape? first with
    | none => .broken 1
    | some (missing, low, high) =>
      match rest with
      | [] => .unfinished
      | second :: rest =>
        if low ≤ second ∧ second ≤ high then continued missing 2 rest else .broken 1

/-- Where and how a text stops being well-formed. -/
inductive Malformed
  /-- At an index, so many bytes that are the start of no sequence here. -/
  | invalid (length index : Nat)
  /-- The text ends inside the sequence at an index. -/
  | incomplete (index : Nat)
deriving DecidableEq

def Malformed.message : Malformed → String
  | invalid length index => s!"invalid utf-8 sequence of {length} bytes from index {index}"
  | incomplete index => s!"incomplete utf-8 byte sequence from index {index}"

/-- Passes over whole sequences from an index on, and says where they end. -/
def firstMalformed (index : Nat) : Bytes → Malformed
  | [] => .incomplete index
  | first :: rest =>
    match lead first rest with
    | .whole length => firstMalformed (index + length) (rest.drop (length - 1))
    | .broken length => .invalid length index
    | .unfinished => .incomplete index
termination_by bytes => bytes.length
decreasing_by
  rw [List.length_drop, List.length_cons]
  omega

/-- The text of these bytes if they are well-formed, and otherwise where they stop being so. -/
def decode (bytes : Bytes) : Except Malformed String :=
  match String.fromUTF8? ⟨bytes.toArray⟩ with
  | some text => .ok text
  | none => .error (firstMalformed 0 bytes)

def encode (text : String) : Bytes := text.toUTF8.data.toList

/-- Exactly the encoded texts are well-formed. -/
theorem decode_eq_ok_iff {bytes : Bytes} {text : String} : decode bytes = .ok text ↔ bytes = encode text := by
  constructor
  · intro h
    unfold decode String.fromUTF8? at h
    split at h
    · rename_i found
      split at found
      · obtain rfl := Except.ok.inj h
        rw [← Option.some.inj found]
        rfl
      · cases found
    · cases h
  · rintro rfl
    have h : String.fromUTF8? ⟨(encode text).toArray⟩ = some text :=
      dif_pos text.isValidUTF8
    rw [decode, h]

@[simp] theorem decode_encode (text : String) : decode (encode text) = .ok text :=
  decode_eq_ok_iff.mpr rfl

end InsertBench.Utf8
