import InsertBench.Proofs.Row.RoundTrip

/-! # What is read as a row

Reading accepts the byte strings that begin with the layout of a row and no others, and the row that is
read has this layout. Any other byte string fails the first check that does not hold of it: there are the
three words, and then for each of the two texts a length byte, so many bytes, and these are well-formed.
-/
namespace InsertBench

namespace Utf8

/-- These are the bytes of a text. -/
def WellFormed (bytes : Bytes) : Prop := ∃ text, encode text = bytes

theorem decode_eq_error_iff {bytes : Bytes} {place : Malformed} :
    decode bytes = .error place ↔ ¬ WellFormed bytes ∧ place = firstMalformed 0 bytes := by
  constructor
  · intro h
    constructor
    · rintro ⟨text, rfl⟩
      simp at h
    · unfold decode at h
      split at h <;> cases h
      rfl
  · rintro ⟨hnot, rfl⟩
    cases h : decode bytes with
    | ok text => exact absurd ⟨text, (decode_eq_ok_iff.mp h).symm⟩ hnot
    | error place =>
      unfold decode at h
      split at h <;> cases h
      rfl

end Utf8

namespace Bytes

theorem value_lt (bytes : Bytes) : bytes.value < 256 ^ bytes.length := by
  have h := value_little bytes.length bytes.value
  rw [little_value] at h
  rw [h]
  exact Nat.mod_lt _ (Nat.pow_pos (by decide))

theorem ofWord_toWord {bytes : Bytes} (h : bytes.length = 8) : ofWord (toWord bytes) = bytes := by
  have hlt : bytes.value < UInt64.size := by
    have := bytes.value_lt
    rwa [h] at this
  have hvalue : (toWord bytes).toNat = bytes.value := UInt64.toNat_ofNat_of_lt' hlt
  rw [ofWord, hvalue, ← h, little_value]

end Bytes

namespace Row

variable {bytes words rest name tag : Bytes} {length nameLength tagLength : UInt8} {error : DecodeError}

/-! ## Texts -/

/-- The first check that fails where a text is read. -/
inductive TextFails : Bytes → DecodeError → Prop
  | noLength : TextFails [] .noTextLength
  | truncated {length : UInt8} {rest : Bytes} (short : rest.length < length.toNat) :
      TextFails (length :: rest) .textTruncated
  | illFormed {length : UInt8} {text rest : Bytes} (whole : text.length = length.toNat)
      (illFormed : ¬ Utf8.WellFormed text) :
      TextFails (length :: (text ++ rest)) (.notUtf8 (Utf8.firstMalformed 0 text))

theorem decodeText_append (h : name.length = length.toNat) : decodeText (length :: (name ++ rest)) =
    match Utf8.decode name with
    | .ok text => .ok (text, rest)
    | .error place => .error (.notUtf8 place) := by
  have hwhole : ¬ (name ++ rest).length < name.length := by
    rw [List.length_append]
    omega
  cases hdecode : Utf8.decode name <;>
    simp only [decodeText_cons, ← h, if_neg hwhole, List.take_left, List.drop_left, hdecode]

theorem decodeText_wellFormed (hlength : name.length = length.toNat) {text : String}
    (h : Utf8.encode text = name) : decodeText (length :: (name ++ rest)) = .ok (text, rest) := by
  rw [decodeText_append hlength, ← h, Utf8.decode_encode]

theorem TextFails.decodeText_eq (h : TextFails bytes error) : decodeText bytes = .error error := by
  cases h with
  | noLength => rfl
  | truncated short => rw [decodeText_cons, if_pos short]
  | illFormed whole illFormed =>
    rw [decodeText_append whole, Utf8.decode_eq_error_iff.mpr ⟨illFormed, rfl⟩]

theorem text_cases (bytes : Bytes) : (∃ error, TextFails bytes error) ∨ ∃ length text rest,
    bytes = length :: (text ++ rest) ∧ text.length = length.toNat ∧ Utf8.WellFormed text := by
  cases bytes with
  | nil => exact .inl ⟨_, .noLength⟩
  | cons length following =>
    rcases Nat.lt_or_ge following.length length.toNat with hshort | hlong
    · exact .inl ⟨_, .truncated hshort⟩
    · have hwhole : (following.take length.toNat).length = length.toNat := List.length_take_of_le hlong
      rw [← List.take_append_drop length.toNat following]
      by_cases hwell : Utf8.WellFormed (following.take length.toNat)
      · exact .inr ⟨length, _, _, rfl, hwhole, hwell⟩
      · exact .inl ⟨_, .illFormed hwhole hwell⟩

/-! ## Rows -/

def ofWords (words : Bytes) (name tag : String) : Row :=
  ⟨(Bytes.toWord (words.take 8)).toInt64, Bytes.toWord ((words.drop 8).take 8),
    (Bytes.toWord ((words.drop 16).take 8)).toInt64, name, tag⟩

theorem encode_ofWords (h : words.length = 24) (name tag : String) :
    (ofWords words name tag).encode = words ++ Bytes.ofText name ++ Bytes.ofText tag := by
  have hfirst : Bytes.ofWord (Bytes.toWord (words.take 8)) = words.take 8 :=
    Bytes.ofWord_toWord (by rw [List.length_take]; omega)
  have hsecond : Bytes.ofWord (Bytes.toWord ((words.drop 8).take 8)) = (words.drop 8).take 8 :=
    Bytes.ofWord_toWord (by rw [List.length_take, List.length_drop]; omega)
  have hthird : Bytes.ofWord (Bytes.toWord ((words.drop 16).take 8)) = words.drop 16 := by
    rw [List.take_of_length_le (by rw [List.length_drop]; omega)]
    exact Bytes.ofWord_toWord (by rw [List.length_drop]; omega)
  have hwords : words.take 8 ++ (words.drop 8).take 8 ++ words.drop 16 = words := by
    rw [List.append_assoc, show words.drop 16 = (words.drop 8).drop 8 by rw [List.drop_drop],
      List.take_append_drop, List.take_append_drop]
  simp only [encode, ofWords, UInt64.toUInt64_toInt64, hfirst, hsecond, hthird, hwords]

theorem decode_append (h : words.length = 24) (rest : Bytes) : decode (words ++ rest) = (do
    let (name, rest) ← decodeText rest
    let (tag, _) ← decodeText rest
    return ofWords words name tag) := by
  have hdrop : (words ++ rest).drop 24 = rest := List.drop_left' h
  have hword (i : Nat) (hi : i + 8 ≤ 24) : ((words ++ rest).drop i).take 8 = (words.drop i).take 8 := by
    rw [List.drop_append_of_le_length (by omega), List.take_append_of_le_length]
    rw [List.length_drop]
    omega
  rw [decode_of_length (by rw [List.length_append]; omega), hdrop, hword 0 (by decide), hword 8 (by decide),
    hword 16 (by decide)]
  rfl

/-- A byte string begins with a row: three words, and two texts after their length bytes. -/
structure Layout (bytes words : Bytes) (nameLength : UInt8) (name : Bytes) (tagLength : UInt8)
    (tag rest : Bytes) : Prop where
  bytes_eq : bytes = words ++ [nameLength] ++ name ++ [tagLength] ++ tag ++ rest
  threeWords : words.length = 24
  wholeName : name.length = nameLength.toNat
  wholeTag : tag.length = tagLength.toNat
  nameText : Utf8.WellFormed name
  tagText : Utf8.WellFormed tag

/-- The first check that fails where a row is read. -/
inductive Fails : Bytes → DecodeError → Prop
  | tooShort {bytes : Bytes} (short : bytes.length < 24) : Fails bytes (.tooShort bytes.length)
  | name {words rest : Bytes} {error : DecodeError} (threeWords : words.length = 24)
      (nameFails : TextFails rest error) : Fails (words ++ rest) error
  | tag {words name rest : Bytes} {nameLength : UInt8} {error : DecodeError}
      (threeWords : words.length = 24) (wholeName : name.length = nameLength.toNat)
      (nameText : Utf8.WellFormed name) (tagFails : TextFails rest error) :
      Fails (words ++ nameLength :: (name ++ rest)) error

theorem Fails.decode_eq (h : Fails bytes error) : decode bytes = .error error := by
  cases h with
  | tooShort short => exact if_pos short
  | name threeWords nameFails =>
    rw [decode_append threeWords, nameFails.decodeText_eq]
    rfl
  | tag threeWords wholeName nameText tagFails =>
    obtain ⟨text, hname⟩ := nameText
    rw [decode_append threeWords, decodeText_wellFormed wholeName hname]
    simp only [bind, Except.bind, tagFails.decodeText_eq]

theorem fails_or_layout (bytes : Bytes) : (∃ error, Fails bytes error) ∨
    ∃ words nameLength name tagLength tag rest, Layout bytes words nameLength name tagLength tag rest := by
  rcases Nat.lt_or_ge bytes.length 24 with hshort | hlong
  · exact .inl ⟨_, .tooShort hshort⟩
  · have hwords : (bytes.take 24).length = 24 := List.length_take_of_le hlong
    rw [← List.take_append_drop 24 bytes]
    generalize bytes.take 24 = words at hwords ⊢
    rcases text_cases (bytes.drop 24) with ⟨_, hname⟩ | ⟨nameLength, name, left, hleft, hnameLength, hname⟩
    · exact .inl ⟨_, .name hwords hname⟩
    · rw [hleft]
      rcases text_cases left with ⟨_, htag⟩ | ⟨tagLength, tag, rest, rfl, htagLength, htag⟩
      · exact .inl ⟨_, .tag hwords hnameLength hname htag⟩
      · exact .inr ⟨words, nameLength, name, tagLength, tag, rest, by simp, hwords, hnameLength, htagLength,
          hname, htag⟩

/-- A row that is read has the words and the texts of its layout, and its own bytes are those that were
read, without what follows them. -/
structure Reads (row : Row) (words : Bytes) (nameLength : UInt8) (name : Bytes) (tagLength : UInt8)
    (tag : Bytes) : Prop where
  id_eq : row.id.toUInt64 = Bytes.toWord (words.take 8)
  amount_eq : row.amount = Bytes.toWord ((words.drop 8).take 8)
  createdAt_eq : row.createdAt.toUInt64 = Bytes.toWord ((words.drop 16).take 8)
  name_eq : Utf8.encode row.name = name
  tag_eq : Utf8.encode row.tag = tag
  encode_eq (buffer : Bytes) : row.encodeInto buffer = words ++ [nameLength] ++ name ++ [tagLength] ++ tag

theorem ofText_eq {text : String} (hlength : name.length = length.toNat) (h : Utf8.encode text = name) :
    Bytes.ofText text = length :: name := by
  rw [Bytes.ofText, h, hlength]
  simp

theorem Layout.decode_eq (h : Layout bytes words nameLength name tagLength tag rest) :
    ∃ row, decode bytes = .ok row ∧ row.Reads words nameLength name tagLength tag := by
  obtain ⟨rfl, hwords, hnameLength, htagLength, ⟨nameText, hname⟩, ⟨tagText, htag⟩⟩ := h
  refine ⟨ofWords words nameText tagText, ?_, by simp [ofWords], rfl, by simp [ofWords], hname, htag, ?_⟩
  · have hbytes : words ++ [nameLength] ++ name ++ [tagLength] ++ tag ++ rest =
        words ++ nameLength :: (name ++ tagLength :: (tag ++ rest)) := by simp
    rw [hbytes, decode_append hwords, decodeText_wellFormed hnameLength hname]
    simp only [bind, Except.bind, decodeText_wellFormed htagLength htag]
    rfl
  · intro buffer
    rw [encodeInto_eq_encode, encode_ofWords hwords, ofText_eq hnameLength hname, ofText_eq htagLength htag]
    simp

theorem fails_of_decode (h : decode bytes = .error error) : Fails bytes error := by
  rcases fails_or_layout bytes with ⟨found, hfails⟩ | ⟨words, nameLength, name, tagLength, tag, rest, hlayout⟩
  · rw [hfails.decode_eq, Except.error.injEq] at h
    exact h ▸ hfails
  · obtain ⟨row, hrow, -⟩ := hlayout.decode_eq
    rw [hrow] at h
    cases h

theorem Fails.ne_crashed (h : Fails bytes error) (how : Fault) : error ≠ .crashed how := by
  have htext {rest : Bytes} (ht : TextFails rest error) : error ≠ .crashed how := by cases ht <;> simp
  cases h with
  | tooShort _ => simp
  | name _ nameFails => exact htext nameFails
  | tag _ _ _ tagFails => exact htext tagFails

/-- What becomes of a byte string that is read as a row. -/
structure ReadsLayout (bytes : Bytes) : Prop where
  accepts : (∃ row, decode bytes = .ok row) ↔ ∃ words nameLength name tagLength tag rest,
    Layout bytes words nameLength name tagLength tag rest
  reads {words : Bytes} {nameLength : UInt8} {name : Bytes} {tagLength : UInt8} {tag rest : Bytes} :
    Layout bytes words nameLength name tagLength tag rest →
      ∃ row, decode bytes = .ok row ∧ row.Reads words nameLength name tagLength tag
  fails {error : DecodeError} : decode bytes = .error error ↔ Fails bytes error
  /-- No byte is read from outside the string. -/
  inside (how : Fault) : decode bytes ≠ .error (.crashed how)

theorem readsLayout (bytes : Bytes) : ReadsLayout bytes where
  accepts := by
    constructor
    · rintro ⟨row, hrow⟩
      rcases fails_or_layout bytes with ⟨error, hfails⟩ | hlayout
      · rw [hfails.decode_eq] at hrow
        cases hrow
      · exact hlayout
    · rintro ⟨words, nameLength, name, tagLength, tag, rest, hlayout⟩
      obtain ⟨row, hrow, -⟩ := hlayout.decode_eq
      exact ⟨row, hrow⟩
  reads := Layout.decode_eq
  fails := ⟨fails_of_decode, Fails.decode_eq⟩
  inside how h := (fails_of_decode h).ne_crashed how rfl

/-- A length byte that announces one byte more than is left. -/
example : decode (List.replicate 24 0 ++ [0, 1]) = .error .textTruncated := rfl

end Row

end InsertBench
