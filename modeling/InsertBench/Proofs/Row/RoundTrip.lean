import Mathlib.Data.Set.Function
import InsertBench.Bytes.Lemmas
import InsertBench.Row.Codec

/-! # Reading a row back

A text that fits its length byte is read back and what follows it is left over (`decodeText_ofText`).
A longer one never is, whatever comes after it: a length byte announces fewer bytes than the text has,
and only the text itself has its bytes. With that the three words and the two texts of a row are read
back one after another.
-/
namespace InsertBench

namespace Utf8

@[simp] theorem length_encode (text : String) : (encode text).length = text.utf8ByteSize :=
  rfl

end Utf8

theorem Bytes.length_ofText (text : String) : (Bytes.ofText text).length = text.utf8ByteSize + 1 := by
  rw [Bytes.ofText, List.length_cons, Utf8.length_encode]

namespace Row

/-- Both texts fit their length bytes. -/
def Short (row : Row) : Prop := row.name.utf8ByteSize ≤ 255 ∧ row.tag.utf8ByteSize ≤ 255

instance (row : Row) : Decidable row.Short := inferInstanceAs (Decidable (_ ∧ _))

theorem length_encode (row : Row) :
    row.encode.length = 26 + row.name.utf8ByteSize + row.tag.utf8ByteSize := by
  simp only [encode, List.length_append, Bytes.length_ofWord, Bytes.length_ofText]
  omega

/-! ## Texts -/

theorem decodeText_ofText {text : String} (h : text.utf8ByteSize ≤ 255) (rest : Bytes) :
    decodeText (Bytes.ofText text ++ rest) = .ok (text, rest) := by
  have hlen : (Utf8.encode text).length.toUInt8.toNat = (Utf8.encode text).length :=
    UInt8.toNat_ofNat_of_lt' (Nat.lt_succ_of_le h)
  rw [Bytes.ofText, List.cons_append, decodeText_cons, hlen, if_neg (by simp), List.take_left,
    List.drop_left, Utf8.decode_encode]

theorem utf8ByteSize_le_of_decodeText {bytes rest : Bytes} {text : String}
    (h : decodeText bytes = .ok (text, rest)) : text.utf8ByteSize ≤ 255 := by
  cases bytes with
  | nil => cases h
  | cons length following =>
    rw [decodeText_cons] at h
    split at h
    · cases h
    · split at h
      · rename_i found hfound
        obtain ⟨rfl, -⟩ := Prod.mk.inj (Except.ok.inj h)
        have hl := length.toNat_lt
        rw [← Utf8.length_encode, ← Utf8.decode_eq_ok_iff.mp hfound, List.length_take]
        omega
      · cases h

/-! ## Rows -/

theorem toWord_word_of_length (front : Bytes) (i : Nat) (hi : front.length = i) (w : UInt64)
    (back : Bytes) : Bytes.toWord (((front ++ (Bytes.ofWord w ++ back)).drop i).take 8) = w := by
  rw [← hi, List.drop_left, List.take_left' (Bytes.length_ofWord w), Bytes.toWord_ofWord]

theorem decode_words (first second third : UInt64) {texts left rest : Bytes} {name tag : String}
    (hname : decodeText texts = .ok (name, left)) (htag : decodeText left = .ok (tag, rest)) :
    decode (Bytes.ofWord first ++ (Bytes.ofWord second ++ (Bytes.ofWord third ++ texts))) =
      .ok ⟨first.toInt64, second, third.toInt64, name, tag⟩ := by
  have h0 := toWord_word_of_length [] 0 rfl first
    (Bytes.ofWord second ++ (Bytes.ofWord third ++ texts))
  have h1 := toWord_word_of_length (Bytes.ofWord first) 8 (Bytes.length_ofWord first) second
    (Bytes.ofWord third ++ texts)
  have h2 := toWord_word_of_length (Bytes.ofWord first ++ Bytes.ofWord second) 16 (by simp) third texts
  have h3 : (Bytes.ofWord first ++ Bytes.ofWord second ++ Bytes.ofWord third ++ texts).drop 24 = texts :=
    List.drop_left' (by simp)
  simp only [List.append_assoc, List.nil_append] at h0 h2 h3
  rw [decode_of_length (by simp; omega), h3, hname]
  simp only [bind, Except.bind, htag, h0, h1, h2]
  rfl

theorem Short.of_decode {bytes : Bytes} {row : Row} (h : decode bytes = .ok row) : row.Short := by
  rcases Nat.lt_or_ge bytes.length 24 with hshort | hlong
  · rw [decode, if_pos hshort] at h
    cases h
  · rw [decode_of_length hlong] at h
    cases hname : decodeText (bytes.drop 24) with
    | error e => simp [hname, bind, Except.bind] at h
    | ok named =>
      cases htag : decodeText named.2 with
      | error e => simp [hname, htag, bind, Except.bind] at h
      | ok tagged =>
        simp only [hname, htag, bind, Except.bind, pure, Except.pure, Except.ok.injEq] at h
        subst h
        exact ⟨utf8ByteSize_le_of_decodeText hname, utf8ByteSize_le_of_decodeText htag⟩

theorem decode_encode_append {row : Row} (h : row.Short) (rest : Bytes) :
    decode (row.encode ++ rest) = .ok row := by
  have hname := decodeText_ofText h.1 (Bytes.ofText row.tag ++ rest)
  have htag := decodeText_ofText h.2 rest
  have hd := decode_words row.id.toUInt64 row.amount row.createdAt.toUInt64 hname htag
  simpa [encode] using hd

theorem Short.eq_of_prefix {row other : Row} (h : row.Short) (hother : other.Short)
    (hp : row.encode <+: other.encode) : row = other := by
  obtain ⟨rest, hrest⟩ := hp
  have hrow := decode_encode_append h rest
  have hread := decode_encode_append hother []
  rw [List.append_nil, ← hrest, hrow] at hread
  exact Except.ok.inj hread

/-- A row is read back from its bytes, whatever follows them, if and only if both texts fit their length
bytes. The bytes are as many as the layout says and do not depend on what the buffer held before; on
short rows they are injective, and those of one row are never the front of those of another. -/
theorem round_trip_iff_short :
    (∀ (row : Row) (buffer rest : Bytes), decode (row.encodeInto buffer ++ rest) = .ok row ↔
      row.name.utf8ByteSize ≤ 255 ∧ row.tag.utf8ByteSize ≤ 255) ∧
    (∀ (row : Row) (buffer : Bytes), row.encodeInto buffer = row.encode ∧
      (row.encodeInto buffer).length = 26 + row.name.utf8ByteSize + row.tag.utf8ByteSize) ∧
    Set.InjOn encode {row | row.Short} ∧
    ∀ row other : Row, row.Short → other.Short → row.encode <+: other.encode → row = other := by
  refine ⟨fun row buffer rest => ?_, fun row buffer => ?_, ?_, fun row other => Short.eq_of_prefix⟩
  · rw [encodeInto_eq_encode]
    exact ⟨Short.of_decode, fun h => decode_encode_append h rest⟩
  · exact ⟨encodeInto_eq_encode row buffer, by rw [encodeInto_eq_encode, length_encode]⟩
  · intro row h other hother he
    exact Short.eq_of_prefix h hother (he ▸ List.prefix_rfl)

/-- A text of two bytes is read back and one of 256 is not; the bytes of a tag do not go on as those of a
longer one. -/
theorem round_trip_of_texts :
    decode ((⟨5, 0x7ff8000000000001, -1, "é", ""⟩ : Row).encodeInto [1, 2] ++ [3]) =
      .ok ⟨5, 0x7ff8000000000001, -1, "é", ""⟩ ∧
    decode ((⟨5, 0, 0, String.ofList (List.replicate 256 'a'), ""⟩ : Row).encodeInto [] ++ []) ≠
      .ok ⟨5, 0, 0, String.ofList (List.replicate 256 'a'), ""⟩ ∧
    (⟨5, 0, 0, "", "a"⟩ : Row).encode ≠ (⟨5, 0, 0, "", "b"⟩ : Row).encode ∧
    ¬ (⟨5, 0, 0, "", "a"⟩ : Row).encode <+: (⟨5, 0, 0, "", "ab"⟩ : Row).encode := by
  obtain ⟨hread, -, hinj, hfront⟩ := round_trip_iff_short
  refine ⟨(hread _ _ _).mpr (by decide), fun h => ?_, fun h => ?_, fun h => ?_⟩
  · exact absurd ((hread _ _ _).mp h) (by decide +kernel)
  · exact absurd (hinj (by decide) (by decide) h) (by decide)
  · exact absurd (hfront _ _ (by decide) (by decide) h) (by decide)

end Row

end InsertBench
