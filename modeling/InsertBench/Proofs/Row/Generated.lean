import InsertBench.Proofs.Row.RoundTrip
import InsertBench.Row.Generate

/-! # Generated rows

A draw takes up the generator where the draw before it left off, and how many words a text takes depends
on its length. So what is known of a draw has to hold wherever the generator stands (`Yields`), and then
it does not matter what was drawn before.

The lengths and the characters come from two distributions. A generated row is well formed for any two
that keep to the ranks and to the letters and digits, and for those that are drawn from.
-/
namespace InsertBench

namespace Random

/-- What a draw gives, without the generator after it. -/
def value {α : Type} (draw : Draw α) (g : Generator) : α := (draw.run g).1

/-- What a draw gives has a property, wherever the generator stands. -/
def Yields {α : Type} (draw : Draw α) (P : α → Prop) : Prop := ∀ g, P (value draw g)

section
variable {α β : Type} {P : α → Prop} {Q : β → Prop}

theorem Yields.pure {a : α} (h : P a) : Yields (pure a) P := fun _ => h

theorem Yields.bind {draw : Draw α} {next : α → Draw β} (h : Yields draw P)
    (hnext : ∀ a, P a → Yields (next a) Q) : Yields (draw >>= next) Q :=
  fun g => hnext _ (h g) (draw.run g).2

theorem Yields.trivial (draw : Draw α) : Yields draw fun _ => True := fun _ => True.intro

end

def repeated (letter : Draw Char) : Nat → Draw (List Char)
  | 0 => return []
  | length + 1 => do
    let c ← letter
    return c :: (← repeated letter length)

theorem characters_eq_repeated : characters = repeated (characterWithin 4096) := by
  funext length
  induction length with
  | zero => rfl
  | succ length ih => rw [characters, repeated, ih]

theorem repeated_yields {letter : Draw Char} {P : Char → Prop} (h : Yields letter P) (length : Nat) :
    Yields (repeated letter length) fun cs => cs.length = length ∧ ∀ c ∈ cs, P c := by
  induction length with
  | zero => exact Yields.pure ⟨rfl, by simp⟩
  | succ length ih =>
    refine h.bind fun c hc => ih.bind fun cs hcs => Yields.pure ⟨by simp [hcs.1], ?_⟩
    exact List.forall_mem_cons.mpr ⟨hc, hcs.2⟩

theorem alphabet_isAlphanum : ∀ c ∈ alphabet, c.isAlphanum :=
  List.all_eq_true.mp (by decide)

theorem characterWithin_isAlphanum (draws : Nat) :
    Yields (characterWithin draws) fun c => c.isAlphanum := by
  induction draws with
  | zero => exact Yields.pure (by decide)
  | succ draws ih =>
    refine (Yields.trivial half).bind fun w _ => ?_
    split
    case h_1 c hc => exact Yields.pure (alphabet_isAlphanum c (List.mem_of_getElem? hc))
    case h_2 => exact ih

theorem rankWithin_bounds {most : Nat} (hmost : 1 ≤ most) (trials : Nat) :
    Yields (rankWithin most trials) fun rank => 1 ≤ rank ∧ rank ≤ most := by
  induction trials with
  | zero => exact Yields.pure ⟨Nat.le_refl 1, hmost⟩
  | succ trials ih =>
    refine (Yields.trivial _).bind fun trial _ => ?_
    cases trial with
    | none => exact ih
    | some rank => exact Yields.pure ⟨by omega, by omega⟩

theorem rank_bounds {most : Nat} (hmost : 1 ≤ most) :
    Yields (rank most) fun rank => 1 ≤ rank ∧ rank ≤ most := by
  rw [rank]
  exact rankWithin_bounds hmost 4096

/-! ## Numbers below a bound -/

theorem toNat_upper (w : UInt64) : (w >>> 32).toNat = w.toNat / 4294967296 := by
  rw [UInt64.toNat_shiftRight, Nat.shiftRight_eq_div_pow]
  rfl

theorem half_lt : Yields half fun w => w.toNat < 4294967296 := by
  refine (Yields.trivial word).bind fun w _ => Yields.pure ?_
  have h := w.toNat_lt
  rw [toNat_upper]
  omega

/-- The upper half of the product is below the bound; where a carry may be added to it, the lower half is
so large that there is room for one. -/
theorem upper_half_lt {w bound : UInt64} (hw : w.toNat < 4294967296) (hpos : 0 < bound.toNat)
    (hbound : bound.toNat ≤ 4294967296) :
    ((w * bound) >>> 32).toNat < bound.toNat ∧
      (0x100000000 - bound < (w * bound) % 0x100000000 →
        ((w * bound) >>> 32).toNat + 1 < bound.toNat) := by
  have hle : w.toNat * bound.toNat ≤ 4294967295 * bound.toNat := Nat.mul_le_mul_right _ (by omega)
  have hprod : (w * bound).toNat = w.toNat * bound.toNat := by
    rw [UInt64.toNat_mul, Nat.mod_eq_of_lt (by omega)]
  rw [UInt64.lt_iff_toNat_lt, UInt64.toNat_sub_of_le _ _ (UInt64.le_iff_toNat_le.mpr hbound),
    UInt64.toNat_mod, toNat_upper, hprod]
  simp only [UInt64.reduceToNat]
  omega

theorem below_lt {bound : UInt64} (hpos : 0 < bound) (hbound : bound ≤ 0x100000000) :
    Yields (below bound) (· < bound) := by
  refine half_lt.bind fun w hw => ?_
  obtain ⟨hupper, hroom⟩ :=
    upper_half_lt hw (UInt64.lt_iff_toNat_lt.mp hpos) (UInt64.le_iff_toNat_le.mp hbound)
  dsimp only
  split
  case isFalse => exact Yields.pure (UInt64.lt_iff_toNat_lt.mpr hupper)
  case isTrue hlow =>
    have hcarry : (w * bound) >>> 32 + 1 < bound := by
      have hlt := bound.toNat_lt
      have hr := hroom hlow
      rw [UInt64.lt_iff_toNat_lt, UInt64.toNat_add]
      simp only [UInt64.reduceToNat]
      omega
    refine (Yields.trivial half).bind fun v _ => Yields.pure ?_
    split
    · exact hcarry
    · exact UInt64.lt_iff_toNat_lt.mpr hupper

end Random

/-! ## Texts -/

theorem utf8Size_of_isAlphanum {c : Char} (h : c.isAlphanum) : c.utf8Size = 1 := by
  rw [Char.utf8Size_eq_one_iff, UInt32.le_iff_toNat_le]
  delta Char.isAlphanum Char.isAlpha Char.isUpper Char.isLower Char.isDigit at h
  simp only [Bool.or_eq_true, Bool.and_eq_true, decide_eq_true_eq, UInt32.le_iff_toNat_le, ge_iff_le] at h
  simp only [UInt32.reduceToNat, Char.reduceVal] at h ⊢
  omega

theorem utf8ByteSize_of_isAlphanum {cs : List Char} (h : ∀ c ∈ cs, c.isAlphanum) :
    (String.ofList cs).utf8ByteSize = cs.length := by
  induction cs with
  | nil => rfl
  | cons c cs ih =>
    obtain ⟨hc, hcs⟩ := List.forall_mem_cons.mp h
    rw [String.ofList_cons, String.utf8ByteSize_append, String.utf8ByteSize_singleton,
      utf8Size_of_isAlphanum hc, ih hcs, List.length_cons, Nat.add_comm]

namespace Row

structure Label (text : String) : Prop where
  length : 1 ≤ text.length ∧ text.length ≤ maxTextLength
  alphanumeric : ∀ c ∈ text.toList, c.isAlphanum

theorem Label.utf8ByteSize {text : String} (h : Label text) : text.utf8ByteSize = text.length := by
  have hsize := utf8ByteSize_of_isAlphanum h.alphanumeric
  rwa [String.ofList_toList, String.length_toList] at hsize

/-- A text of characters drawn from one distribution, its length drawn from another. -/
def drawTextBy (lengths : Random.Draw Nat) (letter : Random.Draw Char) : Random.Draw String := do
  return String.ofList (← Random.repeated letter (← lengths))

def Hundredths (amount : UInt64) : Prop :=
  ∃ n : UInt64, n < 1000000 ∧ amount = (n.toFloat / 100.0).toBits

theorem drawAmount_hundredths : Random.Yields drawAmount Hundredths :=
  (Random.below_lt (by decide) (by decide)).bind fun n hn => Random.Yields.pure ⟨n, hn, rfl⟩

/-- The fields of a row in the order in which they are drawn. -/
def drawRowBy (amounts : Random.Draw UInt64) (texts : Random.Draw String) (createdAt key : Int64) :
    Random.Draw Row := do
  let amount ← amounts
  let name ← texts
  let tag ← texts
  return ⟨key, amount, createdAt, name, tag⟩

/-- The row of a key whose texts come from any two distributions. -/
def generateBy (lengths : Random.Draw Nat) (letter : Random.Draw Char) (createdAt key : Int64) : Row :=
  Random.value (drawRowBy drawAmount (drawTextBy lengths letter) createdAt key) (Random.seeded key.toUInt64)

section
variable (amounts : Random.Draw UInt64) (texts : Random.Draw String) (createdAt other key : Int64)
  (g : Random.Generator)

-- These two hold by computing, which is safe as long as the draws are variables: those of the program would
-- be run.
theorem value_fields :
    (have fields : Random.Draw Row := do
      let amount ← amounts
      let name ← texts
      let tag ← texts
      return ⟨key, amount, createdAt, name, tag⟩
    (fields.run g).1) = Random.value (drawRowBy amounts texts createdAt key) g :=
  rfl

theorem value_drawRowBy : Random.value (drawRowBy amounts texts createdAt key) g =
    { Random.value (drawRowBy amounts texts other key) g with createdAt := createdAt } :=
  rfl

end

theorem drawText_eq_drawTextBy :
    drawText = drawTextBy (Random.rank maxTextLength) (Random.characterWithin 4096) := by
  rw [drawText, drawTextBy, Random.characters_eq_repeated]

theorem generate_eq_generateBy :
    generate = generateBy (Random.rank maxTextLength) (Random.characterWithin 4096) := by
  delta generate
  funext createdAt key
  rw [generateBy, ← drawText_eq_drawTextBy, ← value_fields]

section
variable {lengths : Random.Draw Nat} {letter : Random.Draw Char}

theorem generateBy_createdAt (createdAt other key : Int64) :
    generateBy lengths letter createdAt key =
      { generateBy lengths letter other key with createdAt := createdAt } := by
  rw [generateBy, generateBy]
  exact value_drawRowBy drawAmount (drawTextBy lengths letter) createdAt other key _

theorem drawTextBy_label (hlengths : Random.Yields lengths fun n => 1 ≤ n ∧ n ≤ maxTextLength)
    (hletter : Random.Yields letter fun c => c.isAlphanum) :
    Random.Yields (drawTextBy lengths letter) Label := by
  refine hlengths.bind fun n hn => (Random.repeated_yields hletter n).bind fun cs hcs =>
    Random.Yields.pure ⟨?_, ?_⟩
  · rwa [String.length_ofList, hcs.1]
  · rw [String.toList_ofList]
    exact hcs.2

/-- What the draws of a row make of it. -/
structure Drawn (createdAt key : Int64) (row : Row) : Prop where
  id : row.id = key
  createdAt : row.createdAt = createdAt
  amount : Hundredths row.amount
  name : Label row.name
  tag : Label row.tag

theorem drawRowBy_drawn (hlengths : Random.Yields lengths fun n => 1 ≤ n ∧ n ≤ maxTextLength)
    (hletter : Random.Yields letter fun c => c.isAlphanum) (createdAt key : Int64) :
    Random.Yields (drawRowBy drawAmount (drawTextBy lengths letter) createdAt key) (Drawn createdAt key) := by
  have htext := drawTextBy_label hlengths hletter
  refine drawAmount_hundredths.bind fun amount hamount => htext.bind fun name hname =>
    htext.bind fun tag htag => Random.Yields.pure ?_
  exact ⟨rfl, rfl, hamount, hname, htag⟩

theorem generateBy_drawn (hlengths : Random.Yields lengths fun n => 1 ≤ n ∧ n ≤ maxTextLength)
    (hletter : Random.Yields letter fun c => c.isAlphanum) (createdAt key : Int64) :
    Drawn createdAt key (generateBy lengths letter createdAt key) := by
  rw [generateBy]
  exact drawRowBy_drawn hlengths hletter createdAt key _

end

/-! ## Bytes -/

theorem Drawn.short {createdAt key : Int64} {row : Row} (h : Drawn createdAt key row) : row.Short := by
  have hname := h.name.length
  have htag := h.tag.length
  rw [Short, h.name.utf8ByteSize, h.tag.utf8ByteSize]
  simp only [maxTextLength] at hname htag
  omega

theorem Drawn.length_encode {createdAt key : Int64} {row : Row} (h : Drawn createdAt key row) :
    28 ≤ row.encode.length ∧ row.encode.length ≤ 90 := by
  have hname := h.name.length
  have htag := h.tag.length
  rw [Row.length_encode, h.name.utf8ByteSize, h.tag.utf8ByteSize]
  simp only [maxTextLength] at hname htag
  omega

theorem encode_eq_words (row : Row) :
    row.encode = (Bytes.ofWord row.id.toUInt64 ++ Bytes.ofWord row.amount) ++
      (Bytes.ofWord row.createdAt.toUInt64 ++ (Bytes.ofText row.name ++ Bytes.ofText row.tag)) := by
  simp only [encode, List.append_assoc]

theorem encode_word_createdAt (row : Row) :
    (row.encode.drop 16).take 8 = Bytes.ofWord row.createdAt.toUInt64 := by
  rw [encode_eq_words, List.drop_left' (by simp), List.take_left' (by simp)]

theorem getElem?_append_middle {α : Type} {front middle middle' rest : List α} {i : Nat}
    (hlen : middle.length = middle'.length) (hi : i < front.length ∨ front.length + middle.length ≤ i) :
    (front ++ (middle ++ rest))[i]? = (front ++ (middle' ++ rest))[i]? := by
  rcases hi with hlt | hge
  · rw [List.getElem?_append_left hlt, List.getElem?_append_left hlt]
  · have hfront : front.length ≤ i := by omega
    have hmiddle : middle.length ≤ i - front.length := by omega
    rw [List.getElem?_append_right hfront, List.getElem?_append_right hfront,
      List.getElem?_append_right hmiddle, List.getElem?_append_right (hlen ▸ hmiddle), hlen]

theorem encode_getElem?_createdAt (row : Row) (createdAt : Int64) {i : Nat} (hi : i < 16 ∨ 24 ≤ i) :
    ({ row with createdAt := createdAt } : Row).encode[i]? = row.encode[i]? := by
  rw [encode_eq_words, encode_eq_words]
  apply getElem?_append_middle
  · rw [Bytes.length_ofWord, Bytes.length_ofWord]
  · rwa [List.length_append, Bytes.length_ofWord, Bytes.length_ofWord, Bytes.length_ofWord]

theorem ofWord_createdAt_ne {createdAt other : Int64} (h : createdAt ≠ other) :
    Bytes.ofWord createdAt.toUInt64 ≠ Bytes.ofWord other.toUInt64 := by
  intro he
  have hwords := congrArg (UInt64.toInt64 ∘ Bytes.toWord) he
  simp only [Function.comp_apply, Bytes.toWord_ofWord, Int64.toInt64_toUInt64] at hwords
  exact h hwords

/-- Rows, one for every time of creation and key, that are well formed, are read back from their bytes,
and whose bytes depend on the time of creation in their third word only. -/
structure Storable (rows : Int64 → Int64 → Row) : Prop where
  id : ∀ createdAt key, (rows createdAt key).id = key
  createdAt : ∀ createdAt key, (rows createdAt key).createdAt = createdAt
  amount : ∀ createdAt key, ∃ n : UInt64, n < 1000000 ∧
    (rows createdAt key).amount = (n.toFloat / 100.0).toBits
  name : ∀ createdAt key, Label (rows createdAt key).name
  tag : ∀ createdAt key, Label (rows createdAt key).tag
  length : ∀ createdAt key buffer, 28 ≤ ((rows createdAt key).encodeInto buffer).length ∧
    ((rows createdAt key).encodeInto buffer).length ≤ 90
  read_back : ∀ createdAt key buffer,
    decode ((rows createdAt key).encodeInto buffer) = .ok (rows createdAt key)
  same_bytes : ∀ createdAt other key i, i < 16 ∨ 24 ≤ i →
    (rows createdAt key).encode[i]? = (rows other key).encode[i]?
  time_bytes : ∀ createdAt key,
    ((rows createdAt key).encode.drop 16).take 8 = Bytes.ofWord createdAt.toUInt64
  other_time : ∀ createdAt other key, createdAt ≠ other →
    ((rows createdAt key).encode.drop 16).take 8 ≠ ((rows other key).encode.drop 16).take 8

theorem storable_of_drawn {rows : Int64 → Int64 → Row}
    (hdrawn : ∀ createdAt key, Drawn createdAt key (rows createdAt key))
    (htime : ∀ createdAt other key,
      rows createdAt key = { rows other key with createdAt := createdAt }) : Storable rows := by
  have hword : ∀ createdAt key,
      ((rows createdAt key).encode.drop 16).take 8 = Bytes.ofWord createdAt.toUInt64 := by
    intro createdAt key
    rw [encode_word_createdAt, (hdrawn createdAt key).createdAt]
  constructor
  case id => exact fun createdAt key => (hdrawn createdAt key).id
  case createdAt => exact fun createdAt key => (hdrawn createdAt key).createdAt
  case amount => exact fun createdAt key => (hdrawn createdAt key).amount
  case name => exact fun createdAt key => (hdrawn createdAt key).name
  case tag => exact fun createdAt key => (hdrawn createdAt key).tag
  case length =>
    intro createdAt key buffer
    rw [encodeInto_eq_encode]
    exact (hdrawn createdAt key).length_encode
  case read_back =>
    intro createdAt key buffer
    have hread := decode_encode_append (hdrawn createdAt key).short []
    rwa [List.append_nil, ← encodeInto_eq_encode _ buffer] at hread
  case same_bytes =>
    intro createdAt other key i hi
    rw [htime createdAt other key]
    exact encode_getElem?_createdAt _ _ hi
  case time_bytes => exact hword
  case other_time =>
    intro createdAt other key hne
    rw [hword, hword]
    exact ofWord_createdAt_ne hne

/-- Generated rows are well formed and can be stored. That does not depend on how the lengths and the
characters of the texts are distributed, as long as the lengths are ranks up to the greatest one and the
characters letters and digits. -/
theorem generated_storable :
    generate = generateBy (Random.rank maxTextLength) (Random.characterWithin 4096) ∧
    Storable generate ∧
    ∀ (lengths : Random.Draw Nat) (letter : Random.Draw Char),
      (Random.Yields lengths fun n => 1 ≤ n ∧ n ≤ maxTextLength) →
      (Random.Yields letter fun c => c.isAlphanum) → Storable (generateBy lengths letter) := by
  have hany (lengths letter) (hlengths : Random.Yields lengths fun n => 1 ≤ n ∧ n ≤ maxTextLength)
      (hletter : Random.Yields letter fun c => c.isAlphanum) : Storable (generateBy lengths letter) :=
    storable_of_drawn (generateBy_drawn hlengths hletter) generateBy_createdAt
  refine ⟨generate_eq_generateBy, ?_, hany⟩
  rw [generate_eq_generateBy]
  exact hany _ _ (Random.rank_bounds (by decide)) (Random.characterWithin_isAlphanum 4096)

/-- The distributions that are drawn from are such. -/
theorem generated_storable_of_ranks :
    (Random.Yields (Random.rank maxTextLength) fun n => 1 ≤ n ∧ n ≤ maxTextLength) ∧
    (Random.Yields (Random.characterWithin 4096) fun c => c.isAlphanum) ∧
    Storable (generateBy (Random.rank maxTextLength) (Random.characterWithin 4096)) := by
  have hlengths : Random.Yields (Random.rank maxTextLength) fun n => 1 ≤ n ∧ n ≤ maxTextLength :=
    Random.rank_bounds (by decide)
  have hletter := Random.characterWithin_isAlphanum 4096
  exact ⟨hlengths, hletter, generated_storable.2.2 _ _ hlengths hletter⟩

end Row
end InsertBench
