import InsertBench.Proofs.Serial.Book
import Std.Data.ExtTreeMap

/-! # Stores that keep to a book

A store keeps to a book if some relation of the two survives every use that the book allows, and the
answers on the way are of the kinds that the book has. Each store has such a relation of its own.
-/
namespace InsertBench.Serial

def repeated? : Failure → Option Int64
  | .duplicateKey key | .duplicateKeyWithin key _ => some key
  | _ => none

variable {σ : Type} {st : Store σ} {R : Book → σ → Prop} {b : Book} {s t : σ} {use : Use}

/-- A store answers a use at once, with an answer of some kind. -/
inductive Gives (st : Store σ) (s : σ) : Use → Kind → σ → Prop
  | accepted {seat : Nat} {request : Request} {t : σ}
      (reply : st.call s seat request = some (.ok .accepted, t)) :
      Gives st s (.call seat request) .accepted t
  | duplicate {seat : Nat} {request : Request} {failure : Failure} {key : Int64} {t : σ}
      (reply : st.call s seat request = some (.error (.failed failure), t))
      (words : repeated? failure = some key) : Gives st s (.call seat request) (.duplicate key) t
  | counted {table : String} {rows : UInt64} {t : σ} (reply : st.rowCount s table = (.ok rows, t)) :
      Gives st s (.count table) (.counted rows) t

/-- Every table that has a name counts as many rows in the store as in the book. -/
def CountsAs (st : Store σ) (s : σ) (b : Book) : Prop :=
  ∀ table, table ≠ "" → st.rowCount s table = (.ok (b.count table), s)

/-- The relation lasts whatever a book allows, and what it relates answers and counts alike. -/
structure Refines (st : Store σ) (R : Book → σ → Prop) : Prop where
  call {b : Book} {s : σ} {seat : Nat} {request : Request} {kind : Kind} {c : Book} : R b s → b.WellKept →
    b.Turn (.call seat request) kind c → ∃ t, Gives st s (.call seat request) kind t ∧ R c t
  counts {b : Book} {s : σ} : R b s → b.WellKept → CountsAs st s b

/-- What a store that keeps to a book does with a use that the book allows. -/
theorem Refines.gives (h : Refines st R) (hs : R b s) (hb : b.WellKept) (ha : b.Allows use) :
    ∃ t, Gives st s use (b.reply use) t ∧ R (b.after use) t := by
  have hturn := hb.turn_of_allows ha
  cases use with
  | call seat request => exact h.call hs hb hturn
  | count table => exact ⟨s, .counted (h.counts hs hb table ha), hs⟩

/-- What a store and a book have at one seat: sessions on the same table, with transactions of which a
relation says that they are the same. -/
inductive Seated {σ τ : Type} (session : String → Option τ → σ) (Same : String → τ → Txn → Prop) :
    Option σ → Option Session → Prop
  | free : Seated session Same none none
  | idle (table : String) : Seated session Same (some (session table none)) (some ⟨table, none⟩)
  | busy {table : String} {own : τ} {txn : Txn} (same : Same table own txn) :
      Seated session Same (some (session table (some own))) (some ⟨table, some txn⟩)

section Seats

variable {τ : Type} {session : String → Option τ → σ} {Same More : String → τ → Txn → Prop} {mine : Option σ}
  {yours : Option Session} {table : String} {txn : Txn}

theorem Seated.eq_none (h : Seated session Same mine none) : mine = none := by
  cases h
  rfl

theorem Seated.eq_idle (h : Seated session Same mine (some ⟨table, none⟩)) :
    mine = some (session table none) := by
  cases h
  rfl

theorem Seated.eq_busy (h : Seated session Same mine (some ⟨table, some txn⟩)) :
    ∃ own, mine = some (session table (some own)) ∧ Same table own txn := by
  cases h with
  | busy same => exact ⟨_, rfl, same⟩

theorem Seated.mono (h : Seated session Same mine yours)
    (hmore : ∀ table own txn, Same table own txn → More table own txn) : Seated session More mine yours := by
  cases h with
  | free => exact .free
  | idle table => exact .idle table
  | busy same => exact .busy (hmore _ _ _ same)

end Seats

theorem size_eq_length {α β : Type} [Ord α] [Std.TransOrd α] [Std.LawfulEqOrd α]
    {rows : Std.ExtTreeMap α β} {keys : List α} (hdistinct : keys.Nodup)
    (hkeys : ∀ key, key ∈ rows ↔ key ∈ keys) : rows.size = keys.length := by
  rw [← Std.ExtTreeMap.length_keys]
  apply List.Perm.length_eq
  rw [List.perm_ext_iff_of_nodup Std.ExtTreeMap.nodup_keys hdistinct]
  simp [hkeys]

end InsertBench.Serial
