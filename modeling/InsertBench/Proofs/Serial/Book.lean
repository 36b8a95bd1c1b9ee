import InsertBench.Store.Contract
import Mathlib.Data.List.Basic
import Mathlib.Logic.Function.Basic

/-! # One transaction at a time

What a client may do that has at most one transaction open in the whole store, and what it may expect.
A book keeps no rows, only their keys. It says which inserts are accepted and which are refused, and how
many rows each table has.
-/
namespace InsertBench.Serial

inductive Use
  | call (seat : Nat) (request : Request)
  | count (table : String)
deriving DecidableEq

/-- What an answer comes to, in whatever words a store gives it. There is none for a conflict. -/
inductive Kind
  | accepted
  | duplicate (key : Int64)
  | counted (rows : UInt64)
deriving DecidableEq

structure Txn where
  /-- The keys of the rows that it inserted, latest first. -/
  added : List Int64
  prepared : Bool
deriving DecidableEq

structure Session where
  table : String
  txn : Option Txn
deriving DecidableEq

def Session.added (session : Session) : List Int64 := session.txn.elim [] Txn.added

structure Book where
  sessions : Nat → Option Session
  /-- The keys of the committed rows of each table. -/
  committed : String → List Int64
  /-- The seat of the live transaction. -/
  live : Option Nat

def blank : Book := ⟨fun _ => none, fun _ => [], none⟩

namespace Book

def txn? (b : Book) (seat : Nat) : Option Txn := b.sessions seat >>= Session.txn

/-- Whether a use keeps to one transaction at a time: sessions are opened and transactions begun only
while none is live, and a transaction that is prepared neither prepares again nor inserts. -/
def Allows (b : Book) : Use → Prop
  | .call seat (.openSession table) => table ≠ "" ∧ b.sessions seat = none ∧ b.live = none
  | .call seat .beginTxn => (b.sessions seat).isSome ∧ b.live = none
  | .call seat (.insert _ _) | .call seat (.prepare _) => ∃ txn ∈ b.txn? seat, txn.prepared = false
  | .call seat .commit | .call seat .abort | .call seat .dropTxn => (b.txn? seat).isSome
  | .call seat .close | .call seat .dropSession => ∃ session ∈ b.sessions seat, session.txn = none
  | .count table => table ≠ ""

instance (b : Book) : DecidablePred b.Allows
  | .call _ (.openSession _) => inferInstanceAs (Decidable (_ ∧ _ ∧ _))
  | .call _ .beginTxn => inferInstanceAs (Decidable (_ ∧ _))
  | .call seat (.insert _ _) | .call seat (.prepare _) =>
    inferInstanceAs (Decidable (∃ txn ∈ b.txn? seat, txn.prepared = false))
  | .call seat .commit | .call seat .abort | .call seat .dropTxn =>
    inferInstanceAs (Decidable ((b.txn? seat).isSome = true))
  | .call seat .close | .call seat .dropSession =>
    inferInstanceAs (Decidable (∃ session ∈ b.sessions seat, session.txn = none))
  | .count table => inferInstanceAs (Decidable (table ≠ ""))

/-- Whether a key is committed in the table of a session or was inserted by its transaction. -/
def Taken (b : Book) (seat : Nat) (key : Int64) : Prop :=
  ∃ session ∈ b.sessions seat, key ∈ session.added ∨ key ∈ b.committed session.table

instance (b : Book) (seat : Nat) (key : Int64) : Decidable (b.Taken seat key) :=
  inferInstanceAs (Decidable (∃ session ∈ b.sessions seat, _))

def count (b : Book) (table : String) : UInt64 := (b.committed table).length.toUInt64

def reply (b : Book) : Use → Kind
  | .call seat (.insert key _) => if b.Taken seat key then .duplicate key else .accepted
  | .call _ _ => .accepted
  | .count table => .counted (b.count table)

def seatAt (b : Book) (seat : Nat) (session : Option Session) : Book :=
  { b with sessions := Function.update b.sessions seat session }

def setTxn (b : Book) (seat : Nat) (txn : Option Txn) : Book :=
  b.seatAt seat ((b.sessions seat).map fun session => { session with txn })

def enter (b : Book) (session : Session) : Book :=
  let keys := session.added ++ b.committed session.table
  { b with committed := Function.update b.committed session.table keys }

@[simp] theorem sessions_seatAt (b : Book) (seat other : Nat) (session : Option Session) :
    (b.seatAt seat session).sessions other = if seat = other then session else b.sessions other := by
  simp only [seatAt, Function.update_apply, eq_comm]

@[simp] theorem committed_enter (b : Book) (session : Session) (table : String) :
    (b.enter session).committed table =
      if session.table = table then session.added ++ b.committed session.table else b.committed table := by
  simp only [enter, Function.update_apply, eq_comm]

def finish (b : Book) (seat : Nat) : Book := { b.setTxn seat none with live := none }

def after (b : Book) : Use → Book
  | .call seat (.openSession table) => b.seatAt seat (some ⟨table, none⟩)
  | .call seat .beginTxn => { b.setTxn seat (some ⟨[], false⟩) with live := some seat }
  | .call seat (.insert key _) =>
    if b.Taken seat key then b
    else b.setTxn seat ((b.txn? seat).map fun txn => { txn with added := key :: txn.added })
  | .call seat (.prepare _) => b.setTxn seat ((b.txn? seat).map fun txn => { txn with prepared := true })
  | .call seat .commit => ((b.sessions seat).elim b b.enter).finish seat
  | .call seat .abort | .call seat .dropTxn => b.finish seat
  | .call seat .close | .call seat .dropSession => b.seatAt seat none
  | .count _ => b

end Book

/-- Uses of which each keeps to one transaction at a time. -/
def Disciplined (b : Book) : List Use → Prop
  | [] => True
  | use :: rest => b.Allows use ∧ Disciplined (b.after use) rest

instance Disciplined.decidable (b : Book) : DecidablePred (Disciplined b)
  | [] => .isTrue trivial
  | use :: rest =>
    have := decidable (b.after use) rest
    inferInstanceAs (Decidable (b.Allows use ∧ Disciplined (b.after use) rest))

namespace Book

/-- What a use finds in a book, the kind of answer that it gets, and the book after it. -/
inductive Turn (b : Book) : Use → Kind → Book → Prop
  | opened {seat : Nat} {table : String} (named : table ≠ "") (free : b.sessions seat = none)
      (quiet : b.live = none) :
      Turn b (.call seat (.openSession table)) .accepted (b.seatAt seat (some ⟨table, none⟩))
  | begun {seat : Nat} {table : String} (idle : b.sessions seat = some ⟨table, none⟩)
      (quiet : b.live = none) :
      Turn b (.call seat .beginTxn) .accepted
        { b.seatAt seat (some ⟨table, some ⟨[], false⟩⟩) with live := some seat }
  | refused {seat : Nat} {table : String} {txn : Txn} {key : Int64} {value : Bytes}
      (here : b.sessions seat = some ⟨table, some txn⟩) (unprepared : txn.prepared = false)
      (taken : key ∈ txn.added ∨ key ∈ b.committed table) :
      Turn b (.call seat (.insert key value)) (.duplicate key) b
  | inserted {seat : Nat} {table : String} {txn : Txn} {key : Int64} {value : Bytes}
      (here : b.sessions seat = some ⟨table, some txn⟩) (unprepared : txn.prepared = false)
      (new : key ∉ txn.added) (absent : key ∉ b.committed table) :
      Turn b (.call seat (.insert key value)) .accepted
        (b.seatAt seat (some ⟨table, some { txn with added := key :: txn.added }⟩))
  | prepared {seat : Nat} {table : String} {txn : Txn} {id : UInt64}
      (here : b.sessions seat = some ⟨table, some txn⟩) (unprepared : txn.prepared = false) :
      Turn b (.call seat (.prepare id)) .accepted
        (b.seatAt seat (some ⟨table, some { txn with prepared := true }⟩))
  | committed {seat : Nat} {table : String} {txn : Txn}
      (here : b.sessions seat = some ⟨table, some txn⟩) :
      Turn b (.call seat .commit) .accepted
        { (b.enter ⟨table, some txn⟩).seatAt seat (some ⟨table, none⟩) with live := none }
  | rolledBack {seat : Nat} {table : String} {txn : Txn} {request : Request}
      (here : b.sessions seat = some ⟨table, some txn⟩) (ends : request = .abort ∨ request = .dropTxn) :
      Turn b (.call seat request) .accepted { b.seatAt seat (some ⟨table, none⟩) with live := none }
  | closed {seat : Nat} {table : String} {request : Request}
      (idle : b.sessions seat = some ⟨table, none⟩) (ends : request = .close ∨ request = .dropSession) :
      Turn b (.call seat request) .accepted (b.seatAt seat none)
  | counted {table : String} (named : table ≠ "") : Turn b (.count table) (.counted (b.count table)) b

/-- The live seat is the one with a transaction in its session, and no key is entered twice. -/
structure WellKept (b : Book) : Prop where
  live (seat : Nat) : b.live = some seat ↔ ∃ table txn, b.sessions seat = some ⟨table, some txn⟩
  distinct (table : String) : (b.committed table).Nodup
  fresh {seat : Nat} {table : String} {txn : Txn} :
    b.sessions seat = some ⟨table, some txn⟩ → (txn.added ++ b.committed table).Nodup

variable {b c : Book} {use : Use} {kind : Kind} {seat : Nat} {table : String} {txn : Txn}

theorem seatAt_self {session : Option Session} (here : b.sessions seat = session) :
    b.seatAt seat session = b := by
  rw [seatAt, ← here, Function.update_eq_self]

theorem session_of_seatAt {session : Option Session} {other : Nat} {found : Session}
    (h : (b.seatAt seat session).sessions other = some found) :
    seat = other ∧ session = some found ∨ seat ≠ other ∧ b.sessions other = some found := by
  rw [sessions_seatAt] at h
  split at h
  · rename_i he
    exact .inl ⟨he, h⟩
  · rename_i hne
    exact .inr ⟨hne, h⟩

theorem WellKept.live_here (h : b.WellKept) (here : b.sessions seat = some ⟨table, some txn⟩) :
    b.live = some seat := (h.live seat).mpr ⟨table, txn, here⟩

theorem WellKept.only (h : b.WellKept) (here : b.sessions seat = some ⟨table, some txn⟩) {other : Nat}
    (hother : b.live = some other) : seat = other :=
  Option.some.inj ((h.live_here here).symm.trans hother)

theorem WellKept.not_live (h : b.WellKept) (idle : ∀ table txn, b.sessions seat ≠ some ⟨table, some txn⟩) :
    b.live ≠ some seat := by
  intro hf
  obtain ⟨table, txn, here⟩ := (h.live seat).mp hf
  exact idle table txn here

theorem txn?_eq_some_iff : b.txn? seat = some txn ↔ ∃ table, b.sessions seat = some ⟨table, some txn⟩ := by
  unfold txn?
  cases b.sessions seat with
  | none => simp
  | some session =>
    obtain ⟨table, open?⟩ := session
    simp

theorem setTxn_of_session {open? : Option Txn} (here : b.sessions seat = some ⟨table, open?⟩)
    (next : Option Txn) : b.setTxn seat next = b.seatAt seat (some ⟨table, next⟩) := by
  simp [setTxn, here]

theorem finish_of_session {open? : Option Txn} (here : b.sessions seat = some ⟨table, open?⟩) :
    b.finish seat = { b.seatAt seat (some ⟨table, none⟩) with live := none } := by
  rw [finish, setTxn_of_session here]

theorem taken_iff (here : b.sessions seat = some ⟨table, some txn⟩) (key : Int64) :
    b.Taken seat key ↔ key ∈ txn.added ∨ key ∈ b.committed table := by
  simp [Taken, here, Session.added]

/-- Every use that keeps to one transaction at a time is one of those listed. -/
theorem WellKept.turn_of_allows (h : b.WellKept) (ha : b.Allows use) :
    Turn b use (b.reply use) (b.after use) := by
  cases use with
  | count table => exact .counted ha
  | call seat request =>
    cases request with
    | openSession table => exact .opened ha.1 ha.2.1 ha.2.2
    | beginTxn =>
      obtain ⟨⟨table, open?⟩, here⟩ := Option.isSome_iff_exists.mp ha.1
      cases open? with
      | none =>
        change Turn b _ .accepted { b.setTxn seat (some ⟨[], false⟩) with live := some seat }
        rw [setTxn_of_session here]
        exact .begun here ha.2
      | some txn => cases (h.live_here here).symm.trans ha.2
    | insert key value =>
      obtain ⟨txn, htxn, unprepared⟩ := ha
      obtain ⟨table, here⟩ := txn?_eq_some_iff.mp htxn
      by_cases htaken : b.Taken seat key
      · rw [reply, after, if_pos htaken, if_pos htaken]
        exact .refused here unprepared ((taken_iff here key).mp htaken)
      · rw [reply, after, if_neg htaken, if_neg htaken, setTxn_of_session here, htxn]
        rw [taken_iff here, not_or] at htaken
        exact .inserted here unprepared htaken.1 htaken.2
    | prepare id =>
      obtain ⟨txn, htxn, unprepared⟩ := ha
      obtain ⟨table, here⟩ := txn?_eq_some_iff.mp htxn
      change Turn b _ .accepted (b.setTxn seat ((b.txn? seat).map fun txn => { txn with prepared := true }))
      rw [setTxn_of_session here, htxn]
      exact .prepared here unprepared
    | commit =>
      obtain ⟨txn, htxn⟩ := Option.isSome_iff_exists.mp ha
      obtain ⟨table, here⟩ := txn?_eq_some_iff.mp htxn
      change Turn b _ .accepted (((b.sessions seat).elim b b.enter).finish seat)
      rw [here, Option.elim_some, finish_of_session (b := b.enter ⟨table, some txn⟩) here]
      exact .committed here
    | abort =>
      obtain ⟨txn, htxn⟩ := Option.isSome_iff_exists.mp ha
      obtain ⟨table, here⟩ := txn?_eq_some_iff.mp htxn
      change Turn b _ .accepted (b.finish seat)
      rw [finish_of_session here]
      exact .rolledBack here (.inl rfl)
    | dropTxn =>
      obtain ⟨txn, htxn⟩ := Option.isSome_iff_exists.mp ha
      obtain ⟨table, here⟩ := txn?_eq_some_iff.mp htxn
      change Turn b _ .accepted (b.finish seat)
      rw [finish_of_session here]
      exact .rolledBack here (.inr rfl)
    | close =>
      obtain ⟨⟨table, open?⟩, here, rfl⟩ := ha
      exact .closed here (.inl rfl)
    | dropSession =>
      obtain ⟨⟨table, open?⟩, here, rfl⟩ := ha
      exact .closed here (.inr rfl)

theorem wellKept_blank : blank.WellKept where
  live seat := by simp [blank]
  distinct _ := List.nodup_nil
  fresh hf := by cases hf

theorem WellKept.seatAt (h : b.WellKept) {session : Option Session} {live : Option Nat}
    (hlive : live = some seat ↔ ∃ table txn, session = some ⟨table, some txn⟩)
    (hother : ∀ other, seat ≠ other → (live = some other ↔ b.live = some other))
    (hfresh : ∀ table txn, session = some ⟨table, some txn⟩ → (txn.added ++ b.committed table).Nodup) :
    WellKept { b.seatAt seat session with live } where
  live other := by
    change live = some other ↔ ∃ table txn, (b.seatAt seat session).sessions other = some ⟨table, some txn⟩
    rw [sessions_seatAt]
    split
    · rename_i he
      exact he ▸ hlive
    · rename_i hne
      rw [hother other hne, h.live]
  distinct := h.distinct
  fresh {other table txn} hf := by
    rcases session_of_seatAt hf with ⟨_, hmine⟩ | ⟨_, hold⟩
    · exact hfresh table txn hmine
    · exact h.fresh hold

theorem WellKept.enter (h : b.WellKept) (quiet : b.live = none) (session : Session)
    (hfresh : (session.added ++ b.committed session.table).Nodup) : (b.enter session).WellKept where
  live := h.live
  distinct table := by
    rw [committed_enter]
    split
    · exact hfresh
    · exact h.distinct table
  fresh hf := by cases (h.live_here hf).symm.trans quiet

theorem WellKept.setTxn (h : b.WellKept) (here : b.sessions seat = some ⟨table, some txn⟩) {next : Txn}
    (hfresh : (next.added ++ b.committed table).Nodup) :
    (b.seatAt seat (some ⟨table, some next⟩)).WellKept := by
  refine h.seatAt ?_ (fun _ _ => .rfl) ?_
  · simp [h.live_here here]
  · intro _ _ hf
    cases hf
    exact hfresh

theorem WellKept.seatIdle (h : b.WellKept) {session : Option Session}
    (hbefore : ∀ table txn, b.sessions seat ≠ some ⟨table, some txn⟩)
    (hafter : ∀ table txn, session ≠ some ⟨table, some txn⟩) : (b.seatAt seat session).WellKept := by
  refine h.seatAt ?_ (fun _ _ => .rfl) (fun table txn hf => absurd hf (hafter table txn))
  simp [h.not_live hbefore, hafter]

theorem WellKept.ended (h : b.WellKept) (here : b.sessions seat = some ⟨table, some txn⟩) :
    WellKept { b.seatAt seat (some ⟨table, none⟩) with live := none } := by
  refine h.seatAt (by simp) ?_ (fun _ _ hf => by cases hf)
  intro other hne
  simp only [reduceCtorEq, false_iff]
  exact fun hf => hne (h.only here hf)

theorem WellKept.turn (h : b.WellKept) (ht : Turn b use kind c) : c.WellKept := by
  cases ht with
  | opened _ free _ => exact h.seatIdle (by simp [free]) (by simp)
  | @begun seat table _ quiet =>
    refine h.seatAt (by simp) ?_ ?_
    · intro other hne
      simp [quiet, hne]
    · intro _ _ hf
      cases hf
      exact h.distinct table
  | refused _ _ _ => exact h
  | inserted here _ new absent =>
    exact h.setTxn here (List.nodup_cons.mpr ⟨by simp [new, absent], h.fresh here⟩)
  | prepared here _ => exact h.setTxn here (h.fresh here :)
  | @committed seat table txn here => exact (h.ended here).enter rfl ⟨table, some txn⟩ (h.fresh here)
  | rolledBack here _ => exact h.ended here
  | closed idle _ => exact h.seatIdle (by simp [idle]) (by simp)
  | counted _ => exact h

end Book

end InsertBench.Serial
