import InsertBench.Proofs.Attentive.Basic
import InsertBench.Proofs.Commit.Buffered
import InsertBench.Proofs.Serial.RowLocks
import InsertBench.Proofs.Serial.SingleWriter
import InsertBench.Store.Engine

/-! # The stores are attentive

A session on a table is what a seat of each store holds, and with row locks or buffered writes its
transaction as well. With a single writer only the seat of the writer holds a transaction, so that nobody
has to wait while no other seat holds one.
-/
namespace InsertBench

/-- What a seat holds that has a session with a transaction or none, or no session at all. -/
inductive Holding.Of {α β : Type} (session : String → Option β → α) (Live : β → Prop) :
    Option α → Holding → Prop
  | nothing : Of session Live none .nothing
  | session (table : String) : Of session Live (some (session table none)) .session
  | transaction {table : String} {txn : β} (live : Live txn) :
      Of session Live (some (session table (some txn))) .transaction

section Of

variable {α β : Type} {session : String → Option β → α} {Live : β → Prop} {held : Option α} {now : Holding}

theorem Holding.Of.eq_none (h : Of session Live held .nothing) : held = none := by
  cases h
  rfl

theorem Holding.Of.eq_session (h : Of session Live held .session) :
    ∃ table, held = some (session table none) := by
  cases h with
  | session table => exact ⟨table, rfl⟩

theorem Holding.Of.eq_transaction (h : Of session Live held .transaction) :
    ∃ table txn, held = some (session table (some txn)) ∧ Live txn := by
  cases h with
  | transaction live => exact ⟨_, _, rfl, live⟩

end Of

namespace RowLocks

structure Occupied (s : RowLocks) (holding : Nat → Holding) : Prop where
  sound : Sound s
  seats (seat : Nat) : Holding.Of Session.mk (·.phase = .live) s.sessions[seat]? (holding seat)

variable {s t : RowLocks} {seat : Nat} {holding : Nat → Holding} {session : Option Session} {name : String}
  {table : Table} {next : Holding}

theorem occupied_empty : Occupied empty fun _ => .nothing where
  sound := quiescent_empty.sound
  seats seat := by simp [quiescent_empty.sessions, Holding.Of.nothing]

theorem Occupied.becomes (h : Occupied s holding) (ht : Sound t) (hb : Becomes s seat session name table t)
    (hnext : Holding.Of Session.mk (·.phase = .live) session next) :
    Occupied t (Function.update holding seat next) where
  sound := ht
  seats other := by
    rw [hb.sessions, Function.update_apply]
    by_cases he : seat = other
    · rw [if_pos he, if_pos he.symm]
      exact hnext
    · rw [if_neg he, if_neg (Ne.symm he)]
      exact h.seats other

theorem Occupied.free (h : Occupied s holding) (hnow : holding seat = .nothing) : s.sessions[seat]? = none :=
  (hnow ▸ h.seats seat).eq_none

theorem Occupied.idle (h : Occupied s holding) (hnow : holding seat = .session) :
    ∃ name, s.sessions[seat]? = some ⟨name, none⟩ :=
  (hnow ▸ h.seats seat).eq_session

theorem Occupied.txn (h : Occupied s holding) (hnow : holding seat = .transaction) :
    ∃ name txn, s.sessions[seat]? = some ⟨name, some txn⟩ ∧ txn.phase = .live :=
  (hnow ▸ h.seats seat).eq_transaction

theorem Occupied.inserted (h : Occupied s holding) (hnow : holding seat = .transaction) (key : Int64)
    (value : Bytes) : ∃ reply t, s.call seat (.insert key value) = some (reply, t) ∧
      Occupied t (Function.update holding seat .transaction) := by
  obtain ⟨name, txn, here, live⟩ := h.txn hnow
  obtain ⟨reply, t, _, _, _, hs, ht, heffect, hb⟩ := h.sound.performs seat (.insert key value)
    (isSome_insert here live key value)
  refine ⟨reply, t, call_of_step rfl hs, h.becomes ht hb ?_⟩
  cases heffect with
  | inserted _ still _ _ _ => exact .transaction still
  | declined _ still _ => exact .transaction still

theorem Occupied.prepared (h : Occupied s holding) (hnow : holding seat = .transaction) (id : UInt64) :
    ∃ reply t, s.call seat (.prepare id) = some (reply, t) ∧
      Occupied t (Function.update holding seat .transaction) := by
  obtain ⟨name, txn, here, live⟩ := h.txn hnow
  obtain ⟨reply, t, _, _, _, hs, ht, heffect, hb⟩ := h.sound.performs seat .prepare
    (isSome_prepare here live)
  refine ⟨reply, t, call_of_step rfl hs, h.becomes ht hb ?_⟩
  cases heffect with
  | prepared _ still _ => exact .transaction still
  | preparedBefore _ still _ => exact .transaction still

theorem Occupied.committed (h : Occupied s holding) (hnow : holding seat = .transaction) :
    ∃ reply t, s.call seat .commit = some (reply, t) ∧
      Occupied t (Function.update holding seat .session) := by
  obtain ⟨name, txn, here, live⟩ := h.txn hnow
  obtain ⟨_, a, _, _, _, hs, ha, heffect, happlied⟩ := h.sound.performs seat .applyWrites
    (by simp [step, applyWrites, txn?_eq_some here, live])
  cases heffect with
  | applied hmine _ =>
    cases here.symm.trans hmine
    obtain ⟨t, hsteps, ht, hreleased⟩ :=
      exists_released ha happlied.here (by simp) (.ok .accepted)
    refine ⟨.ok .accepted, t, ?_, h.becomes ht (happlied.trans hreleased) (.session name)⟩
    rw [call, operations, steps, hs]
    exact hsteps

theorem attentive : store.Attentive Occupied where
  answers {s holding seat now request} h _ hnow hplace := by
    cases hplace with
    | openSession name =>
      have hfree : seat ∉ s.sessions := by
        rw [Std.ExtTreeMap.mem_iff_isSome_getElem?, h.free hnow]
        simp
      obtain ⟨_, t, _, _, _, hs, ht, heffect, hb⟩ := h.sound.performs seat (.openSession name)
        (by simp [step, openSession, hfree])
      cases heffect with
      | opened _ => exact ⟨_, t, _, call_of_step rfl hs, rfl, h.becomes ht hb (.session name)⟩
    | beginTxn =>
      obtain ⟨name, here⟩ := h.idle hnow
      obtain ⟨_, t, _, _, _, hs, ht, heffect, hb⟩ := h.sound.performs seat .beginTxn
        (by simp [step, beginTxn, here])
      cases heffect with
      | begun _ => exact ⟨_, t, _, call_of_step rfl hs, rfl, h.becomes ht hb (.transaction rfl)⟩
    | close | dropSession =>
      obtain ⟨name, here⟩ := h.idle hnow
      obtain ⟨_, t, _, _, _, hs, ht, heffect, hb⟩ := h.sound.performs seat .closeSession
        (by simp [step, closeSession, here])
      cases heffect with
      | closed _ => exact ⟨_, t, _, call_of_step rfl hs, rfl, h.becomes ht hb .nothing⟩
    | insert key value =>
      obtain ⟨reply, t, hcall, ht⟩ := h.inserted hnow key value
      exact ⟨reply, t, _, hcall, rfl, ht⟩
    | prepare id =>
      obtain ⟨reply, t, hcall, ht⟩ := h.prepared hnow id
      exact ⟨reply, t, _, hcall, rfl, ht⟩
    | commit =>
      obtain ⟨reply, t, hcall, ht⟩ := h.committed hnow
      exact ⟨reply, t, _, hcall, rfl, ht⟩
    | abort =>
      obtain ⟨name, txn, here, live⟩ := h.txn hnow
      obtain ⟨t, hs, ht, hb⟩ := exists_released h.sound here (by simp [live]) (.ok .accepted)
      exact ⟨_, t, _, hs, rfl, h.becomes ht hb (.session name)⟩
    | dropTxn =>
      obtain ⟨name, txn, here, live⟩ := h.txn hnow
      obtain ⟨t, hs, ht, hb⟩ := exists_dropped h.sound here (by simp [live])
      exact ⟨_, t, _, call_of_step rfl hs, rfl, h.becomes ht hb (.session name)⟩

end RowLocks

namespace SingleWriter

structure Occupied (s : SingleWriter) (holding : Nat → Holding) : Prop where
  sessions (seat : Nat) : seat ∈ s.sessions ↔ holding seat ≠ .nothing
  writer (seat : Nat) : (∃ txn, s.writer = some txn ∧ txn.seat = seat) ↔ holding seat = .transaction

variable {s t : SingleWriter} {seat : Nat} {holding : Nat → Holding} {next : Holding}

theorem occupied_empty : Occupied empty fun _ => .nothing where
  sessions seat := by simp [empty]
  writer seat := by simp [empty]

/-- Only the session of a seat changes, and only this seat can be the one of the writer. -/
theorem Occupied.becomes (h : Occupied s holding)
    (halone : ∀ other, other ≠ seat → holding other ≠ .transaction)
    (hothers : ∀ other, other ≠ seat → (other ∈ t.sessions ↔ other ∈ s.sessions))
    (hhere : seat ∈ t.sessions ↔ next ≠ .nothing)
    (hwriter : ∀ other, (∃ txn, t.writer = some txn ∧ txn.seat = other) ↔ other = seat ∧
      next = .transaction) :
    Occupied t (Function.update holding seat next) where
  sessions other := by
    rw [Function.update_apply]
    split
    · rename_i he
      rw [he, hhere]
    · rename_i hne
      rw [hothers other hne, h.sessions]
  writer other := by
    rw [hwriter, Function.update_apply]
    split
    · rename_i he
      exact and_iff_right he
    · rename_i hne
      exact iff_of_false (fun hf => hne hf.1) (halone other hne)

/-- Nobody writes while no seat holds a transaction. -/
theorem Occupied.quiet (h : Occupied s holding)
    (halone : ∀ other, other ≠ seat → holding other ≠ .transaction) (hnow : holding seat ≠ .transaction) :
    s.writer = none := by
  cases hwriter : s.writer with
  | none => rfl
  | some txn =>
    have hholds := (h.writer txn.seat).mp ⟨txn, hwriter, rfl⟩
    by_cases he : txn.seat = seat
    · exact absurd (he ▸ hholds) hnow
    · exact absurd hholds (halone _ he)

theorem Occupied.txn (h : Occupied s holding) (hnow : holding seat = .transaction) :
    ∃ txn, s.writer = some txn ∧ txn.seat = seat ∧ s.txn? seat = some txn := by
  obtain ⟨txn, hwriter, hseat⟩ := (h.writer seat).mpr hnow
  exact ⟨txn, hwriter, hseat, by simp [txn?, hwriter, hseat]⟩

theorem Occupied.here (h : Occupied s holding) (hnow : holding seat ≠ .nothing) :
    ∃ table, s.sessions[seat]? = some table := by
  have hmem := (h.sessions seat).mpr hnow
  rw [Std.ExtTreeMap.mem_iff_isSome_getElem?] at hmem
  exact Option.isSome_iff_exists.mp hmem

/-- The writer goes on, on another copy of its table. -/
theorem Occupied.continued (h : Occupied s holding)
    (halone : ∀ other, other ≠ seat → holding other ≠ .transaction) (hnow : holding seat = .transaction)
    {txn : Txn} (hseat : txn.seat = seat) :
    Occupied { s with writer := some txn } (Function.update holding seat .transaction) := by
  refine h.becomes halone (fun _ _ => Iff.rfl) ?_ ?_
  · exact (h.sessions seat).trans (by simp [hnow])
  · intro other
    simp [hseat, eq_comm]

theorem Occupied.ended (h : Occupied s holding)
    (halone : ∀ other, other ≠ seat → holding other ≠ .transaction) (hnow : holding seat = .transaction)
    (tables : Std.ExtTreeMap String (Std.ExtTreeMap Int64 Bytes)) :
    Occupied ⟨tables, s.sessions, none⟩ (Function.update holding seat .session) := by
  refine h.becomes halone (fun _ _ => Iff.rfl) ?_ ?_
  · exact (h.sessions seat).trans (by simp [hnow])
  · simp

theorem Occupied.opened (h : Occupied s holding)
    (halone : ∀ other, other ≠ seat → holding other ≠ .transaction) (hnow : holding seat = .nothing)
    (table : String) : ∃ reply t next, s.openSession seat table = some (reply, t) ∧
      Holding.nothing.after (.openSession table, reply) = some next ∧
      Occupied t (Function.update holding seat next) := by
  have hquiet := h.quiet halone (by simp [hnow])
  have hfree : seat ∉ s.sessions := by simp [h.sessions, hnow]
  rw [openSession, if_neg (by simp [hquiet, hfree])]
  by_cases hname : table = ""
  · rw [if_pos hname]
    refine ⟨_, s, .nothing, rfl, rfl, ?_⟩
    rwa [← hnow, Function.update_eq_self]
  · rw [if_neg hname]
    refine ⟨_, _, .session, rfl, rfl, h.becomes halone ?_ ?_ ?_⟩
    · intro other hne
      simp [Std.ExtTreeMap.mem_insert, Ne.symm hne]
    · simp
    · simp [hquiet]

theorem attentive : store.Attentive Occupied where
  answers {s holding seat now request} h halone hnow hplace := by
    cases hplace with
    | openSession table => exact h.opened halone hnow table
    | beginTxn =>
      obtain ⟨table, here⟩ := h.here (show holding seat ≠ .nothing by simp [hnow])
      have hquiet := h.quiet halone (by simp [hnow])
      refine ⟨.ok .accepted, { s with writer := some ⟨seat, table, s.rows table⟩ }, .transaction, ?_, rfl,
        h.becomes halone (fun _ _ => Iff.rfl) ?_ ?_⟩
      · change s.beginTxn seat = _
        rw [beginTxn, hquiet, here]
      · exact (h.sessions seat).trans (by simp [hnow])
      · simp [eq_comm]
    | close | dropSession =>
      have hquiet := h.quiet halone (by simp [hnow])
      have hmem : seat ∈ s.sessions := by simp [h.sessions, hnow]
      refine ⟨.ok .accepted, { s with sessions := s.sessions.erase seat }, .nothing, ?_, rfl,
        h.becomes halone ?_ ?_ ?_⟩
      · change s.closeSession seat = _
        rw [closeSession, if_neg (by simp [txn?, hquiet, hmem])]
      · intro other hne
        simp [Std.ExtTreeMap.mem_erase, Ne.symm hne]
      · simp
      · simp [hquiet]
    | insert key value =>
      obtain ⟨txn, _, hseat, htxn⟩ := h.txn hnow
      exact ⟨_, _, _, insert_of_txn? htxn key value, rfl, h.continued halone hnow hseat⟩
    | prepare id =>
      obtain ⟨txn, _, hseat, htxn⟩ := h.txn hnow
      refine ⟨.ok .accepted, s, .transaction, ?_, rfl, ?_⟩
      · change s.prepare seat = _
        rw [prepare, htxn]
      · rwa [← hnow, Function.update_eq_self]
    | commit =>
      obtain ⟨txn, _, hseat, htxn⟩ := h.txn hnow
      refine ⟨.ok .accepted, _, .session, ?_, rfl, h.ended halone hnow (s.tables.insert txn.table txn.rows)⟩
      change s.commit seat = _
      rw [commit, htxn]
    | abort | dropTxn =>
      obtain ⟨txn, _, hseat, htxn⟩ := h.txn hnow
      refine ⟨.ok .accepted, _, .session, ?_, rfl, h.ended halone hnow s.tables⟩
      change s.rollBack seat = _
      rw [rollBack, htxn]

end SingleWriter

namespace Buffered

def Occupied (s : Buffered) (holding : Nat → Holding) : Prop :=
  ∀ seat, Holding.Of Session.mk (fun _ => True) s.sessions[seat]? (holding seat)

variable {s t : Buffered} {seat : Nat} {holding : Nat → Holding} {next : Holding}

theorem occupied_empty : Occupied empty fun _ => .nothing := fun seat => by
  simp [empty, Holding.Of.nothing]

theorem Occupied.becomes (h : Occupied s holding) (request : Request) {reply : Reply}
    (hcall : s.call seat request = some (reply, t))
    (hhere : Holding.Of Session.mk (fun _ => True) t.sessions[seat]? next) :
    Occupied t (Function.update holding seat next) := by
  intro other
  rw [Function.update_apply]
  split
  · rename_i he
    exact he ▸ hhere
  · rename_i hne
    rw [sessions_of_call hcall (Ne.symm hne)]
    exact h other

theorem Occupied.free (h : Occupied s holding) (hnow : holding seat = .nothing) : s.sessions[seat]? = none :=
  (hnow ▸ h seat).eq_none

theorem Occupied.idle (h : Occupied s holding) (hnow : holding seat = .session) :
    ∃ table, s.sessions[seat]? = some ⟨table, none⟩ :=
  (hnow ▸ h seat).eq_session

theorem Occupied.txn (h : Occupied s holding) (hnow : holding seat = .transaction) :
    ∃ table txn, s.sessions[seat]? = some ⟨table, some txn⟩ ∧
      s.txn? seat = some (⟨table, some txn⟩, txn) := by
  obtain ⟨table, txn, here, _⟩ := (hnow ▸ h seat).eq_transaction
  exact ⟨table, txn, here, txn?_eq_some here⟩

theorem Occupied.inserted (h : Occupied s holding) (hnow : holding seat = .transaction) (key : Int64)
    (value : Bytes) : ∃ reply t, s.call seat (.insert key value) = some (reply, t) ∧
      Holding.Of Session.mk (fun _ => True) t.sessions[seat]? .transaction := by
  obtain ⟨table, txn, _, htxn⟩ := h.txn hnow
  rw [call, insert, htxn]
  dsimp only
  split
  all_goals
    refine ⟨_, _, rfl, ?_⟩
    rw [getElem?_setTxn, if_pos rfl]
    exact .transaction trivial

theorem attentive : store.Attentive Occupied where
  answers {s holding seat now request} h _ hnow hplace := by
    cases hplace with
    | openSession table =>
      have hfree : seat ∉ s.sessions := by
        rw [Std.ExtTreeMap.mem_iff_isSome_getElem?, h.free hnow]
        simp
      have hcall : s.call seat (.openSession table) =
          some (.ok .accepted, { s with sessions := s.sessions.insert seat ⟨table, none⟩ }) := if_neg hfree
      refine ⟨_, _, .session, hcall, rfl, h.becomes _ hcall ?_⟩
      simp [Holding.Of.session]
    | beginTxn =>
      obtain ⟨table, here⟩ := h.idle hnow
      have hcall : s.call seat .beginTxn =
          some (.ok .accepted, s.setTxn seat ⟨table, none⟩ (some ⟨{}, []⟩)) := by
        rw [call, beginTxn, here]
      refine ⟨_, _, .transaction, hcall, rfl, h.becomes _ hcall ?_⟩
      rw [getElem?_setTxn, if_pos rfl]
      exact .transaction trivial
    | close | dropSession =>
      obtain ⟨table, here⟩ := h.idle hnow
      have hclose : s.closeSession seat =
          some (.ok .accepted, { s with sessions := s.sessions.erase seat }) := by rw [closeSession, here]
      refine ⟨_, _, .nothing, hclose, rfl, h.becomes .close hclose ?_⟩
      simp [Holding.Of.nothing]
    | insert key value =>
      obtain ⟨reply, t, hcall, ht⟩ := h.inserted hnow key value
      exact ⟨reply, t, .transaction, hcall, rfl, h.becomes _ hcall ht⟩
    | prepare id =>
      obtain ⟨table, txn, here, htxn⟩ := h.txn hnow
      have hcall : s.call seat (.prepare id) = some (.ok .accepted, s) := by rw [call, prepare, htxn]
      exact ⟨_, s, .transaction, hcall, rfl, h.becomes _ hcall (hnow ▸ h seat)⟩
    | commit =>
      obtain ⟨table, txn, here, htxn⟩ := h.txn hnow
      let rows := txn.batch.foldr (fun entry rows => rows.insert entry.1 entry.2) (s.rows table)
      have hcall : s.call seat .commit = some (.ok .accepted,
          { s with tables := s.tables.insert table rows }.setTxn seat ⟨table, some txn⟩ none) := by
        rw [call, commit, htxn]
      refine ⟨_, _, .session, hcall, rfl, h.becomes _ hcall ?_⟩
      rw [getElem?_setTxn, if_pos rfl]
      exact .session table
    | abort | dropTxn =>
      obtain ⟨table, txn, here, htxn⟩ := h.txn hnow
      have hroll : s.rollBack seat = some (.ok .accepted, s.setTxn seat ⟨table, some txn⟩ none) := by
        rw [rollBack, htxn]
      refine ⟨_, _, .session, hroll, rfl, h.becomes .abort hroll ?_⟩
      rw [getElem?_setTxn, if_pos rfl]
      exact .session table

end Buffered

namespace Engine

theorem rowLocks_maps : RowLocks.store.Maps store .rowLocks where
  name _ := rfl
  call _ _ _ := rfl
  rowCount _ _ := rfl
  shut _ := rfl

theorem singleWriter_maps : SingleWriter.store.Maps store .singleWriter where
  name _ := rfl
  call _ _ _ := rfl
  rowCount _ _ := rfl
  shut _ := rfl

theorem buffered_maps : Buffered.store.Maps store .buffered where
  name _ := rfl
  call _ _ _ := rfl
  rowCount _ _ := rfl
  shut _ := rfl

def Occupied : Engine → (Nat → Holding) → Prop
  | rowLocks s => s.Occupied
  | singleWriter s => s.Occupied
  | buffered s => s.Occupied
  | scripted _ => fun _ => False

theorem occupied_new (backend : Backend) : (new backend).Occupied fun _ => .nothing := by
  cases backend with
  | rowLocks => exact RowLocks.occupied_empty
  | singleWriter => exact SingleWriter.occupied_empty
  | buffered => exact Buffered.occupied_empty

theorem attentive : store.Attentive Occupied where
  answers {e holding seat now request} h halone hnow hplace := by
    cases e with
    | rowLocks s =>
      obtain ⟨reply, t, hanswer⟩ := RowLocks.attentive.answers_of_maps rowLocks_maps h halone hnow hplace
      exact ⟨reply, .rowLocks t, hanswer⟩
    | singleWriter s =>
      obtain ⟨reply, t, hanswer⟩ :=
        SingleWriter.attentive.answers_of_maps singleWriter_maps h halone hnow hplace
      exact ⟨reply, .singleWriter t, hanswer⟩
    | buffered s =>
      obtain ⟨reply, t, hanswer⟩ := Buffered.attentive.answers_of_maps buffered_maps h halone hnow hplace
      exact ⟨reply, .buffered t, hanswer⟩
    | scripted s => exact h.elim

end Engine

end InsertBench
