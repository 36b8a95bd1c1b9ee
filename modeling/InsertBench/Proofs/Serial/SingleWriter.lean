import InsertBench.Store.SingleWriter
import InsertBench.Proofs.Serial.Refinement

/-! # A single writer keeps to the book

The copy of a table that the writer works on has the keys that are committed and those that it added. A
refused insert overwrites a row of the copy, which leaves the keys as they are.
-/
namespace InsertBench.SingleWriter

open Serial (Book Gives Refines blank)

/-- A writer through the session of a seat, on a copy of a table with certain keys. -/
structure Works (own : Txn) (seat : Nat) (table : String) (keys : List Int64) : Prop where
  seat : own.seat = seat
  table : own.table = table
  keys (key : Int64) : key ∈ own.rows ↔ key ∈ keys

structure Mirrors (b : Book) (s : SingleWriter) : Prop where
  sessions (seat : Nat) : s.sessions[seat]? = (b.sessions seat).map Serial.Session.table
  rows (table : String) (key : Int64) : key ∈ s.rows table ↔ key ∈ b.committed table
  idle : b.live = none → s.writer = none
  busy {seat : Nat} {table : String} {txn : Serial.Txn} : b.sessions seat = some ⟨table, some txn⟩ →
    ∃ own, s.writer = some own ∧ Works own seat table (txn.added ++ b.committed table)

variable {b c : Book} {s t : SingleWriter} {seat : Nat} {table : String} {session : Option Serial.Session}
  {txn : Serial.Txn} {own : Txn}

theorem mirrors_empty : Mirrors blank empty where
  sessions seat := by simp [empty, blank]
  rows table key := by simp [SingleWriter.rows, empty, blank]
  idle _ := rfl
  busy hf := by cases hf

theorem Mirrors.counts (h : Mirrors b s) (hb : b.WellKept) : Serial.CountsAs store s b := by
  intro table named
  have hsize := Serial.size_eq_length (hb.distinct table) (h.rows table)
  simp only [store, rowCount, if_neg named, hsize, Book.count]

theorem Works.txn? {keys : List Int64} (h : Works own seat table keys) (hwriter : s.writer = some own) :
    s.txn? seat = some own := by
  simp [SingleWriter.txn?, hwriter, h.seat]

theorem Mirrors.here (h : Mirrors b s) {open? : Option Serial.Txn}
    (here : b.sessions seat = some ⟨table, open?⟩) : s.sessions[seat]? = some table := by
  rw [h.sessions, here]
  rfl

theorem Mirrors.same_sessions (h : Mirrors b s) {open? : Option Serial.Txn}
    (here : b.sessions seat = some ⟨table, open?⟩) (other : Nat) :
    s.sessions[other]? = if seat = other then some table else s.sessions[other]? := by
  split
  · rename_i he
    exact he ▸ h.here here
  · rfl

/-- What happens at the seat of the live transaction, or at any seat while none is live. -/
theorem Mirrors.becomes (h : Mirrors b s) (hb : b.WellKept)
    (hquiet : ∀ other, b.live = some other → seat = other)
    (hbook : c.sessions = (b.seatAt seat session).sessions)
    (hsessions : ∀ other, t.sessions[other]? =
      if seat = other then session.map Serial.Session.table else s.sessions[other]?)
    (hrows : ∀ table key, key ∈ t.rows table ↔ key ∈ c.committed table)
    (hidle : c.live = none → t.writer = none)
    (hbusy : ∀ table txn, session = some ⟨table, some txn⟩ →
      ∃ own, t.writer = some own ∧ Works own seat table (txn.added ++ c.committed table)) :
    Mirrors c t where
  sessions other := by
    rw [hsessions, hbook, Book.sessions_seatAt, h.sessions]
    split <;> rfl
  rows := hrows
  idle := hidle
  busy {other table txn} hf := by
    rw [hbook] at hf
    rcases Book.session_of_seatAt hf with ⟨rfl, hmine⟩ | ⟨hne, hold⟩
    · exact hbusy table txn hmine
    · exact absurd (hquiet other (hb.live_here hold)) hne

theorem rows_insertIfNew (s : SingleWriter) (table other : String) :
    (s.tables.insertIfNew table {})[other]?.getD {} = s.rows other := by
  simp only [rows, Std.ExtTreeMap.getElem?_insertIfNew, Std.LawfulEqCmp.compare_eq_iff_eq]
  split
  · rename_i hnew
    obtain ⟨rfl, hnew⟩ := hnew
    rw [Std.ExtTreeMap.getElem?_eq_none hnew]
    rfl
  · rfl

theorem Mirrors.opened (h : Mirrors b s) (hb : b.WellKept) (named : table ≠ "")
    (free : b.sessions seat = none) (quiet : b.live = none) :
    ∃ t, s.openSession seat table = some (.ok .accepted, t) ∧
      Mirrors (b.seatAt seat (some ⟨table, none⟩)) t := by
  have hfree : seat ∉ s.sessions := by
    rw [Std.ExtTreeMap.mem_iff_isSome_getElem?, h.sessions, free]
    simp
  have hwriter := h.idle quiet
  refine ⟨_, by rw [openSession, if_neg (by simp [hwriter, hfree]), if_neg named], ?_⟩
  refine h.becomes hb (fun other hf => by cases quiet.symm.trans hf) rfl ?_ ?_ h.idle
    (fun _ _ hf => by cases hf)
  · intro other
    simp [Std.ExtTreeMap.getElem?_insert]
  · intro other key
    change key ∈ (s.tables.insertIfNew table {})[other]?.getD {} ↔ key ∈ b.committed other
    rw [rows_insertIfNew]
    exact h.rows other key

theorem Mirrors.begun (h : Mirrors b s) (hb : b.WellKept) (idle : b.sessions seat = some ⟨table, none⟩)
    (quiet : b.live = none) :
    ∃ t, s.beginTxn seat = some (.ok .accepted, t) ∧
      Mirrors { b.seatAt seat (some ⟨table, some ⟨[], false⟩⟩) with live := some seat } t := by
  refine ⟨{ s with writer := some ⟨seat, table, s.rows table⟩ }, ?_, ?_⟩
  · rw [beginTxn, h.idle quiet, h.here idle]
  refine h.becomes hb (fun other hf => by cases quiet.symm.trans hf) rfl (h.same_sessions idle) h.rows
    (fun hf => by cases hf) ?_
  intro _ _ hf
  cases hf
  exact ⟨_, rfl, rfl, rfl, h.rows table⟩

theorem Mirrors.continued (h : Mirrors b s) (hb : b.WellKept)
    (here : b.sessions seat = some ⟨table, some txn⟩) {next : Serial.Txn} {writer : Option Txn}
    (hwriter : writer = some own)
    (hworks : Works own seat table (next.added ++ b.committed table)) :
    Mirrors (b.seatAt seat (some ⟨table, some next⟩)) { s with writer } := by
  refine h.becomes hb (fun _ => hb.only here) rfl (h.same_sessions here) h.rows ?_ ?_
  · intro hf
    cases (hb.live_here here).symm.trans hf
  · intro _ _ hf
    cases hf
    exact ⟨own, hwriter, hworks⟩

theorem Works.insert {keys more : List Int64} {key : Int64} (h : Works own seat table keys) (value : Bytes)
    (hmore : ∀ other, other ∈ more ↔ key = other ∨ other ∈ keys) :
    Works { own with rows := own.rows.insert key value } seat table more where
  seat := h.seat
  table := h.table
  keys other := by simp [hmore, h.keys]

theorem insert_of_txn? (h : s.txn? seat = some own) (key : Int64) (value : Bytes) : s.insert seat key value =
    some (if key ∈ own.rows then .error (.failed (.duplicateKey key)) else .ok .accepted,
      { s with writer := some { own with rows := own.rows.insert key value } }) := by
  rw [insert, h]

/-- The key of a refused row is there already, so that the row adds none. -/
theorem Mirrors.refused (h : Mirrors b s) (hb : b.WellKept)
    (here : b.sessions seat = some ⟨table, some txn⟩) {key : Int64}
    (taken : key ∈ txn.added ∨ key ∈ b.committed table) (value : Bytes) :
    ∃ t, s.insert seat key value = some (.error (.failed (.duplicateKey key)), t) ∧ Mirrors b t := by
  obtain ⟨own, hwriter, hworks⟩ := h.busy here
  have hkey : key ∈ txn.added ++ b.committed table := List.mem_append.mpr taken
  have hreply := insert_of_txn? (hworks.txn? hwriter) key value
  rw [if_pos ((hworks.keys key).mpr hkey)] at hreply
  have hnext : Works { own with rows := own.rows.insert key value } seat table
      (txn.added ++ b.committed table) := by
    refine hworks.insert value fun other => ⟨.inr, ?_⟩
    rintro (rfl | hother)
    · exact hkey
    · exact hother
  refine ⟨_, hreply, ?_⟩
  simpa only [Book.seatAt_self here] using h.continued hb here rfl hnext

theorem Mirrors.inserted (h : Mirrors b s) (hb : b.WellKept)
    (here : b.sessions seat = some ⟨table, some txn⟩) {key : Int64} (new : key ∉ txn.added)
    (absent : key ∉ b.committed table) (value : Bytes) :
    ∃ t, s.insert seat key value = some (.ok .accepted, t) ∧
      Mirrors (b.seatAt seat (some ⟨table, some { txn with added := key :: txn.added }⟩)) t := by
  obtain ⟨own, hwriter, hworks⟩ := h.busy here
  have hreply := insert_of_txn? (hworks.txn? hwriter) key value
  rw [if_neg (by simp [hworks.keys, new, absent])] at hreply
  exact ⟨_, hreply, h.continued hb here rfl (hworks.insert value (by simp [eq_comm]))⟩

theorem Mirrors.prepared (h : Mirrors b s) (hb : b.WellKept)
    (here : b.sessions seat = some ⟨table, some txn⟩) :
    s.prepare seat = some (.ok .accepted, s) ∧
      Mirrors (b.seatAt seat (some ⟨table, some { txn with prepared := true }⟩)) s := by
  obtain ⟨own, hwriter, hworks⟩ := h.busy here
  refine ⟨?_, h.continued hb here hwriter hworks⟩
  rw [prepare, hworks.txn? hwriter]

theorem Mirrors.ended (h : Mirrors b s) (hb : b.WellKept)
    (here : b.sessions seat = some ⟨table, some txn⟩)
    {tables : Std.ExtTreeMap String (Std.ExtTreeMap Int64 Bytes)}
    (hbook : c.sessions = (b.seatAt seat (some ⟨table, none⟩)).sessions)
    (hrows : ∀ other key, key ∈ tables[other]?.getD {} ↔ key ∈ c.committed other) :
    Mirrors c ⟨tables, s.sessions, none⟩ :=
  h.becomes hb (fun _ => hb.only here) hbook (h.same_sessions here) hrows (fun _ => rfl)
    (fun _ _ hf => by cases hf)

theorem Mirrors.committed (h : Mirrors b s) (hb : b.WellKept)
    (here : b.sessions seat = some ⟨table, some txn⟩) :
    ∃ t, s.commit seat = some (.ok .accepted, t) ∧
      Mirrors { (b.enter ⟨table, some txn⟩).seatAt seat (some ⟨table, none⟩) with live := none } t := by
  obtain ⟨own, hwriter, hworks⟩ := h.busy here
  have hown := hworks.txn? hwriter
  obtain ⟨_, rfl, hkeys⟩ := hworks
  refine ⟨_, by rw [commit, hown], h.ended hb here rfl ?_⟩
  intro other key
  change _ ↔ key ∈ (b.enter ⟨own.table, some txn⟩).committed other
  simp only [Std.ExtTreeMap.getElem?_insert, Std.LawfulEqCmp.compare_eq_iff_eq, Book.committed_enter]
  split
  · exact hkeys key
  · exact h.rows other key

theorem Mirrors.rolledBack (h : Mirrors b s) (hb : b.WellKept)
    (here : b.sessions seat = some ⟨table, some txn⟩) :
    ∃ t, s.rollBack seat = some (.ok .accepted, t) ∧
      Mirrors { b.seatAt seat (some ⟨table, none⟩) with live := none } t := by
  obtain ⟨own, hwriter, hworks⟩ := h.busy here
  exact ⟨_, by rw [rollBack, hworks.txn? hwriter], h.ended hb here rfl h.rows⟩

theorem Mirrors.closed (h : Mirrors b s) (hb : b.WellKept) (idle : b.sessions seat = some ⟨table, none⟩) :
    ∃ t, s.closeSession seat = some (.ok .accepted, t) ∧ Mirrors (b.seatAt seat none) t := by
  have hsession : seat ∈ s.sessions := by
    rw [Std.ExtTreeMap.mem_iff_isSome_getElem?, h.here idle]
    rfl
  have hwriter : s.txn? seat = none := by
    cases hl : b.live with
    | none => simp [SingleWriter.txn?, h.idle hl]
    | some other =>
      obtain ⟨name, txn, hother⟩ := (hb.live other).mp hl
      obtain ⟨own, hw, hworks⟩ := h.busy hother
      have hne : own.seat ≠ seat := by
        rw [hworks.seat]
        rintro rfl
        cases idle.symm.trans hother
      simp [SingleWriter.txn?, hw, hne]
  refine ⟨{ s with sessions := s.sessions.erase seat }, ?_, ?_⟩
  · rw [closeSession, hwriter, if_neg (by simp [hsession])]
  constructor
  case sessions =>
    intro other
    simp only [Std.ExtTreeMap.getElem?_erase, Std.LawfulEqCmp.compare_eq_iff_eq, Book.sessions_seatAt,
      h.sessions]
    split <;> rfl
  case rows => exact h.rows
  case idle => exact h.idle
  case busy =>
    intro other table txn hf
    rcases Book.session_of_seatAt hf with ⟨_, hmine⟩ | ⟨_, hold⟩
    · cases hmine
    · exact h.busy hold

theorem refines : Refines store Mirrors where
  counts := Mirrors.counts
  call {b s seat request kind c} h hb hturn := by
    cases hturn with
    | opened named free quiet =>
      obtain ⟨t, hcall, ht⟩ := h.opened hb named free quiet
      exact ⟨t, .accepted hcall, ht⟩
    | begun idle quiet =>
      obtain ⟨t, hcall, ht⟩ := h.begun hb idle quiet
      exact ⟨t, .accepted hcall, ht⟩
    | @refused _ _ _ _ value here _ taken =>
      obtain ⟨t, hcall, ht⟩ := h.refused hb here taken value
      exact ⟨t, .duplicate hcall rfl, ht⟩
    | @inserted _ _ _ _ value here _ new absent =>
      obtain ⟨t, hcall, ht⟩ := h.inserted hb here new absent value
      exact ⟨t, .accepted hcall, ht⟩
    | prepared here _ =>
      obtain ⟨hcall, hs⟩ := h.prepared hb here
      exact ⟨s, .accepted hcall, hs⟩
    | committed here =>
      obtain ⟨t, hcall, ht⟩ := h.committed hb here
      exact ⟨t, .accepted hcall, ht⟩
    | rolledBack here ends =>
      obtain ⟨t, hcall, ht⟩ := h.rolledBack hb here
      rcases ends with rfl | rfl <;> exact ⟨t, .accepted hcall, ht⟩
    | closed idle ends =>
      obtain ⟨t, hcall, ht⟩ := h.closed hb idle
      rcases ends with rfl | rfl <;> exact ⟨t, .accepted hcall, ht⟩

end InsertBench.SingleWriter
