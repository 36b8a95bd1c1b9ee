import InsertBench.Store.Buffered
import InsertBench.Bytes.Lemmas
import InsertBench.Proofs.Serial.Refinement
import Mathlib.Data.List.Nodup

/-! # Buffered writes keep to the book

The batch of a transaction has the keys that it added, and a key that it tried was either added or
committed before. So the keys that it tried are refused for the same reason as those of the book.
-/
namespace InsertBench

theorem keyBytes_injective : Function.Injective keyBytes := by
  intro key other h
  have hwords := congrArg Bytes.toWord (List.reverse_injective h)
  rw [Bytes.toWord_ofWord, Bytes.toWord_ofWord, UInt64.xor_left_inj] at hwords
  exact congrArg UInt64.toInt64 hwords

namespace Buffered

open Serial (Book Gives Refines Seated blank)

/-- A transaction, and that of the book on a table with certain committed keys. -/
structure Holds (own : Txn) (txn : Serial.Txn) (committed : List Int64) : Prop where
  batch : own.batch.map Prod.fst = txn.added.map keyBytes
  tried {key : Int64} : key ∈ own.tried → key ∈ txn.added ∨ key ∈ committed
  added {key : Int64} : key ∈ txn.added → key ∈ own.tried

structure Mirrors (b : Book) (s : Buffered) : Prop where
  sessions (seat : Nat) : Seated Session.mk (fun table own txn => Holds own txn (b.committed table))
    s.sessions[seat]? (b.sessions seat)
  rows (table : String) (bytes : Bytes) : bytes ∈ s.rows table ↔ bytes ∈ (b.committed table).map keyBytes

variable {b c : Book} {s t : Buffered} {seat : Nat} {table : String} {txn : Serial.Txn} {own : Txn}

theorem mirrors_empty : Mirrors blank empty where
  sessions seat := by simp [empty, blank, Seated.free]
  rows table bytes := by simp [Buffered.rows, empty, blank]

theorem Mirrors.counts (h : Mirrors b s) (hb : b.WellKept) : Serial.CountsAs store s b := by
  intro table _
  have hsize := Serial.size_eq_length (List.Nodup.map keyBytes_injective (hb.distinct table)) (h.rows table)
  rw [List.length_map] at hsize
  simp only [store, rowCount, hsize, Book.count]

theorem Mirrors.free (h : Mirrors b s) (free : b.sessions seat = none) : s.sessions[seat]? = none :=
  (free ▸ h.sessions seat).eq_none

theorem Mirrors.idle (h : Mirrors b s) (idle : b.sessions seat = some ⟨table, none⟩) :
    s.sessions[seat]? = some ⟨table, none⟩ := (idle ▸ h.sessions seat).eq_idle

theorem Mirrors.busy (h : Mirrors b s) (here : b.sessions seat = some ⟨table, some txn⟩) :
    ∃ own, s.sessions[seat]? = some ⟨table, some own⟩ ∧ Holds own txn (b.committed table) :=
  (here ▸ h.sessions seat).eq_busy

theorem txn?_eq_some (h : s.sessions[seat]? = some ⟨table, some own⟩) :
    s.txn? seat = some (⟨table, some own⟩, own) := by
  simp [txn?, h]

theorem Holds.mono {committed more : List Int64} (h : Holds own txn committed)
    (hmore : ∀ key, key ∈ committed → key ∈ more) : Holds own txn more where
  batch := h.batch
  tried hkey := (h.tried hkey).imp_right (hmore _)
  added := h.added

/-- A session takes its place, and tables only gain keys. -/
theorem Mirrors.becomes (h : Mirrors b s) (mine : Option Session) {yours : Option Serial.Session}
    (hbook : c.sessions = (b.seatAt seat yours).sessions)
    (hsessions : ∀ other, t.sessions[other]? = if seat = other then mine else s.sessions[other]?)
    (hmore : ∀ table key, key ∈ b.committed table → key ∈ c.committed table)
    (hseat : Seated Session.mk (fun table own txn => Holds own txn (c.committed table)) mine yours)
    (hrows : ∀ table bytes, bytes ∈ t.rows table ↔ bytes ∈ (c.committed table).map keyBytes) :
    Mirrors c t where
  sessions other := by
    rw [hsessions, hbook, Book.sessions_seatAt]
    split
    · exact hseat
    · exact (h.sessions other).mono fun table _ _ holds => holds.mono (hmore table)
  rows := hrows

theorem Mirrors.seated (h : Mirrors b s) {yours : Option Serial.Session} (mine : Session)
    (hbook : c.sessions = (b.seatAt seat yours).sessions) (hcommitted : c.committed = b.committed)
    (hseat : Seated Session.mk (fun table own txn => Holds own txn (b.committed table)) (some mine) yours) :
    Mirrors c { s with sessions := s.sessions.insert seat mine } := by
  refine h.becomes (some mine) hbook ?_ (fun _ _ hkey => hcommitted ▸ hkey) (hcommitted ▸ hseat)
    (hcommitted ▸ h.rows)
  intro other
  simp [Std.ExtTreeMap.getElem?_insert]

theorem Mirrors.opened (h : Mirrors b s) (free : b.sessions seat = none) (table : String) :
    ∃ t, s.openSession seat table = some (.ok .accepted, t) ∧
      Mirrors (b.seatAt seat (some ⟨table, none⟩)) t := by
  have hfree : seat ∉ s.sessions := by
    rw [Std.ExtTreeMap.mem_iff_isSome_getElem?, h.free free]
    simp
  exact ⟨_, by rw [openSession, if_neg hfree], h.seated _ rfl rfl (.idle table)⟩

theorem Mirrors.begun (h : Mirrors b s) (idle : b.sessions seat = some ⟨table, none⟩) :
    ∃ t, s.beginTxn seat = some (.ok .accepted, t) ∧
      Mirrors { b.seatAt seat (some ⟨table, some ⟨[], false⟩⟩) with live := some seat } t := by
  have hholds : Holds ⟨{}, []⟩ ⟨[], false⟩ (b.committed table) := ⟨rfl, by simp, by simp⟩
  refine ⟨_, ?_, h.seated _ rfl rfl (.busy hholds)⟩
  rw [beginTxn, h.idle idle]
  rfl

/-- The key of a refused row is committed already, or it was tried before and then accepted. -/
theorem Mirrors.refused (h : Mirrors b s) (here : b.sessions seat = some ⟨table, some txn⟩)
    {key : Int64} (taken : key ∈ txn.added ∨ key ∈ b.committed table) (value : Bytes) :
    ∃ t, s.insert seat key value = some (.error (.failed (.duplicateKey key)), t) ∧ Mirrors b t := by
  obtain ⟨own, hown, holds⟩ := h.busy here
  have hrefused : key ∈ own.tried ∨ keyBytes key ∈ s.rows table :=
    taken.imp holds.added fun hkey => (h.rows table _).mpr (List.mem_map_of_mem hkey)
  have hholds : Holds { own with tried := own.tried.insert key } txn (b.committed table) := by
    refine ⟨holds.batch, ?_, ?_⟩
    · intro other hother
      rcases Std.ExtTreeSet.mem_insert.mp hother with he | hother
      · exact Std.LawfulEqCmp.compare_eq_iff_eq.mp he ▸ taken
      · exact holds.tried hother
    · intro other hother
      exact Std.ExtTreeSet.mem_insert.mpr (.inr (holds.added hother))
  refine ⟨_, ?_, h.seated _ (by rw [Book.seatAt_self here]) rfl (.busy hholds)⟩
  simp only [insert, txn?_eq_some hown, if_pos hrefused]
  rfl

theorem Mirrors.inserted (h : Mirrors b s) (here : b.sessions seat = some ⟨table, some txn⟩)
    {key : Int64} (new : key ∉ txn.added) (absent : key ∉ b.committed table) (value : Bytes) :
    ∃ t, s.insert seat key value = some (.ok .accepted, t) ∧
      Mirrors (b.seatAt seat (some ⟨table, some { txn with added := key :: txn.added }⟩)) t := by
  obtain ⟨own, hown, holds⟩ := h.busy here
  have haccepted : ¬(key ∈ own.tried ∨ keyBytes key ∈ s.rows table) := by
    -- a key that was tried in vain is committed, and stays so while nobody else commits
    rintro (htried | hrow)
    · exact (holds.tried htried).elim new absent
    · rw [h.rows, List.mem_map_of_injective keyBytes_injective] at hrow
      exact absent hrow
  have hholds : Holds ⟨own.tried.insert key, (keyBytes key, value) :: own.batch⟩
      { txn with added := key :: txn.added } (b.committed table) := by
    refine ⟨by simp [holds.batch], ?_, ?_⟩
    · intro other hother
      rcases Std.ExtTreeSet.mem_insert.mp hother with he | hother
      · exact Std.LawfulEqCmp.compare_eq_iff_eq.mp he ▸ .inl (List.mem_cons_self ..)
      · exact (holds.tried hother).imp_left (List.mem_cons_of_mem _)
    · intro other hother
      rcases List.mem_cons.mp hother with rfl | hother
      · simp
      · exact Std.ExtTreeSet.mem_insert.mpr (.inr (holds.added hother))
  refine ⟨_, ?_, h.seated _ rfl rfl (.busy hholds)⟩
  simp only [insert, txn?_eq_some hown, if_neg haccepted]
  rfl

theorem Mirrors.prepared (h : Mirrors b s) (here : b.sessions seat = some ⟨table, some txn⟩) :
    s.prepare seat = some (.ok .accepted, s) ∧
      Mirrors (b.seatAt seat (some ⟨table, some { txn with prepared := true }⟩)) s := by
  obtain ⟨own, hown, holds⟩ := h.busy here
  refine ⟨by rw [prepare, txn?_eq_some hown], ?_⟩
  refine h.becomes _ rfl ?_ (fun _ _ hkey => hkey) (.busy ⟨holds.batch, holds.tried, holds.added⟩) h.rows
  intro other
  split
  · rename_i he
    exact he ▸ hown
  · rfl

theorem mem_foldr_insert {rows : Std.ExtTreeMap Bytes Bytes} {batch : List (Bytes × Bytes)}
    {bytes : Bytes} : bytes ∈ batch.foldr (fun entry rows => rows.insert entry.1 entry.2) rows ↔
      bytes ∈ batch.map Prod.fst ∨ bytes ∈ rows := by
  induction batch with
  | nil => simp
  | cons entry batch ih =>
    rw [List.foldr_cons, Std.ExtTreeMap.mem_insert, Std.LawfulEqCmp.compare_eq_iff_eq, ih, List.map_cons,
      List.mem_cons, or_assoc, eq_comm (a := bytes)]

theorem Mirrors.committed (h : Mirrors b s) (here : b.sessions seat = some ⟨table, some txn⟩) :
    ∃ t, s.commit seat = some (.ok .accepted, t) ∧
      Mirrors { (b.enter ⟨table, some txn⟩).seatAt seat (some ⟨table, none⟩) with live := none } t := by
  obtain ⟨own, hown, holds⟩ := h.busy here
  refine ⟨_, by rw [commit, txn?_eq_some hown], ?_⟩
  refine h.becomes _ rfl ?_ ?_ (.idle table) ?_
  · intro other
    simp [setTxn, Std.ExtTreeMap.getElem?_insert]
  · intro other key hkey
    change key ∈ (b.enter ⟨table, some txn⟩).committed other
    rw [Book.committed_enter]
    split
    · rename_i he
      subst he
      exact List.mem_append_right _ hkey
    · exact hkey
  · intro other bytes
    change _ ↔ bytes ∈ ((b.enter ⟨table, some txn⟩).committed other).map keyBytes
    simp only [Book.committed_enter, Buffered.rows, setTxn, Std.ExtTreeMap.getElem?_insert,
      Std.LawfulEqCmp.compare_eq_iff_eq]
    split
    · rw [Option.getD_some, mem_foldr_insert, holds.batch, List.map_append, List.mem_append]
      exact or_congr_right (h.rows table bytes)
    · exact h.rows other bytes

theorem Mirrors.rolledBack (h : Mirrors b s) (here : b.sessions seat = some ⟨table, some txn⟩) :
    ∃ t, s.rollBack seat = some (.ok .accepted, t) ∧
      Mirrors { b.seatAt seat (some ⟨table, none⟩) with live := none } t := by
  obtain ⟨own, hown, _⟩ := h.busy here
  refine ⟨_, ?_, h.seated _ rfl rfl (.idle table)⟩
  rw [rollBack, txn?_eq_some hown]
  rfl

theorem Mirrors.closed (h : Mirrors b s) (idle : b.sessions seat = some ⟨table, none⟩) :
    ∃ t, s.closeSession seat = some (.ok .accepted, t) ∧ Mirrors (b.seatAt seat none) t := by
  refine ⟨{ s with sessions := s.sessions.erase seat }, by rw [closeSession, h.idle idle], ?_⟩
  refine h.becomes _ rfl ?_ (fun _ _ hkey => hkey) .free h.rows
  intro other
  simp [Std.ExtTreeMap.getElem?_erase]

theorem refines : Refines store Mirrors where
  counts := Mirrors.counts
  call {b s seat request kind c} h _ hturn := by
    cases hturn with
    | @opened _ table _ free _ =>
      obtain ⟨t, hcall, ht⟩ := h.opened free table
      exact ⟨t, .accepted hcall, ht⟩
    | begun idle _ =>
      obtain ⟨t, hcall, ht⟩ := h.begun idle
      exact ⟨t, .accepted hcall, ht⟩
    | @refused _ _ _ _ value here _ taken =>
      obtain ⟨t, hcall, ht⟩ := h.refused here taken value
      exact ⟨t, .duplicate hcall rfl, ht⟩
    | @inserted _ _ _ _ value here _ new absent =>
      obtain ⟨t, hcall, ht⟩ := h.inserted here new absent value
      exact ⟨t, .accepted hcall, ht⟩
    | prepared here _ =>
      obtain ⟨hcall, hs⟩ := h.prepared here
      exact ⟨s, .accepted hcall, hs⟩
    | committed here =>
      obtain ⟨t, hcall, ht⟩ := h.committed here
      exact ⟨t, .accepted hcall, ht⟩
    | rolledBack here ends =>
      obtain ⟨t, hcall, ht⟩ := h.rolledBack here
      rcases ends with rfl | rfl <;> exact ⟨t, .accepted hcall, ht⟩
    | closed idle ends =>
      obtain ⟨t, hcall, ht⟩ := h.closed idle
      rcases ends with rfl | rfl <;> exact ⟨t, .accepted hcall, ht⟩

end Buffered

end InsertBench
