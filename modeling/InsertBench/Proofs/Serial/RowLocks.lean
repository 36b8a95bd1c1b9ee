import InsertBench.Proofs.RowLocks.History
import InsertBench.Proofs.Serial.Refinement

/-! # Row locks keep to the book

Of all transactions only the live one holds locks, on the keys that it added, so that no insert meets
the lock of another. A commit is two operations here, and so is an abort; no use comes between them.
-/
namespace InsertBench.RowLocks

open Serial (Book Gives Refines Seated blank)

/-- A transaction that is not over, and the same one in the book. -/
structure Matches (own : Txn) (txn : Serial.Txn) : Prop where
  live : own.phase = .live
  prepared : own.prepared = txn.prepared
  keys : own.keys = txn.added

structure Mirrors (b : Book) (s : RowLocks) : Prop where
  sound : Sound s
  sessions (seat : Nat) : Seated Session.mk (fun _ => Matches) s.sessions[seat]? (b.sessions seat)
  rows (name : String) (key : Int64) : key ∈ (s.table name).rows ↔ key ∈ b.committed name

variable {b c : Book} {s t u : RowLocks} {seat : Nat} {name : String} {session next : Option Session}
  {table after : Table} {own : Txn} {txn : Serial.Txn} {op : Operation} {reply : Reply}

theorem mirrors_empty : Mirrors blank empty where
  sound := quiescent_empty.sound
  sessions seat := by simp [quiescent_empty.sessions, blank, Seated.free]
  rows name key := by simp [RowLocks.table, Table.empty, empty, blank]

theorem Mirrors.counts (h : Mirrors b s) (hb : b.WellKept) : Serial.CountsAs store s b := by
  intro name _
  have hsize := Serial.size_eq_length (hb.distinct name) (h.rows name)
  simp only [store, rowCount, hsize, Book.count]

theorem Mirrors.free (h : Mirrors b s) (free : b.sessions seat = none) : s.sessions[seat]? = none :=
  (free ▸ h.sessions seat).eq_none

theorem Mirrors.idle (h : Mirrors b s) (idle : b.sessions seat = some ⟨name, none⟩) :
    s.sessions[seat]? = some ⟨name, none⟩ := (idle ▸ h.sessions seat).eq_idle

theorem Mirrors.busy (h : Mirrors b s) (here : b.sessions seat = some ⟨name, some txn⟩) :
    ∃ own, s.sessions[seat]? = some ⟨name, some own⟩ ∧ Matches own txn :=
  (here ▸ h.sessions seat).eq_busy

theorem Mirrors.unlocked (h : Mirrors b s) (hb : b.WellKept)
    (here : b.sessions seat = some ⟨name, some txn⟩) {key : Int64} (new : key ∉ txn.added) :
    (s.table name).locks[key]? = none := by
  cases hl : (s.table name).locks[key]? with
  | none => rfl
  | some id =>
    obtain ⟨other, own, hother, _, hkey⟩ := h.sound.write_of_lock hl
    have hseat := h.sessions other
    rw [hother] at hseat
    generalize hyours : b.sessions other = yours at hseat
    cases hseat with
    | busy same =>
      obtain rfl : seat = other := hb.only here (hb.live_here hyours)
      cases here.symm.trans hyours
      exact absurd (same.keys ▸ hkey) new

/-- A session takes its place, and one table has the keys that the book says. -/
theorem Mirrors.becomes (h : Mirrors b s) (ht : Sound t) (hs : Becomes s seat session name table t)
    {yours : Option Serial.Session} (hbook : c.sessions = (b.seatAt seat yours).sessions)
    (hseat : Seated Session.mk (fun _ => Matches) session yours)
    (hrows : ∀ key, key ∈ table.rows ↔ key ∈ c.committed name)
    (hothers : ∀ other, name ≠ other → c.committed other = b.committed other) : Mirrors c t where
  sound := ht
  sessions other := by
    rw [hs.sessions, hbook, Book.sessions_seatAt]
    split
    · exact hseat
    · exact h.sessions other
  rows other key := by
    rw [hs.tables]
    split
    · rename_i he
      exact he ▸ hrows key
    · rename_i hne
      rw [hothers other hne]
      exact h.rows other key

theorem Mirrors.seated (h : Mirrors b s) (ht : Sound t) (hs : Becomes s seat session name table t)
    {yours : Option Serial.Session} (hbook : c.sessions = (b.seatAt seat yours).sessions)
    (hcommitted : c.committed = b.committed) (hseat : Seated Session.mk (fun _ => Matches) session yours)
    (hrows : table.rows = (s.table name).rows) : Mirrors c t := by
  refine h.becomes ht hs hbook hseat ?_ (fun _ _ => by rw [hcommitted])
  intro key
  rw [hrows, hcommitted]
  exact h.rows name key

theorem Mirrors.opened (h : Mirrors b s) (free : b.sessions seat = none) (name : String) :
    ∃ t, s.call seat (.openSession name) = some (.ok .accepted, t) ∧
      Mirrors (b.seatAt seat (some ⟨name, none⟩)) t := by
  have hfree : seat ∉ s.sessions := by
    rw [Std.ExtTreeMap.mem_iff_isSome_getElem?, h.free free]
    simp
  obtain ⟨_, t, _, _, _, hs, ht, heffect, hbecomes⟩ := h.sound.performs seat (.openSession name)
    (by simp [step, openSession, hfree])
  cases heffect with
  | opened _ => exact ⟨t, call_of_step rfl hs, h.seated ht hbecomes rfl rfl (.idle name) rfl⟩

theorem Mirrors.begun (h : Mirrors b s) (idle : b.sessions seat = some ⟨name, none⟩) :
    ∃ t, s.call seat .beginTxn = some (.ok .accepted, t) ∧
      Mirrors { b.seatAt seat (some ⟨name, some ⟨[], false⟩⟩) with live := some seat } t := by
  have hidle := h.idle idle
  obtain ⟨_, t, _, _, _, hs, ht, heffect, hbecomes⟩ := h.sound.performs seat .beginTxn
    (by simp [step, beginTxn, hidle])
  cases heffect with
  | begun here =>
    cases hidle.symm.trans here
    exact ⟨t, call_of_step rfl hs, h.seated ht hbecomes rfl rfl (.busy ⟨rfl, rfl, rfl⟩) rfl⟩

theorem Mirrors.refused (h : Mirrors b s) (hb : b.WellKept) (here : b.sessions seat = some ⟨name, some txn⟩)
    (unprepared : txn.prepared = false) {key : Int64} (taken : key ∈ txn.added ∨ key ∈ b.committed name)
    (value : Bytes) :
    ∃ failure, s.call seat (.insert key value) = some (.error (.failed failure), s) ∧
      Serial.repeated? failure = some key := by
  obtain ⟨own, hown, hmatches⟩ := h.busy here
  have hlive := hmatches.live
  have hunprepared : own.prepared = false := hmatches.prepared.trans unprepared
  -- a key of its own is refused for its lock, before the committed rows are looked at
  by_cases hnew : key ∈ txn.added
  · have hlocked := h.sound.lock_of_write hown (hmatches.keys ▸ hnew)
    exact ⟨.duplicateKeyWithin key own.id,
      call_of_step rfl (insert_declined hown hlive (.twice hunprepared hlocked) value), rfl⟩
  · have hrow : key ∈ (s.table name).rows := (h.rows name key).mpr (taken.resolve_left hnew)
    have hunlocked := h.unlocked hb here hnew
    exact ⟨.duplicateKey key,
      call_of_step rfl (insert_declined hown hlive (.present hunprepared hunlocked hrow) value), rfl⟩

theorem Mirrors.inserted (h : Mirrors b s) (hb : b.WellKept) (here : b.sessions seat = some ⟨name, some txn⟩)
    (unprepared : txn.prepared = false) {key : Int64} (new : key ∉ txn.added)
    (absent : key ∉ b.committed name) (value : Bytes) :
    ∃ t, s.call seat (.insert key value) = some (.ok .accepted, t) ∧
      Mirrors (b.seatAt seat (some ⟨name, some { txn with added := key :: txn.added }⟩)) t := by
  obtain ⟨own, hown, hmatches⟩ := h.busy here
  have hunprepared : own.prepared = false := hmatches.prepared.trans unprepared
  have hunlocked := h.unlocked hb here new
  obtain ⟨_, t, _, _, _, hs, ht, heffect, hbecomes⟩ := h.sound.performs seat (.insert key value)
    (isSome_insert hown hmatches.live key value)
  cases heffect with
  | inserted hmine _ _ _ _ =>
    cases hown.symm.trans hmine
    refine ⟨t, call_of_step rfl hs, h.seated ht hbecomes rfl rfl (.busy ?_) rfl⟩
    exact ⟨hmatches.live, hmatches.prepared, congrArg (key :: ·) hmatches.keys⟩
  | declined hmine _ why =>
    cases hown.symm.trans hmine
    cases why with
    | afterPrepare prepared => simp [hunprepared] at prepared
    | twice _ locked => simp [hunlocked] at locked
    | lockedOut _ locked _ => simp [hunlocked] at locked
    | present _ _ committed => exact absurd ((h.rows _ key).mp committed) absent

theorem Mirrors.prepared (h : Mirrors b s) (here : b.sessions seat = some ⟨name, some txn⟩)
    (unprepared : txn.prepared = false) (id : UInt64) :
    ∃ t, s.call seat (.prepare id) = some (.ok .accepted, t) ∧
      Mirrors (b.seatAt seat (some ⟨name, some { txn with prepared := true }⟩)) t := by
  obtain ⟨own, hown, hmatches⟩ := h.busy here
  have hunprepared : own.prepared = false := hmatches.prepared.trans unprepared
  obtain ⟨_, t, _, _, _, hs, ht, heffect, hbecomes⟩ := h.sound.performs seat .prepare
    (by simp [step, prepare, txn?_eq_some hown, hmatches.live, hunprepared])
  cases heffect with
  | prepared hmine _ _ =>
    cases hown.symm.trans hmine
    refine ⟨t, call_of_step rfl hs, h.seated ht hbecomes rfl rfl (.busy ?_) rfl⟩
    exact ⟨hmatches.live, rfl, hmatches.keys⟩
  | preparedBefore hmine _ prepared =>
    cases hown.symm.trans hmine
    simp [hunprepared] at prepared

theorem Mirrors.committed (h : Mirrors b s) (here : b.sessions seat = some ⟨name, some txn⟩) :
    ∃ t, s.call seat .commit = some (.ok .accepted, t) ∧
      Mirrors { (b.enter ⟨name, some txn⟩).seatAt seat (some ⟨name, none⟩) with live := none } t := by
  obtain ⟨own, hown, hmatches⟩ := h.busy here
  obtain ⟨_, a, _, _, _, hs, ha, heffect, happlied⟩ := h.sound.performs seat .applyWrites
    (by simp [step, applyWrites, txn?_eq_some hown, hmatches.live])
  cases heffect with
  | applied hmine _ =>
    cases hown.symm.trans hmine
    obtain ⟨t, hsteps, ht, hreleased⟩ :=
      exists_released ha happlied.here (by simp) (.ok .accepted)
    refine ⟨t, ?_, h.becomes ht (happlied.trans hreleased) rfl (.idle name) ?_ ?_⟩
    · rw [call, operations, steps, hs]
      exact hsteps
    · intro key
      change key ∈ (a.table name).rows ↔ key ∈ (b.enter ⟨name, some txn⟩).committed name
      rw [happlied.table_here, Book.committed_enter, if_pos rfl, mem_withWrites, h.rows,
        List.mem_append, or_comm]
      exact or_congr_left (iff_of_eq (congrArg (key ∈ ·) hmatches.keys))
    · intro other hne
      change (b.enter ⟨name, some txn⟩).committed other = b.committed other
      rw [Book.committed_enter, if_neg hne]

theorem Mirrors.aborted (h : Mirrors b s) (here : b.sessions seat = some ⟨name, some txn⟩) :
    ∃ t, s.call seat .abort = some (.ok .accepted, t) ∧
      Mirrors { b.seatAt seat (some ⟨name, none⟩) with live := none } t := by
  obtain ⟨own, hown, hmatches⟩ := h.busy here
  obtain ⟨t, hs, ht, hbecomes⟩ := exists_released h.sound hown (by simp [hmatches.live]) (.ok .accepted)
  exact ⟨t, hs, h.seated ht hbecomes rfl rfl (.idle name) rfl⟩

theorem Mirrors.dropped (h : Mirrors b s) (here : b.sessions seat = some ⟨name, some txn⟩) :
    ∃ t, s.call seat .dropTxn = some (.ok .accepted, t) ∧
      Mirrors { b.seatAt seat (some ⟨name, none⟩) with live := none } t := by
  obtain ⟨own, hown, hmatches⟩ := h.busy here
  obtain ⟨t, hs, ht, hbecomes⟩ := exists_dropped h.sound hown (by simp [hmatches.live])
  exact ⟨t, call_of_step rfl hs, h.seated ht hbecomes rfl rfl (.idle name) rfl⟩

theorem Mirrors.closed (h : Mirrors b s) (idle : b.sessions seat = some ⟨name, none⟩) :
    ∃ t, s.step seat .closeSession = some (.ok .accepted, t) ∧ Mirrors (b.seatAt seat none) t := by
  have hidle := h.idle idle
  obtain ⟨_, t, _, _, _, hs, ht, heffect, hbecomes⟩ := h.sound.performs seat .closeSession
    (by simp [step, closeSession, hidle])
  cases heffect with
  | closed _ => exact ⟨t, hs, h.seated ht hbecomes rfl rfl .free rfl⟩

theorem refines : Refines store Mirrors where
  counts := Mirrors.counts
  call {b s seat request kind c} h hb hturn := by
    cases hturn with
    | @opened _ name _ free _ =>
      obtain ⟨t, hcall, ht⟩ := h.opened free name
      exact ⟨t, .accepted hcall, ht⟩
    | begun idle _ =>
      obtain ⟨t, hcall, ht⟩ := h.begun idle
      exact ⟨t, .accepted hcall, ht⟩
    | @refused _ _ _ _ value here unprepared taken =>
      obtain ⟨failure, hcall, words⟩ := h.refused hb here unprepared taken value
      exact ⟨s, .duplicate hcall words, h⟩
    | @inserted _ _ _ _ value here unprepared new absent =>
      obtain ⟨t, hcall, ht⟩ := h.inserted hb here unprepared new absent value
      exact ⟨t, .accepted hcall, ht⟩
    | @prepared _ _ _ id here unprepared =>
      obtain ⟨t, hcall, ht⟩ := h.prepared here unprepared id
      exact ⟨t, .accepted hcall, ht⟩
    | committed here =>
      obtain ⟨t, hcall, ht⟩ := h.committed here
      exact ⟨t, .accepted hcall, ht⟩
    | rolledBack here ends =>
      rcases ends with rfl | rfl
      · obtain ⟨t, hcall, ht⟩ := h.aborted here
        exact ⟨t, .accepted hcall, ht⟩
      · obtain ⟨t, hcall, ht⟩ := h.dropped here
        exact ⟨t, .accepted hcall, ht⟩
    | closed idle ends =>
      obtain ⟨t, hs, ht⟩ := h.closed idle
      rcases ends with rfl | rfl
      · exact ⟨t, .accepted (call_of_step rfl hs), ht⟩
      · exact ⟨t, .accepted (call_of_step rfl hs), ht⟩

end InsertBench.RowLocks
