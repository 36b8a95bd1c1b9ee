import InsertBench.Proofs.RowLocks.Bookkeeping

/-! # What an insert under row locks is answered

A store decides on an insert by the locks and the rows of one table. For its clients this is about
transactions: a lock stands for one that was told that the key is inserted and is not over yet, and a row
for one that was committed. Transactions on other tables have no say in it.
-/
namespace InsertBench.RowLocks

/-- The keys of which the transaction begun last on a seat was told that they are inserted. -/
def told (log : List Event) (seat : Nat) : List Int64 := ((ledger log).pending seat).map Prod.fst

/-- A transaction of another seat on the same table was told that a key is inserted, and is not over. It is
over once it has given up its locks. -/
def ToldElsewhere (log : List Event) (s : RowLocks) (seat : Nat) (name : String) (key : Int64) : Prop :=
  ∃ (other : Nat) (txn : Txn), other ≠ seat ∧ s.sessions[other]? = some ⟨name, some txn⟩ ∧
    txn.phase ≠ .released ∧ key ∈ told log other

def Committed (log : List Event) (name : String) (key : Int64) : Prop :=
  key ∈ (rowsOf (ledger log).committed name).map Prod.fst

def FailsWith (reply : Reply) (message : String) : Prop :=
  ∃ why : Failure, reply = .error (.failed why) ∧ why.message = message

/-- A row is buffered and its key is locked, and nothing else changes. -/
structure Grown (s : RowLocks) (seat : Nat) (name : String) (txn : Txn) (key : Int64) (value : Bytes)
    (t : RowLocks) : Prop where
  unlocked : (s.table name).locks[key]? = none
  table : t.table name = { s.table name with locks := (s.table name).locks.insert key txn.id }
  tables (other : String) : name ≠ other → t.table other = s.table other
  sessions : t.sessions =
    s.sessions.insert seat ⟨name, some { txn with writes := (key, value) :: txn.writes }⟩
  nextTxn : t.nextTxn = s.nextTxn
  openSessions : t.openSessions = s.openSessions

/-- Two stores agree on a table if it has the same rows in both and the same sessions are on it. -/
structure AgreeOn (name : String) (s s' : RowLocks) : Prop where
  rows : (s'.table name).rows = (s.table name).rows
  sessions (seat : Nat) (open? : Option Txn) :
    s'.sessions[seat]? = some ⟨name, open?⟩ ↔ s.sessions[seat]? = some ⟨name, open?⟩

/-- The reply to an insert by what was told to the transactions so far, and what it changes. -/
structure Answers (log : List Event) (s : RowLocks) (seat : Nat) (name : String) (txn : Txn) (key : Int64)
    (value : Bytes) (reply : Reply) (t : RowLocks) : Prop where
  afterPrepare : txn.prepared = true → FailsWith reply s!"txn {txn.id}: insert after prepare"
  twice : txn.prepared = false → key ∈ told log seat →
    FailsWith reply s!"duplicate key {key} within txn {txn.id}"
  conflict : txn.prepared = false → key ∉ told log seat → ToldElsewhere log s seat name key →
    reply = .ok .conflict
  present : txn.prepared = false → key ∉ told log seat → ¬ToldElsewhere log s seat name key →
    Committed log name key → FailsWith reply s!"duplicate key {key}"
  accepted : txn.prepared = false → key ∉ told log seat → ¬ToldElsewhere log s seat name key →
    ¬Committed log name key → reply = .ok .accepted
  unchanged : reply ≠ .ok .accepted → t = s
  grown : reply = .ok .accepted → Grown s seat name txn key value t
  /-- Whatever there is on other tables, the reply is the same. -/
  elsewhere {log' : List Event} {s' t' : RowLocks} {reply' : Reply} : Reaches empty log' s' →
    AgreeOn name s s' → s'.step seat (.insert key value) = some (reply', t') → reply' = reply

variable {s t : RowLocks} {seat : Nat} {name : String} {txn : Txn} {key : Int64} {reply : Reply}
  {log : List Event}

theorem exists_grown (here : s.sessions[seat]? = some ⟨name, some txn⟩) (live : txn.phase = .live)
    (unprepared : txn.prepared = false) (unlocked : (s.table name).locks[key]? = none)
    (absent : key ∉ (s.table name).rows) (value : Bytes) :
    ∃ t, s.insert seat key value = some (.ok .accepted, t) ∧ Grown s seat name txn key value t := by
  refine ⟨(s.setTable name { s.table name with locks := (s.table name).locks.insert key txn.id }).setTxn seat
    ⟨name, some txn⟩ (some { txn with writes := (key, value) :: txn.writes }), ?_, ?_⟩
  · simp [insert, txn?_eq_some here, live, unprepared, unlocked, absent]
  · refine ⟨unlocked, ?_, ?_, rfl, rfl, rfl⟩
    · simp
    · intro other hne
      simp [hne]

theorem exists_insert (here : s.sessions[seat]? = some ⟨name, some txn⟩) (live : txn.phase = .live)
    (key : Int64) (value : Bytes) : ∃ reply t, s.insert seat key value = some (reply, t) ∧
      (reply ≠ .ok .accepted → t = s) ∧ (reply = .ok .accepted → Grown s seat name txn key value t) := by
  rcases declined_or_free (s.table name) txn key with ⟨reply, why⟩ | ⟨unprepared, unlocked, absent⟩
  · exact ⟨reply, s, insert_declined here live why value, fun _ => rfl,
      fun haccepted => absurd haccepted why.ne_accepted⟩
  · obtain ⟨t, hs, hgrown⟩ := exists_grown here live unprepared unlocked absent value
    exact ⟨_, t, hs, fun hne => absurd rfl hne, fun _ => hgrown⟩

theorem reply_eq_of_table {s' t' : RowLocks} {value : Bytes} {reply' : Reply}
    (here : s.sessions[seat]? = some ⟨name, some txn⟩) (here' : s'.sessions[seat]? = some ⟨name, some txn⟩)
    (live : txn.phase = .live) (htable : s'.table name = s.table name)
    (hs : s.insert seat key value = some (reply, t)) (hs' : s'.insert seat key value = some (reply', t')) :
    reply' = reply := by
  rcases declined_or_free (s.table name) txn key with ⟨_, why⟩ | ⟨unprepared, unlocked, absent⟩
  · cases hs.symm.trans (insert_declined here live why value)
    cases hs'.symm.trans (insert_declined here' live (htable ▸ why) value)
    rfl
  · obtain ⟨_, hfree, -⟩ := exists_grown here live unprepared unlocked absent value
    rw [← htable] at unlocked absent
    obtain ⟨_, hfree', -⟩ := exists_grown here' live unprepared unlocked absent value
    cases hs.symm.trans hfree
    cases hs'.symm.trans hfree'
    rfl

section Bridge

variable (h : Reaches empty log s)
include h

theorem Reaches.mem_told (here : s.sessions[seat]? = some ⟨name, some txn⟩) (hphase : txn.phase ≠ .released) :
    key ∈ told log seat ↔ key ∈ txn.keys := by
  rw [told, h.accounts.pending here hphase, List.map_reverse, List.mem_reverse, Txn.keys]

theorem Reaches.committed_iff : Committed log name key ↔ key ∈ (s.table name).rows := by
  rw [Committed, List.mem_map, mem_rows_iff]
  constructor
  · rintro ⟨⟨_, value⟩, hentry, rfl⟩
    exact ⟨value, h.accounts.rows.mpr hentry⟩
  · rintro ⟨value, hrow⟩
    exact ⟨(key, value), h.accounts.rows.mp hrow, rfl⟩

variable (hbegins : begins log < 2 ^ 64) (here : s.sessions[seat]? = some ⟨name, some txn⟩)
include hbegins here

/-- As long as ids are unique, a lock with the id of a transaction is its own. -/
theorem Reaches.told_iff_locked (live : txn.phase = .live) :
    key ∈ told log seat ↔ (s.table name).locks[key]? = some txn.id := by
  have hsound := h.sound quiescent_empty.sound
  rw [h.mem_told here (by simp [live])]
  constructor
  · exact hsound.lock_of_write here
  · intro hlock
    obtain ⟨other, holder, hother, hid, hkey⟩ := hsound.write_of_lock hlock
    obtain rfl : other = seat := (h.numbered hbegins).distinct hother here hid
    cases here.symm.trans hother
    exact hkey

theorem Reaches.toldElsewhere_iff_locked : ToldElsewhere log s seat name key ↔
    ∃ holder, (s.table name).locks[key]? = some holder ∧ holder ≠ txn.id := by
  have hsound := h.sound quiescent_empty.sound
  constructor
  · rintro ⟨other, holder, hne, hother, hphase, hkey⟩
    refine ⟨holder.id, hsound.lock_of_write hother ((h.mem_told hother hphase).mp hkey), ?_⟩
    intro hid
    exact hne ((h.numbered hbegins).distinct hother here hid)
  · rintro ⟨_, hlock, hid⟩
    obtain ⟨other, holder, hother, rfl, hkey⟩ := hsound.write_of_lock hlock
    -- the holder is not over, for then it would have no keys
    have hphase : holder.phase ≠ .released := by
      intro hreleased
      simp [Txn.keys, hsound.emptied hother hreleased] at hkey
    refine ⟨other, holder, ?_, hother, hphase, (h.mem_told hother hphase).mpr hkey⟩
    rintro rfl
    cases here.symm.trans hother
    exact hid rfl

theorem Reaches.unlocked_iff (live : txn.phase = .live) : (s.table name).locks[key]? = none ↔
    key ∉ told log seat ∧ ¬ToldElsewhere log s seat name key := by
  rw [h.told_iff_locked hbegins here live, h.toldElsewhere_iff_locked hbegins here]
  cases (s.table name).locks[key]? with
  | none => simp
  | some holder => simp

end Bridge

theorem AgreeOn.table_eq {s' : RowLocks} (h : AgreeOn name s s') (hs : Sound s) (hs' : Sound s') :
    s'.table name = s.table name := by
  ext1
  · exact h.rows
  · exact hs.locks_eq hs' fun seat txn => h.sessions seat (some txn)

/-- In every run from an empty store in which fewer transactions begin than there are ids, an insert is
answered at once. -/
theorem answers_of_reaches (h : Reaches empty log s) (hbegins : begins log < 2 ^ 64)
    (here : s.sessions[seat]? = some ⟨name, some txn⟩) (live : txn.phase = .live) (key : Int64)
    (value : Bytes) : ∃ reply t, s.step seat (.insert key value) = some (reply, t) ∧
      Answers log s seat name txn key value reply t := by
  have hsound := h.sound quiescent_empty.sound
  have hfree (hnew : key ∉ told log seat) (hnobody : ¬ToldElsewhere log s seat name key) :
      (s.table name).locks[key]? = none := (h.unlocked_iff hbegins here live).mpr ⟨hnew, hnobody⟩
  obtain ⟨reply, t, hs, hkept, hgrown⟩ := exists_insert here live key value
  -- what stands in the way determines the reply
  have hdeclined {other : Reply} (why : Declined (s.table name) txn key other) : reply = other := by
    cases hs.symm.trans (insert_declined here live why value)
    rfl
  refine ⟨reply, t, hs, ?_⟩
  constructor
  case afterPrepare =>
    intro prepared
    rw [hdeclined (.afterPrepare prepared)]
    exact ⟨_, rfl, rfl⟩
  case twice =>
    intro unprepared hkey
    rw [hdeclined (.twice unprepared ((h.told_iff_locked hbegins here live).mp hkey))]
    exact ⟨_, rfl, rfl⟩
  case conflict =>
    intro unprepared _ helsewhere
    obtain ⟨holder, hlock, hid⟩ := (h.toldElsewhere_iff_locked hbegins here).mp helsewhere
    exact hdeclined (.lockedOut unprepared hlock hid)
  case present =>
    intro unprepared hnew hnobody hrow
    rw [hdeclined (.present unprepared (hfree hnew hnobody) (h.committed_iff.mp hrow))]
    exact ⟨_, rfl, rfl⟩
  case accepted =>
    intro unprepared hnew hnobody habsent
    obtain ⟨_, haccepted, -⟩ :=
      exists_grown here live unprepared (hfree hnew hnobody) (mt h.committed_iff.mpr habsent) value
    cases hs.symm.trans haccepted
    rfl
  case unchanged => exact hkept
  case grown => exact hgrown
  case elsewhere =>
    intro log' s' t' reply' h' hagree hs'
    exact reply_eq_of_table here ((hagree.sessions ..).mpr here) live
      (hagree.table_eq hsound (h'.sound quiescent_empty.sound)) hs hs'

/-- One client is between the two halves of its commit, a second one works on another table, and a third
one inserts into the table of the first. -/
theorem answers_between : ∃ log s txn, Reaches empty log s ∧ begins log = 3 ∧
    s.sessions[2]? = some ⟨"t", some txn⟩ ∧ told log 1 = [2] ∧ ToldElsewhere log s 2 "t" 1 ∧
      Committed log "t" 1 ∧ ∀ (key : Int64) (value : Bytes), ∃ reply t,
        s.step 2 (.insert key value) = some (reply, t) ∧ Answers log s 2 "t" txn key value reply t := by
  have h1 : Reaches empty _ _ := .step .start (show step empty 0 (.openSession "t") = some _ from rfl)
  have h2 := h1.step (show step _ 0 .beginTxn = some _ from rfl)
  have h3 := h2.step (show step _ 0 (.insert 1 [7]) = some _ from rfl)
  have h4 := h3.step (show step _ 1 (.openSession "u") = some _ from rfl)
  have h5 := h4.step (show step _ 1 .beginTxn = some _ from rfl)
  have h6 := h5.step (show step _ 1 (.insert 2 [8]) = some _ from rfl)
  have h7 := h6.step (show step _ 2 (.openSession "t") = some _ from rfl)
  have h8 := h7.step (show step _ 2 .beginTxn = some _ from rfl)
  have h9 := h8.step (show step _ 0 .applyWrites = some _ from rfl)
  refine ⟨_, _, ⟨2, [], false, .live⟩, h9, rfl, rfl, rfl, ?_, ?_, answers_of_reaches h9 (by decide) rfl rfl⟩
  · exact ⟨0, ⟨0, [(1, [7])], false, .applied⟩, by decide, rfl, by decide, by decide⟩
  · exact List.mem_singleton_self (1 : Int64)

end InsertBench.RowLocks
