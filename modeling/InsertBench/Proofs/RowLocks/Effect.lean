import InsertBench.Store.RowLocks

/-! # What an operation does to tables with row locks

An operation through the session of a seat touches this session and one table. `Effect` lists what
it can find and what it leaves behind, and `step_effect` says that nothing else happens.
-/
namespace InsertBench.RowLocks

abbrev Locks := Std.ExtTreeMap Int64 UInt64

def Txn.keys (txn : Txn) : List Int64 := txn.writes.map Prod.fst

def withWrites (rows : Rows) (writes : List (Int64 × Bytes)) : Rows :=
  writes.foldr (fun entry rows => rows.insert entry.1 entry.2) rows

@[ext] theorem Table.ext {table other : Table} (hrows : table.rows = other.rows)
    (hlocks : table.locks = other.locks) : table = other := by
  cases table
  cases other
  cases hrows
  cases hlocks
  rfl

theorem mem_rows_iff {rows : Rows} {key : Int64} : key ∈ rows ↔ ∃ value, rows[key]? = some value := by
  rw [Std.ExtTreeMap.mem_iff_isSome_getElem?, Option.isSome_iff_exists]

@[simp] theorem table_setTable (s : RowLocks) (name other : String) (table : Table) :
    (s.setTable name table).table other = if name = other then table else s.table other := by
  simp only [RowLocks.table, setTable, Std.ExtTreeMap.getElem?_insert,
    Std.LawfulEqCmp.compare_eq_iff_eq]
  split <;> rfl

@[simp] theorem sessions_setTable (s : RowLocks) (name : String) (table : Table) :
    (s.setTable name table).sessions = s.sessions := rfl

@[simp] theorem table_setTxn (s : RowLocks) (seat : Nat) (session : Session) (txn : Option Txn)
    (name : String) : (s.setTxn seat session txn).table name = s.table name := rfl

@[simp] theorem sessions_setTxn (s : RowLocks) (seat other : Nat) (session : Session)
    (txn : Option Txn) :
    (s.setTxn seat session txn).sessions[other]? =
      if seat = other then some ⟨session.table, txn⟩ else s.sessions[other]? := by
  simp [setTxn, Std.ExtTreeMap.getElem?_insert]

theorem txn?_eq_some {s : RowLocks} {seat : Nat} {name : String} {txn : Txn}
    (h : s.sessions[seat]? = some ⟨name, some txn⟩) : s.txn? seat = some (⟨name, some txn⟩, txn) := by
  simp [txn?, h]

theorem session_of_txn? {s : RowLocks} {seat : Nat} {session : Session} {txn : Txn}
    (h : s.txn? seat = some (session, txn)) : s.sessions[seat]? = some ⟨session.table, some txn⟩ := by
  unfold txn? at h
  cases hs : s.sessions[seat]? with
  | none => simp [hs] at h
  | some found =>
    obtain ⟨name, open?⟩ := found
    cases open? with
    | none => simp [hs] at h
    | some txn =>
      simp only [hs, Option.bind_eq_bind, Option.bind_some, Option.pure_def, Option.some.injEq,
        Prod.mk.injEq] at h
      obtain ⟨rfl, rfl⟩ := h
      rfl

theorem getElem?_unlock (locks : Locks) (txn : Txn) (key : Int64) :
    (unlock locks txn)[key]? =
      if key ∈ txn.keys ∧ locks[key]? = some txn.id then none else locks[key]? := by
  unfold unlock Txn.keys
  induction txn.writes with
  | nil => simp
  | cons entry writes ih =>
    rw [List.foldr_cons]
    split
    · rename_i hheld
      rw [Std.ExtTreeMap.getElem?_erase]
      by_cases hkey : entry.1 = key
      · subst hkey
        rw [ih] at hheld
        split at hheld
        · cases hheld
        · simp [hheld]
      · simp only [Std.LawfulEqCmp.compare_eq_iff_eq, hkey, ↓reduceIte, ih, List.map_cons,
          List.mem_cons, Ne.symm hkey, false_or]
    · rename_i hheld
      by_cases hkey : entry.1 = key
      · subst hkey
        rw [ih] at hheld ⊢
        simp only [List.map_cons, List.mem_cons, true_or, true_and]
        split
        · rename_i h
          simp [h.2]
        · rename_i h
          rw [if_neg h] at hheld
          simp [hheld]
      · simp only [ih, List.map_cons, List.mem_cons, Ne.symm hkey, false_or]

theorem getElem?_withWrites (rows : Rows) (writes : List (Int64 × Bytes)) (key : Int64) :
    (withWrites rows writes)[key]? = (writes.lookup key).or rows[key]? := by
  unfold withWrites
  induction writes with
  | nil => rfl
  | cons entry writes ih =>
    rw [List.foldr_cons, Std.ExtTreeMap.getElem?_insert, ih, List.lookup_cons]
    by_cases hkey : entry.1 = key
    · simp [hkey]
    · simp [hkey, Ne.symm hkey, beq_false_of_ne]

theorem lookup_eq_none_iff {writes : List (Int64 × Bytes)} {key : Int64} :
    writes.lookup key = none ↔ key ∉ writes.map Prod.fst := by
  rw [List.lookup_eq_none_iff, List.mem_map]
  constructor
  · rintro h ⟨entry, hentry, rfl⟩
    exact bne_iff_ne.mp (h entry hentry) rfl
  · intro h entry hentry
    apply bne_iff_ne.mpr
    rintro rfl
    exact h ⟨entry, hentry, rfl⟩

theorem lookup_eq_some_iff_mem {writes : List (Int64 × Bytes)} (h : (writes.map Prod.fst).Nodup)
    {key : Int64} {value : Bytes} : writes.lookup key = some value ↔ (key, value) ∈ writes := by
  induction writes with
  | nil => simp
  | cons entry writes ih =>
    obtain ⟨first, value'⟩ := entry
    simp only [List.map_cons, List.nodup_cons] at h
    rw [List.lookup_cons, List.mem_cons, Prod.mk.injEq]
    by_cases hkey : key = first
    · subst hkey
      have hnot : (key, value) ∉ writes := fun hm => h.1 (List.mem_map_of_mem hm)
      simp [hnot, eq_comm]
    · simp [hkey, beq_false_of_ne, ih h.2]

theorem getElem?_withWrites_iff {rows : Rows} {writes : List (Int64 × Bytes)}
    (hdistinct : (writes.map Prod.fst).Nodup) (hfresh : ∀ key ∈ writes.map Prod.fst, key ∉ rows)
    {key : Int64} {value : Bytes} : (withWrites rows writes)[key]? = some value ↔
      rows[key]? = some value ∨ (key, value) ∈ writes := by
  rw [getElem?_withWrites, Option.or_eq_some_iff, lookup_eq_some_iff_mem hdistinct, lookup_eq_none_iff]
  constructor
  · rintro (hnew | ⟨_, hold⟩)
    · exact .inr hnew
    · exact .inl hold
  · rintro (hold | hnew)
    · refine .inr ⟨?_, hold⟩
      intro hkey
      exact hfresh key hkey (mem_rows_iff.mpr ⟨value, hold⟩)
    · exact .inl hnew

/-- Why an insert into a table leaves everything as it is, and what it replies. -/
inductive Declined (table : Table) (txn : Txn) (key : Int64) : Reply → Prop
  | afterPrepare (prepared : txn.prepared = true) :
      Declined table txn key (.error (.failed (.insertAfterPrepare txn.id)))
  | twice (unprepared : txn.prepared = false) (locked : table.locks[key]? = some txn.id) :
      Declined table txn key (.error (.failed (.duplicateKeyWithin key txn.id)))
  | lockedOut {holder : UInt64} (unprepared : txn.prepared = false)
      (locked : table.locks[key]? = some holder) (other : holder ≠ txn.id) :
      Declined table txn key (.ok .conflict)
  | present (unprepared : txn.prepared = false) (unlocked : table.locks[key]? = none)
      (committed : key ∈ table.rows) : Declined table txn key (.error (.failed (.duplicateKey key)))

/-- What an operation finds at its seat, what it replies, and the session and the table that it
leaves behind. -/
inductive Effect (s : RowLocks) (seat : Nat) :
    Operation → Reply → Option Session → String → Table → Prop
  | opened {name : String} (free : s.sessions[seat]? = none) :
      Effect s seat (.openSession name) (.ok .accepted) (some ⟨name, none⟩) name (s.table name)
  | begun {name : String} (idle : s.sessions[seat]? = some ⟨name, none⟩) :
      Effect s seat .beginTxn (.ok .accepted) (some ⟨name, some ⟨s.nextTxn, [], false, .live⟩⟩) name
        (s.table name)
  | inserted {name : String} {txn : Txn} {key : Int64} {value : Bytes}
      (here : s.sessions[seat]? = some ⟨name, some txn⟩) (live : txn.phase = .live)
      (unprepared : txn.prepared = false) (unlocked : (s.table name).locks[key]? = none)
      (absent : key ∉ (s.table name).rows) :
      Effect s seat (.insert key value) (.ok .accepted)
        (some ⟨name, some { txn with writes := (key, value) :: txn.writes }⟩) name
        { s.table name with locks := (s.table name).locks.insert key txn.id }
  | declined {name : String} {txn : Txn} {key : Int64} {value : Bytes} {reply : Reply}
      (here : s.sessions[seat]? = some ⟨name, some txn⟩) (live : txn.phase = .live)
      (why : Declined (s.table name) txn key reply) :
      Effect s seat (.insert key value) reply (some ⟨name, some txn⟩) name (s.table name)
  | prepared {name : String} {txn : Txn} (here : s.sessions[seat]? = some ⟨name, some txn⟩)
      (live : txn.phase = .live) (unprepared : txn.prepared = false) :
      Effect s seat .prepare (.ok .accepted) (some ⟨name, some { txn with prepared := true }⟩) name
        (s.table name)
  | preparedBefore {name : String} {txn : Txn} (here : s.sessions[seat]? = some ⟨name, some txn⟩)
      (live : txn.phase = .live) (prepared : txn.prepared = true) :
      Effect s seat .prepare (.error (.failed (.alreadyPrepared txn.id))) (some ⟨name, some txn⟩) name
        (s.table name)
  | applied {name : String} {txn : Txn} (here : s.sessions[seat]? = some ⟨name, some txn⟩)
      (live : txn.phase = .live) :
      Effect s seat .applyWrites (.ok .accepted) (some ⟨name, some { txn with phase := .applied }⟩) name
        { s.table name with rows := withWrites (s.table name).rows txn.writes }
  | released {name : String} {txn : Txn} (here : s.sessions[seat]? = some ⟨name, some txn⟩)
      (unreleased : txn.phase ≠ .released) :
      Effect s seat .releaseLocks (.ok .accepted)
        (some ⟨name, some { txn with writes := [], phase := .released }⟩) name
        { s.table name with locks := unlock (s.table name).locks txn }
  | dropped {name : String} {txn : Txn} (here : s.sessions[seat]? = some ⟨name, some txn⟩)
      (unapplied : txn.phase ≠ .applied) :
      Effect s seat .dropTxn (.ok .accepted) (some ⟨name, none⟩) name
        { s.table name with locks := unlock (s.table name).locks txn }
  | closed {name : String} (idle : s.sessions[seat]? = some ⟨name, none⟩) :
      Effect s seat .closeSession (.ok .accepted) none name (s.table name)

/-- One store differs from another only in the session of a seat and in one table. -/
structure Becomes (s : RowLocks) (seat : Nat) (session : Option Session) (name : String)
    (table : Table) (t : RowLocks) : Prop where
  sessions : ∀ other, t.sessions[other]? = if seat = other then session else s.sessions[other]?
  tables : ∀ other, t.table other = if name = other then table else s.table other

def Performs (s : RowLocks) (seat : Nat) (op : Operation) (reply : Reply) (t : RowLocks) : Prop :=
  ∃ session name table, Effect s seat op reply session name table ∧ Becomes s seat session name table t

variable {s t : RowLocks} {seat : Nat} {reply : Reply}

theorem becomes_refl (s : RowLocks) (seat : Nat) (name : String) :
    Becomes s seat s.sessions[seat]? name (s.table name) s where
  sessions other := by
    split
    · rename_i he
      rw [he]
    · rfl
  tables other := by
    split
    · rename_i he
      rw [he]
    · rfl

theorem becomes_self {session : Session} (h : s.sessions[seat]? = some session) :
    Becomes s seat (some session) session.table (s.table session.table) s := by
  rw [← h]
  exact becomes_refl s seat session.table

theorem Becomes.here {session : Option Session} {name : String} {table : Table}
    (h : Becomes s seat session name table t) : t.sessions[seat]? = session :=
  (h.sessions seat).trans (if_pos rfl)

theorem Becomes.table_here {session : Option Session} {name : String} {table : Table}
    (h : Becomes s seat session name table t) : t.table name = table :=
  (h.tables name).trans (if_pos rfl)

theorem Becomes.trans {u : RowLocks} {session next : Option Session} {name : String} {table after : Table}
    (h : Becomes s seat session name table t) (k : Becomes t seat next name after u) :
    Becomes s seat next name after u where
  sessions other := by
    rw [k.sessions, h.sessions]
    split <;> rfl
  tables other := by
    rw [k.tables, h.tables]
    split <;> rfl

theorem openSession_effect {name : String} (h : s.openSession seat name = some (reply, t)) :
    Performs s seat (.openSession name) reply t := by
  unfold openSession at h
  split at h
  · cases h
  · rename_i hfree
    cases h
    refine ⟨_, _, _, .opened (Std.ExtTreeMap.getElem?_eq_none hfree), ?_, ?_⟩
    · intro other
      simp [Std.ExtTreeMap.getElem?_insert]
    · intro other
      simp only [RowLocks.table, Std.ExtTreeMap.getElem?_insertIfNew, Std.LawfulEqCmp.compare_eq_iff_eq]
      by_cases he : name = other
      · subst he
        by_cases hn : name ∈ s.tables
        · simp [hn]
        · simp [hn]
      · simp [he]

theorem beginTxn_effect (h : s.beginTxn seat = some (reply, t)) :
    Performs s seat .beginTxn reply t := by
  unfold beginTxn at h
  split at h
  · rename_i name hidle
    cases h
    refine ⟨_, _, _, .begun hidle, ?_, ?_⟩
    · intro other
      simp [Std.ExtTreeMap.getElem?_insert]
    · intro other
      by_cases he : name = other
      · simp [he, RowLocks.table]
      · simp [he, RowLocks.table]
  · cases h

theorem insert_effect {key : Int64} {value : Bytes} (h : s.insert seat key value = some (reply, t)) :
    Performs s seat (.insert key value) reply t := by
  unfold insert at h
  split at h
  · rename_i session txn htxn
    have here := session_of_txn? htxn
    split at h
    · cases h
    · rename_i hlive
      have live := Classical.not_not.mp hlive
      split at h
      · rename_i hprepared
        cases h
        exact ⟨_, _, _, .declined here live (.afterPrepare hprepared), becomes_self here⟩
      · rename_i hprepared
        have unprepared := eq_false_of_ne_true hprepared
        dsimp only at h
        split at h
        · rename_i holder hlocked
          split at h
          · rename_i hown
            cases h
            exact ⟨_, _, _, .declined here live (.twice unprepared (hown ▸ hlocked)), becomes_self here⟩
          · rename_i hother
            cases h
            exact ⟨_, _, _, .declined here live (.lockedOut unprepared hlocked hother), becomes_self here⟩
        · rename_i hunlocked
          split at h
          · rename_i hpresent
            cases h
            exact ⟨_, _, _, .declined here live (.present unprepared hunlocked hpresent), becomes_self here⟩
          · rename_i habsent
            cases h
            refine ⟨_, _, _, .inserted here live unprepared hunlocked habsent, ?_, ?_⟩
            · intro other
              simp
            · intro other
              simp
  · cases h

theorem Declined.ne_accepted {table : Table} {txn : Txn} {key : Int64} (h : Declined table txn key reply) :
    reply ≠ .ok .accepted := by
  cases h <;> exact nofun

theorem insert_declined {name : String} {txn : Txn} {key : Int64}
    (here : s.sessions[seat]? = some ⟨name, some txn⟩) (live : txn.phase = .live)
    (why : Declined (s.table name) txn key reply) (value : Bytes) :
    s.insert seat key value = some (reply, s) := by
  cases why with
  | afterPrepare prepared => simp [insert, txn?_eq_some here, live, prepared]
  | twice unprepared locked => simp [insert, txn?_eq_some here, live, unprepared, locked]
  | lockedOut unprepared locked other => simp [insert, txn?_eq_some here, live, unprepared, locked, other]
  | present unprepared unlocked committed =>
    simp [insert, txn?_eq_some here, live, unprepared, unlocked, committed]

/-- What stands in the way of an insert, if anything does. -/
theorem declined_or_free (table : Table) (txn : Txn) (key : Int64) : (∃ reply, Declined table txn key reply) ∨
    txn.prepared = false ∧ table.locks[key]? = none ∧ key ∉ table.rows := by
  cases hprepared : txn.prepared with
  | true => exact .inl ⟨_, .afterPrepare hprepared⟩
  | false =>
    cases hlock : table.locks[key]? with
    | some holder =>
      by_cases hown : holder = txn.id
      · exact .inl ⟨_, .twice hprepared (hown ▸ hlock)⟩
      · exact .inl ⟨_, .lockedOut hprepared hlock hown⟩
    | none =>
      by_cases hrow : key ∈ table.rows
      · exact .inl ⟨_, .present hprepared hlock hrow⟩
      · exact .inr ⟨rfl, rfl, hrow⟩

theorem isSome_insert {name : String} {txn : Txn} (here : s.sessions[seat]? = some ⟨name, some txn⟩)
    (live : txn.phase = .live) (key : Int64) (value : Bytes) : (s.insert seat key value).isSome = true := by
  rw [insert, txn?_eq_some here]
  simp only [live, ne_eq, not_true_eq_false, ↓reduceIte]
  split
  · rfl
  · split <;> split <;> rfl

theorem isSome_prepare {name : String} {txn : Txn} (here : s.sessions[seat]? = some ⟨name, some txn⟩)
    (live : txn.phase = .live) : (s.prepare seat).isSome = true := by
  rw [prepare, txn?_eq_some here]
  simp only [live, ne_eq, not_true_eq_false, ↓reduceIte]
  split <;> rfl

theorem prepare_effect (h : s.prepare seat = some (reply, t)) :
    Performs s seat .prepare reply t := by
  unfold prepare at h
  split at h
  · rename_i session txn htxn
    have here := session_of_txn? htxn
    split at h
    · cases h
    · rename_i hlive
      have live := Classical.not_not.mp hlive
      split at h
      · rename_i hprepared
        cases h
        exact ⟨_, _, _, .preparedBefore here live hprepared, becomes_self here⟩
      · rename_i hprepared
        cases h
        refine ⟨_, _, _, .prepared here live (eq_false_of_ne_true hprepared), ?_, ?_⟩
        · intro other
          simp
        · intro other
          by_cases he : session.table = other <;> simp [he]
  · cases h

theorem applyWrites_effect (h : s.applyWrites seat = some (reply, t)) :
    Performs s seat .applyWrites reply t := by
  unfold applyWrites at h
  split at h
  · rename_i session txn htxn
    split at h
    · cases h
    · rename_i hlive
      cases h
      refine ⟨_, _, _, .applied (session_of_txn? htxn) (Classical.not_not.mp hlive), ?_, ?_⟩
      · intro other
        simp
      · intro other
        simp [withWrites]
  · cases h

theorem releaseLocks_effect (h : s.releaseLocks seat = some (reply, t)) :
    Performs s seat .releaseLocks reply t := by
  unfold releaseLocks at h
  split at h
  · rename_i session txn htxn
    split at h
    · cases h
    · rename_i hphase
      cases h
      refine ⟨_, _, _, .released (session_of_txn? htxn) hphase, ?_, ?_⟩
      · intro other
        simp [release]
      · intro other
        simp [release]
  · cases h

theorem dropTxn_effect (h : s.dropTxn seat = some (reply, t)) :
    Performs s seat .dropTxn reply t := by
  unfold dropTxn at h
  split at h
  · rename_i session txn htxn
    split at h
    · cases h
    · rename_i hphase
      cases h
      refine ⟨_, _, _, .dropped (session_of_txn? htxn) hphase, ?_, ?_⟩
      · intro other
        simp only [sessions_setTxn, release]
        split <;> rfl
      · intro other
        simp [release]
  · cases h

theorem closeSession_effect (h : s.closeSession seat = some (reply, t)) :
    Performs s seat .closeSession reply t := by
  unfold closeSession at h
  split at h
  · rename_i name hidle
    cases h
    refine ⟨_, name, _, .closed hidle, ?_, ?_⟩
    · intro other
      simp [Std.ExtTreeMap.getElem?_erase]
    · intro other
      by_cases he : name = other <;> simp [he, RowLocks.table]
  · cases h

theorem step_effect {op : Operation} (h : s.step seat op = some (reply, t)) :
    Performs s seat op reply t := by
  cases op with
  | openSession name => exact openSession_effect h
  | beginTxn => exact beginTxn_effect h
  | insert key value => exact insert_effect h
  | prepare => exact prepare_effect h
  | applyWrites => exact applyWrites_effect h
  | releaseLocks => exact releaseLocks_effect h
  | dropTxn => exact dropTxn_effect h
  | closeSession => exact closeSession_effect h

theorem rows_of_step {op : Operation} (h : s.step seat op = some (reply, t)) (hop : op ≠ .applyWrites)
    (table : String) : (t.table table).rows = (s.table table).rows := by
  obtain ⟨_, name, _, heffect, hb⟩ := step_effect h
  rw [hb.tables]
  split
  · rename_i hname
    subst hname
    cases heffect with
    | applied _ _ => exact absurd rfl hop
    | _ => rfl
  · rfl

theorem steps_cons {u : RowLocks} {before : Reply} {op : Operation} {ops : List Operation}
    (h : s.steps seat before (op :: ops) = some (reply, u)) :
    ∃ first t, s.step seat op = some (first, t) ∧ t.steps seat first ops = some (reply, u) := by
  simp only [steps] at h
  split at h
  · rename_i hstep
    exact ⟨_, _, hstep, h⟩
  · cases h

theorem steps_append {before : Reply} {first : List Operation}
    (h : s.steps seat before first = some (reply, t)) (second : List Operation) :
    s.steps seat before (first ++ second) = t.steps seat reply second := by
  induction first generalizing s before with
  | nil =>
    cases h
    rfl
  | cons op first ih =>
    obtain ⟨_, _, hstep, hrest⟩ := steps_cons h
    rw [List.cons_append, steps, hstep]
    exact ih hrest

theorem steps_keep {P : RowLocks → Prop} {before : Reply}
    (hP : ∀ {s op reply t}, P s → s.step seat op = some (reply, t) → P t) {ops : List Operation}
    (h : s.steps seat before ops = some (reply, t)) (hs : P s) : P t := by
  induction ops generalizing s before with
  | nil =>
    cases h
    exact hs
  | cons op ops ih =>
    obtain ⟨_, _, hstep, hrest⟩ := steps_cons h
    exact ih hrest (hP hs hstep)

theorem call_eq_step {request : Request} {op : Operation} (hone : operations request = [op]) :
    s.call seat request = s.step seat op := by
  rw [call, hone, steps]
  cases s.step seat op <;> rfl

theorem call_of_step {request : Request} {op : Operation} (hone : operations request = [op])
    (h : s.step seat op = some (reply, t)) : s.call seat request = some (reply, t) :=
  (call_eq_step hone).trans h

theorem step_of_call {request : Request} {op : Operation} (hone : operations request = [op])
    (h : s.call seat request = some (reply, t)) : s.step seat op = some (reply, t) :=
  (call_eq_step hone).symm.trans h

end InsertBench.RowLocks
