import InsertBench.Proofs.RowLocks.History

/-! # Committed transactions, one after another

What transactions committed among each other can be done again by a single client: replaying their
inserts in the order of the commits meets no conflict and no duplicate, and fills the same tables.
-/
namespace InsertBench.RowLocks

/-- The calls of a client that inserts the rows of a committed transaction again. -/
def Deed.requests (deed : Deed) : List Request :=
  .openSession deed.table :: .beginTxn :: (deed.rows.map fun row => .insert row.1 row.2) ++ [.commit, .close]

def serve (seat : Nat) : RowLocks → List Request → Option RowLocks
  | s, [] => some s
  | s, request :: rest =>
    match s.call seat request with
    | some (.ok .accepted, t) => serve seat t rest
    | _ => none

def replay (deeds : List Deed) : Option RowLocks := serve 0 empty (deeds.flatMap Deed.requests)

theorem serve_append (seat : Nat) (s : RowLocks) (first second : List Request) :
    serve seat s (first ++ second) = (serve seat s first).bind fun t => serve seat t second := by
  induction first generalizing s with
  | nil => rfl
  | cons request first ih =>
    rw [List.cons_append, serve, serve]
    cases hc : s.call seat request with
    | none => rfl
    | some found =>
      obtain ⟨reply, t⟩ := found
      rcases reply with stop | verdict
      · rfl
      · cases verdict
        · exact ih t
        · rfl

/-- A sound store on which one seat at most has a session. -/
structure Alone (s : RowLocks) (seat : Nat) (session : Option Session) : Prop where
  sound : Sound s
  sessions (other : Nat) : s.sessions[other]? = if seat = other then session else none

variable {s t : RowLocks} {seat : Nat} {name : String} {session next : Option Session} {table : Table}

theorem Alone.here (h : Alone s seat session) : s.sessions[seat]? = session := by
  rw [h.sessions, if_pos rfl]

theorem Alone.becomes (h : Alone s seat session) (ht : Sound t)
    (hb : Becomes s seat next name table t) : Alone t seat next where
  sound := ht
  sessions other := by
    rw [hb.sessions, h.sessions]
    split <;> rfl

theorem Quiescent.alone (h : Quiescent s) (seat : Nat) : Alone s seat none where
  sound := h.sound
  sessions other := by simp [h.sessions]

theorem Alone.quiescent (h : Alone s seat none) : Quiescent s where
  sessions other := by simp [h.sessions]
  locks name key := by
    cases hl : (s.table name).locks[key]? with
    | none => rfl
    | some id =>
      obtain ⟨other, txn, hf, _⟩ := h.sound.write_of_lock hl
      simp [h.sessions] at hf

theorem Alone.unlocked {txn : Txn} (h : Alone s seat (some ⟨name, some txn⟩)) {key : Int64}
    (hkey : key ∉ txn.keys) : (s.table name).locks[key]? = none := by
  cases hl : (s.table name).locks[key]? with
  | none => rfl
  | some id =>
    obtain ⟨other, found, hf, _, hmem⟩ := h.sound.write_of_lock hl
    rw [h.sessions] at hf
    split at hf
    · cases hf
      exact absurd hmem hkey
    · cases hf

theorem Alone.keeps_rows (h : Alone s seat session) {op : Operation} {reply : Reply}
    (hs : s.step seat op = some (reply, t)) (hb : Becomes s seat next name table t)
    (hrows : table.rows = (s.table name).rows) :
    Alone t seat next ∧ ∀ other, (t.table other).rows = (s.table other).rows := by
  refine ⟨h.becomes (h.sound.step hs) hb, ?_⟩
  intro other
  rw [hb.tables]
  split
  · rename_i he
    rw [hrows, he]
  · rfl

theorem Alone.opened (h : Alone s seat none) (name : String) :
    ∃ t, s.step seat (.openSession name) = some (.ok .accepted, t) ∧ Alone t seat (some ⟨name, none⟩) ∧
      ∀ other, (t.table other).rows = (s.table other).rows := by
  have hs : ∃ reply t, s.step seat (.openSession name) = some (reply, t) := by
    have hfree : seat ∉ s.sessions := by
      rw [Std.ExtTreeMap.mem_iff_isSome_getElem?, h.here]
      simp
    simp only [RowLocks.step, openSession, if_neg hfree]
    exact ⟨_, _, rfl⟩
  obtain ⟨reply, t, hs⟩ := hs
  obtain ⟨_, _, _, heffect, hb⟩ := step_effect hs
  cases heffect with
  | opened free => exact ⟨t, hs, h.keeps_rows hs hb rfl⟩

theorem Alone.begun (h : Alone s seat (some ⟨name, none⟩)) :
    ∃ t, s.step seat .beginTxn = some (.ok .accepted, t) ∧
      Alone t seat (some ⟨name, some ⟨s.nextTxn, [], false, .live⟩⟩) ∧
      ∀ other, (t.table other).rows = (s.table other).rows := by
  have hs : ∃ reply t, s.step seat .beginTxn = some (reply, t) := by
    simp only [RowLocks.step, beginTxn, h.here]
    exact ⟨_, _, rfl⟩
  obtain ⟨reply, t, hs⟩ := hs
  obtain ⟨_, _, _, heffect, hb⟩ := step_effect hs
  cases heffect with
  | begun idle =>
    rw [h.here] at idle
    cases idle
    exact ⟨t, hs, h.keeps_rows hs hb rfl⟩

theorem Alone.inserted {txn : Txn} (h : Alone s seat (some ⟨name, some txn⟩)) (hlive : txn.phase = .live)
    (hunprepared : txn.prepared = false) {key : Int64} (value : Bytes) (hkey : key ∉ txn.keys)
    (hrow : key ∉ (s.table name).rows) :
    ∃ t, s.step seat (.insert key value) = some (.ok .accepted, t) ∧
      Alone t seat (some ⟨name, some { txn with writes := (key, value) :: txn.writes }⟩) ∧
      ∀ other, (t.table other).rows = (s.table other).rows := by
  have hs : ∃ reply t, s.step seat (.insert key value) = some (reply, t) := by
    simp only [RowLocks.step, insert, txn?_eq_some h.here, hlive, hunprepared, h.unlocked hkey, hrow]
    exact ⟨_, _, rfl⟩
  obtain ⟨reply, t, hs⟩ := hs
  obtain ⟨_, _, _, heffect, hb⟩ := step_effect hs
  cases heffect with
  | inserted here _ _ _ _ =>
    rw [h.here] at here
    cases here
    exact ⟨t, hs, h.keeps_rows hs hb rfl⟩
  | declined here _ why =>
    rw [h.here] at here
    cases here
    cases why with
    | afterPrepare prepared => simp [hunprepared] at prepared
    | twice _ locked => simp [h.unlocked hkey] at locked
    | lockedOut _ locked _ => simp [h.unlocked hkey] at locked
    | present _ _ committed => exact absurd committed hrow

theorem Alone.applied {txn : Txn} (h : Alone s seat (some ⟨name, some txn⟩)) (hlive : txn.phase = .live) :
    ∃ t, s.step seat .applyWrites = some (.ok .accepted, t) ∧
      Alone t seat (some ⟨name, some { txn with phase := .applied }⟩) ∧
      ∀ other, (t.table other).rows =
        if name = other then withWrites (s.table name).rows txn.writes else (s.table other).rows := by
  have hs : ∃ reply t, s.step seat .applyWrites = some (reply, t) := by
    simp only [RowLocks.step, applyWrites, txn?_eq_some h.here, hlive]
    exact ⟨_, _, rfl⟩
  obtain ⟨reply, t, hs⟩ := hs
  obtain ⟨_, _, _, heffect, hb⟩ := step_effect hs
  cases heffect with
  | applied here _ =>
    rw [h.here] at here
    cases here
    refine ⟨t, hs, h.becomes (h.sound.step hs) hb, ?_⟩
    intro other
    rw [hb.tables]
    split <;> rfl

theorem Alone.released {txn : Txn} (h : Alone s seat (some ⟨name, some txn⟩))
    (hphase : txn.phase ≠ .released) :
    ∃ t, s.step seat .releaseLocks = some (.ok .accepted, t) ∧
      Alone t seat (some ⟨name, some { txn with writes := [], phase := .released }⟩) ∧
      ∀ other, (t.table other).rows = (s.table other).rows := by
  have hs : ∃ reply t, s.step seat .releaseLocks = some (reply, t) := by
    simp only [RowLocks.step, releaseLocks, txn?_eq_some h.here, if_neg hphase]
    exact ⟨_, _, rfl⟩
  obtain ⟨reply, t, hs⟩ := hs
  obtain ⟨_, _, _, heffect, hb⟩ := step_effect hs
  cases heffect with
  | released here _ =>
    rw [h.here] at here
    cases here
    exact ⟨t, hs, h.keeps_rows hs hb rfl⟩

theorem Alone.dropped {txn : Txn} (h : Alone s seat (some ⟨name, some txn⟩))
    (hphase : txn.phase ≠ .applied) :
    ∃ t, s.step seat .dropTxn = some (.ok .accepted, t) ∧ Alone t seat (some ⟨name, none⟩) ∧
      ∀ other, (t.table other).rows = (s.table other).rows := by
  have hs : ∃ reply t, s.step seat .dropTxn = some (reply, t) := by
    simp only [RowLocks.step, dropTxn, txn?_eq_some h.here, if_neg hphase]
    exact ⟨_, _, rfl⟩
  obtain ⟨reply, t, hs⟩ := hs
  obtain ⟨_, _, _, heffect, hb⟩ := step_effect hs
  cases heffect with
  | dropped here _ =>
    rw [h.here] at here
    cases here
    exact ⟨t, hs, h.keeps_rows hs hb rfl⟩

theorem Alone.closed (h : Alone s seat (some ⟨name, none⟩)) :
    ∃ t, s.step seat .closeSession = some (.ok .accepted, t) ∧ Alone t seat none ∧
      ∀ other, (t.table other).rows = (s.table other).rows := by
  have hs : ∃ reply t, s.step seat .closeSession = some (reply, t) := by
    simp only [RowLocks.step, closeSession, h.here]
    exact ⟨_, _, rfl⟩
  obtain ⟨reply, t, hs⟩ := hs
  obtain ⟨_, _, _, heffect, hb⟩ := step_effect hs
  cases heffect with
  | closed idle =>
    rw [h.here] at idle
    cases idle
    exact ⟨t, hs, h.keeps_rows hs hb rfl⟩

theorem serve_of_step {request : Request} {op : Operation} (ho : operations request = [op])
    (hs : s.step seat op = some (.ok .accepted, t)) (rest : List Request) :
    serve seat s (request :: rest) = serve seat t rest := by
  simp [serve, call, ho, steps, hs]

/-- The last calls of the only client: its writes become rows, and its session is closed. -/
theorem Alone.finished {txn : Txn} (h : Alone s seat (some ⟨name, some txn⟩)) (hlive : txn.phase = .live) :
    ∃ t, serve seat s [.commit, .close] = some t ∧ Alone t seat none ∧
      ∀ other, (t.table other).rows =
        if name = other then withWrites (s.table name).rows txn.writes else (s.table other).rows := by
  obtain ⟨a, happly, ha, hrows⟩ := h.applied hlive
  obtain ⟨b, hrelease, hb, hb'⟩ := ha.released (by simp)
  obtain ⟨c, hdrop, hc, hc'⟩ := hb.dropped (by simp)
  obtain ⟨t, hclose, ht, ht'⟩ := hc.closed
  refine ⟨t, ?_, ht, fun other => by rw [ht', hc', hb', hrows]⟩
  have hcommit : s.call seat .commit = some (.ok .accepted, c) := by
    simp [call, operations, steps, happly, hrelease, hdrop]
  rw [serve, hcommit]
  exact serve_of_step rfl hclose []

/-- The only client inserts rows with keys of which none is committed and none repeats. -/
theorem Alone.insertedAll {txn : Txn} (h : Alone s seat (some ⟨name, some txn⟩)) (hlive : txn.phase = .live)
    (hunprepared : txn.prepared = false) {rows : List (Int64 × Bytes)}
    (hdistinct : (txn.keys.reverse ++ rows.map Prod.fst).Nodup)
    (hrows : ∀ key ∈ rows.map Prod.fst, key ∉ (s.table name).rows) :
    ∃ t, serve seat s (rows.map fun row => .insert row.1 row.2) = some t ∧
      Alone t seat (some ⟨name, some { txn with writes := rows.reverse ++ txn.writes }⟩) ∧
      ∀ other, (t.table other).rows = (s.table other).rows := by
  induction rows generalizing s txn with
  | nil => exact ⟨s, rfl, h, fun _ => rfl⟩
  | cons row rows ih =>
    obtain ⟨key, value⟩ := row
    have hkey : key ∉ txn.keys := by
      intro hmem
      have := List.nodup_append.mp hdistinct
      exact this.2.2 key (List.mem_reverse.mpr hmem) key (List.mem_cons_self ..) rfl
    obtain ⟨a, hinsert, ha, ha'⟩ :=
      h.inserted hlive hunprepared value hkey (hrows key (List.mem_cons_self ..))
    have hrest : ∀ other ∈ rows.map Prod.fst, other ∉ (a.table name).rows := by
      intro other hother
      rw [ha']
      exact hrows other (List.mem_cons_of_mem _ hother)
    obtain ⟨t, hserve, ht, ht'⟩ := ih ha hlive hunprepared (by simpa [Txn.keys] using hdistinct) hrest
    refine ⟨t, ?_, by simpa using ht, fun other => by rw [ht', ha']⟩
    rw [List.map_cons, serve_of_step rfl hinsert]
    exact hserve

theorem Quiescent.serve_deed (h : Quiescent s) (seat : Nat) {deed : Deed}
    (hdistinct : (deed.rows.map Prod.fst).Nodup)
    (hrows : ∀ key ∈ deed.rows.map Prod.fst, key ∉ (s.table deed.table).rows) :
    ∃ t, serve seat s deed.requests = some t ∧ Quiescent t ∧
      ∀ other, (t.table other).rows =
        if deed.table = other then withWrites (s.table deed.table).rows deed.rows.reverse
        else (s.table other).rows := by
  obtain ⟨a, hopen, ha, ha'⟩ := (h.alone seat).opened deed.table
  obtain ⟨b, hbegin, hb, hb'⟩ := ha.begun
  obtain ⟨c, hinsert, hc, hc'⟩ := hb.insertedAll rfl rfl (by simpa [Txn.keys] using hdistinct)
    (by simpa only [hb', ha'] using hrows)
  obtain ⟨t, hfinish, ht, ht'⟩ := hc.finished rfl
  refine ⟨t, ?_, ht.quiescent, fun other => ?_⟩
  · rw [Deed.requests, List.cons_append, List.cons_append, serve_of_step rfl hopen,
      serve_of_step rfl hbegin, serve_append, hinsert]
    exact hfinish
  · rw [ht']
    simp only [hc', hb', ha', List.append_nil]

theorem rowsOf_cons (deed : Deed) (deeds : List Deed) (name : String) :
    rowsOf (deed :: deeds) name = (if deed.table = name then deed.rows else []) ++ rowsOf deeds name := rfl

/-- Doing transactions again that share no key, neither with each other nor with what is committed. -/
theorem Quiescent.serve_deeds (h : Quiescent s) (seat : Nat) (deeds : List Deed)
    (hdistinct : ∀ name, ((rowsOf deeds name).map Prod.fst).Nodup)
    (hrows : ∀ name, ∀ key ∈ (rowsOf deeds name).map Prod.fst, key ∉ (s.table name).rows) :
    ∃ t, serve seat s (deeds.flatMap Deed.requests) = some t ∧ ∀ name key value,
      (t.table name).rows[key]? = some value ↔
        (s.table name).rows[key]? = some value ∨ (key, value) ∈ rowsOf deeds name := by
  induction deeds generalizing s with
  | nil => exact ⟨s, rfl, by simp [rowsOf]⟩
  | cons deed deeds ih =>
    have hmine := hdistinct deed.table
    rw [rowsOf_cons, if_pos rfl, List.map_append, List.nodup_append] at hmine
    have hmineRows : ∀ key ∈ deed.rows.map Prod.fst, key ∉ (s.table deed.table).rows := by
      intro key hkey
      apply hrows deed.table key
      rw [rowsOf_cons, if_pos rfl, List.map_append]
      exact List.mem_append_left _ hkey
    obtain ⟨a, hdeed, ha, harows⟩ := h.serve_deed seat hmine.1 hmineRows
    have hreverse : (deed.rows.reverse.map Prod.fst).Nodup := by
      rw [List.map_reverse]
      exact List.nodup_reverse.mpr hmine.1
    have hget (name : String) (key : Int64) (value : Bytes) : (a.table name).rows[key]? = some value ↔
        (s.table name).rows[key]? = some value ∨ deed.table = name ∧ (key, value) ∈ deed.rows := by
      rw [harows]
      split
      · rename_i he
        subst he
        rw [getElem?_withWrites_iff hreverse, List.mem_reverse]
        · simp
        · intro key hkey
          rw [List.map_reverse, List.mem_reverse] at hkey
          exact hmineRows key hkey
      · rename_i he
        simp [he]
    have hrestDistinct (name : String) : ((rowsOf deeds name).map Prod.fst).Nodup := by
      have := hdistinct name
      rw [rowsOf_cons, List.map_append, List.nodup_append] at this
      exact this.2.1
    -- no deed shares a key with the first, whose rows are committed by now
    have hrestRows (name : String) : ∀ key ∈ (rowsOf deeds name).map Prod.fst, key ∉ (a.table name).rows := by
      intro key hkey hmem
      obtain ⟨value, hvalue⟩ := mem_rows_iff.mp hmem
      rcases (hget name key value).mp hvalue with hold | ⟨rfl, hnew⟩
      · refine hrows name key ?_ (mem_rows_iff.mpr ⟨_, hold⟩)
        rw [rowsOf_cons, List.map_append]
        exact List.mem_append_right _ hkey
      · exact hmine.2.2 key (List.mem_map_of_mem hnew) key hkey rfl
    obtain ⟨t, hrest, ht⟩ := ih ha hrestDistinct hrestRows
    refine ⟨t, ?_, fun name key value => ?_⟩
    · rw [List.flatMap_cons, serve_append, hdeed]
      exact hrest
    · rw [ht, hget, rowsOf_cons, List.mem_append, or_assoc]
      split
      · rename_i he
        simp [he]
      · rename_i he
        simp [he]

/-- Replaying the committed transactions of a run gives the tables of the run. -/
theorem Reaches.replay {log : List Event} (h : Reaches empty log s) :
    ∃ t, RowLocks.replay (ledger log).committed = some t ∧ ∀ name,
      (t.table name).rows = (s.table name).rows := by
  have haccounts := h.accounts
  obtain ⟨t, ht, hrows⟩ := quiescent_empty.serve_deeds 0 (ledger log).committed
    (fun name => haccounts.distinct) (fun name key _ => by simp [RowLocks.table, empty, Table.empty])
  refine ⟨t, ht, fun name => Std.ExtTreeMap.ext_getElem? fun key => Option.ext fun value => ?_⟩
  rw [hrows, haccounts.rows]
  simp [RowLocks.table, empty, Table.empty]

theorem pairwise_disjoint {deeds : List Deed} (h : ∀ name, ((rowsOf deeds name).map Prod.fst).Nodup) :
    deeds.Pairwise fun a b => a.table = b.table → (a.rows.map Prod.fst).Disjoint (b.rows.map Prod.fst) := by
  induction deeds with
  | nil => exact .nil
  | cons deed deeds ih =>
    refine .cons ?_ (ih fun name => ?_)
    · intro other hother he key hkey hkey'
      have := h deed.table
      rw [rowsOf_cons, if_pos rfl, List.map_append, List.nodup_append] at this
      refine this.2.2 key hkey key ?_ rfl
      obtain ⟨entry, hentry, rfl⟩ := List.mem_map.mp hkey'
      refine List.mem_map_of_mem (List.mem_flatMap.mpr ⟨other, hother, ?_⟩)
      rwa [if_pos he.symm]
    · have := h name
      rw [rowsOf_cons, List.map_append, List.nodup_append] at this
      exact this.2.1

/-- What a store holds is what the committed transactions of the log inserted, each key once. -/
structure HoldsCommitted (log : List Event) (s : RowLocks) : Prop where
  rows (name : String) (key : Int64) (value : Bytes) :
    (s.table name).rows[key]? = some value ↔ (key, value) ∈ rowsOf (ledger log).committed name
  distinct (name : String) : ((rowsOf (ledger log).committed name).map Prod.fst).Nodup
  apart : (ledger log).committed.Pairwise fun a b =>
    a.table = b.table → (a.rows.map Prod.fst).Disjoint (b.rows.map Prod.fst)
  kept {more : List Event} {t : RowLocks} : Reaches s more t →
    ∀ (name : String) (key : Int64) (value : Bytes),
      (s.table name).rows[key]? = some value → (t.table name).rows[key]? = some value
  serial : ∃ t, replay (ledger log).committed = some t ∧ ∀ name, (t.table name).rows = (s.table name).rows

/-- In every run from an empty store, with a commit in two operations between which others may act, no
row is lost, duplicated or overwritten, and the committed transactions could have run one by one. -/
theorem holdsCommitted_of_reaches {log : List Event} (h : Reaches empty log s) : HoldsCommitted log s where
  rows _ _ _ := h.accounts.rows
  distinct _ := h.accounts.distinct
  apart := pairwise_disjoint fun _ => h.accounts.distinct
  kept hmore _ _ _ hrow := hmore.rows_kept (h.sound quiescent_empty.sound) hrow
  serial := h.replay

/-- Two clients want the same key while the commit of one of them is half done. -/
theorem holdsCommitted_half_committed : ∃ log s, Reaches empty log s ∧
    (ledger log).committed = [⟨"t", [(1, [7])]⟩] ∧ (s.table "t").locks[(1 : Int64)]? = some 0 ∧
      log.getLast?.map Event.reply = some (.ok .conflict) ∧ HoldsCommitted log s := by
  have h1 : Reaches empty _ _ := .step .start (show step empty 0 (.openSession "t") = some _ from rfl)
  have h2 := h1.step (show step _ 0 .beginTxn = some _ from rfl)
  have h3 := h2.step (show step _ 0 (.insert 1 [7]) = some _ from rfl)
  have h4 := h3.step (show step _ 1 (.openSession "t") = some _ from rfl)
  have h5 := h4.step (show step _ 1 .beginTxn = some _ from rfl)
  have h6 := h5.step (show step _ 0 .applyWrites = some _ from rfl)
  have h7 := h6.step (show step _ 1 (.insert 1 [8]) = some _ from rfl)
  exact ⟨_, _, h7, rfl, rfl, rfl, holdsCommitted_of_reaches h7⟩

end InsertBench.RowLocks
