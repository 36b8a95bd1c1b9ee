import InsertBench.Proofs.RowLocks.Bookkeeping

/-! # Rolling back under row locks

What a transaction wrote is kept in its buffer, and its locks are the keys of its buffer. So an abort, or
letting go of the transaction, has to give up these locks and nothing else, and to do so twice is to do it
once: after the first time the buffer is empty.
-/
namespace InsertBench

def Request.fills : Request → Bool
  | .insert .. | .prepare _ => true
  | _ => false

namespace RowLocks

def Operation.ofTxn : Operation → Bool
  | .openSession _ | .beginTxn | .closeSession => false
  | _ => true

/-- The sessions of other seats and the counters are as they were. -/
structure OthersKept (s : RowLocks) (seat : Nat) (t : RowLocks) : Prop where
  sessions (other : Nat) : seat ≠ other → t.sessions[other]? = s.sessions[other]?
  nextTxn : t.nextTxn = s.nextTxn
  openSessions : t.openSessions = s.openSessions

/-- The locks of a transaction are given up, and nothing else changes but its own session. -/
structure Frees (s : RowLocks) (seat : Nat) (name : String) (txn : Txn) (t : RowLocks) : Prop
    extends OthersKept s seat t where
  rows (table : String) : (t.table table).rows = (s.table table).rows
  own (key : Int64) : key ∈ txn.keys →
    (s.table name).locks[key]? = some txn.id ∧ (t.table name).locks[key]? = none
  others (key : Int64) : key ∉ txn.keys → (t.table name).locks[key]? = (s.table name).locks[key]?
  tables (table : String) : name ≠ table → t.table table = s.table table
  /-- No other transaction loses a lock. -/
  kept (other : Nat) (table : String) (txn : Txn) (key : Int64) : seat ≠ other →
    s.sessions[other]? = some ⟨table, some txn⟩ → key ∈ txn.keys → (t.table table).locks[key]? = some txn.id

structure Unaffected (s : RowLocks) (seat : Nat) (t : RowLocks) : Prop extends OthersKept s seat t where
  tables (table : String) : t.table table = s.table table

/-- As if a transaction had not been there, except for its number. -/
structure Undone (s t : RowLocks) : Prop where
  tables (table : String) : t.table table = s.table table
  sessions : t.sessions = s.sessions
  nextTxn : t.nextTxn = s.nextTxn + 1
  openSessions : t.openSessions = s.openSessions

/-- What it does to a store that a transaction of a seat is rolled back. -/
structure RollsBack (s : RowLocks) (seat : Nat) (name : String) : Prop where
  /-- Nobody else does anything from its begin to its end. -/
  alone {requests : List Request} {ending : Request} : s.sessions[seat]? = some ⟨name, none⟩ →
    (∀ request ∈ requests, request.fills = true) → ending = .abort ∨ ending = .dropTxn →
      ∃ t, s.steps seat (.ok .accepted) ((.beginTxn :: requests ++ [ending]).flatMap operations) =
        some (.ok .accepted, t) ∧ Undone s t
  /-- The first operation of an abort, or letting go of it at once, whatever others have done. -/
  among {txn : Txn} {op : Operation} : s.sessions[seat]? = some ⟨name, some txn⟩ → txn.phase = .live →
    op = .releaseLocks ∨ op = .dropTxn →
      ∃ t, s.step seat op = some (.ok .accepted, t) ∧ Frees s seat name txn t
  /-- The last operation of a commit or an abort, whatever others have done since its locks were given up. -/
  again {reply : Reply} {t u : RowLocks} {more : List Event} :
    s.step seat .releaseLocks = some (reply, t) → Reaches t more u → (∀ event ∈ more, event.seat ≠ seat) →
      ∃ v, u.step seat .dropTxn = some (.ok .accepted, v) ∧ Unaffected u seat v

variable {s t u : RowLocks} {seat : Nat} {name : String} {txn : Txn} {op : Operation} {reply before : Reply}

theorem othersKept_of_step (hs : s.step seat op = some (reply, t)) (hop : op.ofTxn = true) :
    OthersKept s seat t := by
  obtain ⟨_, _, _, _, hb⟩ := step_effect hs
  have hcounts := counts_of_step hs
  constructor
  case sessions =>
    intro other hne
    rw [hb.sessions, if_neg hne]
  case nextTxn =>
    rw [hcounts.nextTxn, if_neg]
    rintro rfl
    cases hop
  case openSessions =>
    rw [hcounts.openSessions]
    cases op <;> first | rfl | cases hop

section Alone

/-- A store while a transaction goes on that began on `s`, and nobody else does anything. -/
structure Begun (s : RowLocks) (seat : Nat) (session : Session) (t : RowLocks) : Prop where
  sound : Sound t
  here : t.sessions[seat]? = some session
  sessions (other : Nat) : seat ≠ other → t.sessions[other]? = s.sessions[other]?
  rows (table : String) : (t.table table).rows = (s.table table).rows
  nextTxn : t.nextTxn = s.nextTxn + 1
  openSessions : t.openSessions = s.openSessions

variable {session next : Session}

theorem Begun.step (h : Begun s seat session t) (hs : t.step seat op = some (reply, u))
    (hop : op.ofTxn = true) (happly : op ≠ .applyWrites) (hnext : u.sessions[seat]? = some next) :
    Begun s seat next u := by
  have hothers := othersKept_of_step hs hop
  constructor
  case sound => exact h.sound.step hs
  case here => exact hnext
  case sessions =>
    intro other hne
    rw [hothers.sessions other hne, h.sessions other hne]
  case rows =>
    intro table
    rw [rows_of_step hs happly, h.rows]
  case nextTxn => rw [hothers.nextTxn, h.nextTxn]
  case openSessions => rw [hothers.openSessions, h.openSessions]

theorem Sound.begun (hsound : Sound s) (idle : s.sessions[seat]? = some ⟨name, none⟩) :
    ∃ txn t, txn.phase = .live ∧ s.step seat .beginTxn = some (.ok .accepted, t) ∧
      Begun s seat ⟨name, some txn⟩ t := by
  obtain ⟨_, t, _, _, _, hs, ht, heffect, hb⟩ := hsound.performs seat .beginTxn
    (by simp [RowLocks.step, beginTxn, idle])
  have hcounts := counts_of_step hs
  cases heffect with
  | begun here =>
    cases idle.symm.trans here
    refine ⟨_, t, rfl, hs, ht, hb.here, ?_, rows_of_step hs (by simp), hcounts.nextTxn,
      hcounts.openSessions⟩
    intro other hne
    rw [hb.sessions, if_neg hne]

theorem Begun.filled (h : Begun s seat ⟨name, some txn⟩ t) (live : txn.phase = .live) {request : Request}
    (hfills : request.fills = true) (before : Reply) : ∃ txn reply u, txn.phase = .live ∧
      t.steps seat before (operations request) = some (reply, u) ∧ Begun s seat ⟨name, some txn⟩ u := by
  cases request with
  | insert key value =>
    obtain ⟨reply, u, _, _, _, hs, _, heffect, hb⟩ := h.sound.performs seat (.insert key value)
      (isSome_insert h.here live key value)
    have hsteps : t.steps seat before (operations (.insert key value)) = some (reply, u) := by
      simp [operations, steps, hs]
    have hnext := hb.here
    cases heffect with
    | inserted mine | declined mine =>
      cases h.here.symm.trans mine
      refine ⟨_, _, u, ?_, hsteps, h.step hs rfl (by simp) hnext⟩
      exact live
  | prepare id =>
    obtain ⟨reply, u, _, _, _, hs, _, heffect, hb⟩ := h.sound.performs seat .prepare
      (isSome_prepare h.here live)
    have hsteps : t.steps seat before (operations (.prepare id)) = some (reply, u) := by
      simp [operations, steps, hs]
    have hnext := hb.here
    cases heffect with
    | prepared mine | preparedBefore mine =>
      cases h.here.symm.trans mine
      refine ⟨_, _, u, ?_, hsteps, h.step hs rfl (by simp) hnext⟩
      exact live
  | _ => cases hfills

theorem Begun.filledAll (h : Begun s seat ⟨name, some txn⟩ t) (live : txn.phase = .live)
    {requests : List Request} (hfills : ∀ request ∈ requests, request.fills = true) (before : Reply) :
    ∃ txn reply u, txn.phase = .live ∧
      t.steps seat before (requests.flatMap operations) = some (reply, u) ∧
        Begun s seat ⟨name, some txn⟩ u := by
  -- on the calls: each of them leaves a live transaction, whatever it was answered
  induction requests generalizing txn t before with
  | nil => exact ⟨txn, before, t, live, rfl, h⟩
  | cons request requests ih =>
    obtain ⟨_, reply, u, live', hs, hu⟩ := h.filled live (hfills request List.mem_cons_self) before
    rw [List.flatMap_cons, steps_append hs]
    exact ih hu live' (fun request hmem => hfills request (List.mem_cons_of_mem _ hmem)) reply

theorem Begun.dropped (h : Begun s seat ⟨name, some txn⟩ t) (hphase : txn.phase ≠ .applied) :
    ∃ u, t.step seat .dropTxn = some (.ok .accepted, u) ∧ Begun s seat ⟨name, none⟩ u := by
  obtain ⟨u, hs, _, hb⟩ := exists_dropped h.sound h.here hphase
  exact ⟨u, hs, h.step hs rfl (by simp) hb.here⟩

theorem Begun.ended (h : Begun s seat ⟨name, some txn⟩ t) (live : txn.phase = .live) {ending : Request}
    (hending : ending = .abort ∨ ending = .dropTxn) (before : Reply) :
    ∃ u, t.steps seat before (operations ending) = some (.ok .accepted, u) ∧ Begun s seat ⟨name, none⟩ u := by
  rcases hending with rfl | rfl
  · obtain ⟨a, hs, _, hb⟩ := exists_unlocked h.sound h.here (by simp [live])
    obtain ⟨u, hdrop, hu⟩ := (h.step hs rfl (by simp) hb.here).dropped (by simp)
    exact ⟨u, by simp [operations, steps, hs, hdrop], hu⟩
  · obtain ⟨u, hdrop, hu⟩ := h.dropped (by simp [live])
    exact ⟨u, by simp [operations, steps, hdrop], hu⟩

/-- Once the session is idle again, the locks are those that the other sessions call for. -/
theorem Begun.undone (h : Begun s seat ⟨name, none⟩ t) (hsound : Sound s)
    (idle : s.sessions[seat]? = some ⟨name, none⟩) : Undone s t := by
  have hsessions : t.sessions = s.sessions := by
    apply Std.ExtTreeMap.ext_getElem?
    intro other
    by_cases he : seat = other
    · rw [← he, h.here, idle]
    · exact h.sessions other he
  constructor
  case tables =>
    intro table
    ext1
    · exact h.rows table
    · exact hsound.locks_eq h.sound fun _ _ => by rw [hsessions]
  case sessions => exact hsessions
  case nextTxn => exact h.nextTxn
  case openSessions => exact h.openSessions

theorem Sound.undone (hsound : Sound s) (idle : s.sessions[seat]? = some ⟨name, none⟩)
    {requests : List Request} {ending : Request} (hfills : ∀ request ∈ requests, request.fills = true)
    (hending : ending = .abort ∨ ending = .dropTxn) :
    ∃ t, s.steps seat (.ok .accepted) ((.beginTxn :: requests ++ [ending]).flatMap operations) =
      some (.ok .accepted, t) ∧ Undone s t := by
  obtain ⟨_, a, live, hbegin, ha⟩ := hsound.begun idle
  obtain ⟨_, reply, b, live', hrequests, hb⟩ := ha.filledAll live hfills (.ok .accepted)
  obtain ⟨t, hend, ht⟩ := hb.ended live' hending reply
  refine ⟨t, ?_, ht.undone hsound idle⟩
  rw [List.cons_append, List.flatMap_cons, List.flatMap_append, List.flatMap_singleton]
  change s.steps seat (.ok .accepted) (.beginTxn :: (requests.flatMap operations ++ operations ending)) = _
  rw [steps, hbegin]
  exact (steps_append hrequests _).trans hend

end Alone

section Among

theorem frees_of_becomes {session : Option Session} (hsound : Sound s)
    (here : s.sessions[seat]? = some ⟨name, some txn⟩) (hs : s.step seat op = some (reply, t))
    (hop : op.ofTxn = true) (happly : op ≠ .applyWrites)
    (hb : Becomes s seat session name { s.table name with locks := unlock (s.table name).locks txn } t) :
    Frees s seat name txn t := by
  have hothers := othersKept_of_step hs hop
  have hlocks : (t.table name).locks = unlock (s.table name).locks txn := by rw [hb.table_here]
  constructor
  case toOthersKept => exact hothers
  case rows => exact rows_of_step hs happly
  case own =>
    intro key hkey
    have hlock := hsound.lock_of_write here hkey
    exact ⟨hlock, by rw [hlocks, getElem?_unlock, if_pos ⟨hkey, hlock⟩]⟩
  case others =>
    intro key hkey
    rw [hlocks, getElem?_unlock, if_neg fun h => hkey h.1]
  case tables =>
    intro table hne
    rw [hb.tables, if_neg hne]
  case kept =>
    intro other table txn key hne hother hkey
    exact (hsound.step hs).lock_of_write ((hothers.sessions other hne).trans hother) hkey

theorem Sound.frees (hsound : Sound s) (here : s.sessions[seat]? = some ⟨name, some txn⟩)
    (live : txn.phase = .live) (hop : op = .releaseLocks ∨ op = .dropTxn) :
    ∃ t, s.step seat op = some (.ok .accepted, t) ∧ Frees s seat name txn t := by
  rcases hop with rfl | rfl
  · obtain ⟨t, hs, _, hb⟩ := exists_unlocked hsound here (by simp [live])
    exact ⟨t, hs, frees_of_becomes hsound here hs rfl (by simp) hb⟩
  · obtain ⟨t, hs, _, hb⟩ := exists_dropped hsound here (by simp [live])
    exact ⟨t, hs, frees_of_becomes hsound here hs rfl (by simp) hb⟩

theorem Reaches.session_kept {log : List Event} (h : Reaches s log t)
    (hothers : ∀ event ∈ log, event.seat ≠ seat) : t.sessions[seat]? = s.sessions[seat]? := by
  induction h with
  | start => rfl
  | @step log a b other op reply _ last ih =>
    obtain ⟨_, _, _, _, hb⟩ := step_effect last
    have hne : other ≠ seat := hothers ⟨other, op, reply⟩ (by simp)
    rw [hb.sessions, if_neg hne]
    exact ih fun event hmem => hothers event (List.mem_append_left _ hmem)

/-- What others have locked meanwhile is not in the buffer, for that is empty. -/
theorem Sound.unaffected (hsound : Sound s) (here : s.sessions[seat]? = some ⟨name, some txn⟩)
    (hwrites : txn.writes = []) (hphase : txn.phase ≠ .applied) :
    ∃ t, s.step seat .dropTxn = some (.ok .accepted, t) ∧ Unaffected s seat t := by
  obtain ⟨t, hs, _, hb⟩ := exists_dropped hsound here hphase
  refine ⟨t, hs, othersKept_of_step hs rfl, ?_⟩
  intro table
  rw [hb.tables, unlock, hwrites]
  split
  · rename_i he
    rw [← he]
    rfl
  · rfl

end Among

/-- In every run from an empty store, also with a commit or an abort half done. -/
theorem rollsBack_of_reaches {log : List Event} (h : Reaches empty log s) (seat : Nat) (name : String) :
    RollsBack s seat name := by
  have hsound := h.sound quiescent_empty.sound
  constructor
  case alone =>
    intro requests ending idle hfills hending
    exact hsound.undone idle hfills hending
  case among =>
    intro txn op here live hop
    exact hsound.frees here live hop
  case again =>
    intro reply t u more hs hmore hothers
    have ht := hsound.step hs
    obtain ⟨_, _, _, heffect, hb⟩ := step_effect hs
    have hreleased := hb.here
    rw [← hmore.session_kept hothers] at hreleased
    cases heffect with
    | released => exact (hmore.sound ht).unaffected hreleased rfl (by simp)

/-- A client aborts, and before it is done another one locks the key that it had inserted. -/
theorem rollsBack_taken_meanwhile : ∃ log s t more u v, Reaches empty log s ∧ (∀ seat, RollsBack s seat "t") ∧
    s.step 0 .releaseLocks = some (.ok .accepted, t) ∧ Reaches t more u ∧
      (u.table "t").locks[(1 : Int64)]? = some 1 ∧ u.step 0 .dropTxn = some (.ok .accepted, v) ∧
        (v.table "t").locks[(1 : Int64)]? = some 1 := by
  have h1 : Reaches empty _ _ := .step .start (show step empty 0 (.openSession "t") = some _ from rfl)
  have h2 := h1.step (show step _ 0 .beginTxn = some _ from rfl)
  have h3 := h2.step (show step _ 0 (.insert 1 [7]) = some _ from rfl)
  have h4 := h3.step (show step _ 1 (.openSession "t") = some _ from rfl)
  exact ⟨_, _, _, _, _, _, h4, fun seat => rollsBack_of_reaches h4 seat "t", rfl,
    (Reaches.start.step (show step _ 1 .beginTxn = some _ from rfl)).step
      (show step _ 1 (.insert 1 [8]) = some _ from rfl), rfl, rfl, rfl⟩

end RowLocks

end InsertBench
