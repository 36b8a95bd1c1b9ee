import Mathlib.Data.UInt
import InsertBench.Proofs.RowLocks.History

/-! # What the lock tables and the counters of a store say

A store numbers its transactions and counts its sessions. As long as the numbers have not been used up,
the ids of open transactions are all different, so a lock names one transaction: the lock tables are
exactly the writes that are buffered. The count of open sessions is right at every moment, and a store
shuts down exactly when it is zero.
-/
namespace InsertBench.RowLocks

def Event.begins : Event → Bool
  | ⟨_, .beginTxn, _⟩ => true
  | _ => false

def Event.opens : Event → Bool
  | ⟨_, .openSession _, _⟩ => true
  | _ => false

def Event.closes : Event → Bool
  | ⟨_, .closeSession, _⟩ => true
  | _ => false

def begins (log : List Event) : Nat := log.countP Event.begins

/-- The number of sessions that were opened and not let go of. -/
def opened (log : List Event) : Nat := log.countP Event.opens - log.countP Event.closes

variable {s t : RowLocks} {seat : Nat} {name : String} {session : Option Session} {table : Table}
  {op : Operation} {reply : Reply} {log : List Event}

section Counters

@[simp] theorem nextTxn_setTable (s : RowLocks) (name : String) (table : Table) :
    (s.setTable name table).nextTxn = s.nextTxn := rfl

@[simp] theorem nextTxn_setTxn (s : RowLocks) (seat : Nat) (session : Session) (txn : Option Txn) :
    (s.setTxn seat session txn).nextTxn = s.nextTxn := rfl

@[simp] theorem openSessions_setTable (s : RowLocks) (name : String) (table : Table) :
    (s.setTable name table).openSessions = s.openSessions := rfl

@[simp] theorem openSessions_setTxn (s : RowLocks) (seat : Nat) (session : Session) (txn : Option Txn) :
    (s.setTxn seat session txn).openSessions = s.openSessions := rfl

def countAfter (count : UInt64) : Operation → UInt64
  | .openSession _ => count + 1
  | .closeSession => count - 1
  | _ => count

/-- What an operation does to the two counters of a store. -/
structure Counts (s : RowLocks) (op : Operation) (t : RowLocks) : Prop where
  nextTxn : t.nextTxn = if op = .beginTxn then s.nextTxn + 1 else s.nextTxn
  openSessions : t.openSessions = countAfter s.openSessions op

theorem counts_of_step (h : s.step seat op = some (reply, t)) : Counts s op t := by
  cases op with
  | openSession name =>
    simp only [step, openSession] at h
    split at h <;> cases h
    exact ⟨rfl, rfl⟩
  | beginTxn =>
    simp only [step, beginTxn] at h
    split at h <;> cases h
    exact ⟨rfl, rfl⟩
  | insert key value =>
    simp only [step, insert] at h
    repeat' split at h
    all_goals cases h
    all_goals exact ⟨rfl, rfl⟩
  | prepare =>
    simp only [step, prepare] at h
    repeat' split at h
    all_goals cases h
    all_goals exact ⟨rfl, rfl⟩
  | applyWrites =>
    simp only [step, applyWrites] at h
    repeat' split at h
    all_goals cases h
    exact ⟨rfl, rfl⟩
  | releaseLocks =>
    simp only [step, releaseLocks] at h
    repeat' split at h
    all_goals cases h
    exact ⟨rfl, rfl⟩
  | dropTxn =>
    simp only [step, dropTxn] at h
    repeat' split at h
    all_goals cases h
    exact ⟨rfl, rfl⟩
  | closeSession =>
    simp only [step, closeSession] at h
    split at h <;> cases h
    exact ⟨rfl, rfl⟩

end Counters

section Sessions

theorem Becomes.sessions_insert {found : Session} (hb : Becomes s seat (some found) name table t) :
    t.sessions = s.sessions.insert seat found := by
  apply Std.ExtTreeMap.ext_getElem?
  intro other
  simp [hb.sessions, Std.ExtTreeMap.getElem?_insert]

theorem Becomes.sessions_erase (hb : Becomes s seat none name table t) :
    t.sessions = s.sessions.erase seat := by
  apply Std.ExtTreeMap.ext_getElem?
  intro other
  simp [hb.sessions, Std.ExtTreeMap.getElem?_erase]

theorem mem_sessions_of_here {found : Session} (h : s.sessions[seat]? = some found) :
    seat ∈ s.sessions := by
  rw [Std.ExtTreeMap.mem_iff_isSome_getElem?, h]
  rfl

theorem Becomes.size_eq {found next : Session} (hb : Becomes s seat (some next) name table t)
    (here : s.sessions[seat]? = some found) : t.sessions.size = s.sessions.size := by
  simp [hb.sessions_insert, Std.ExtTreeMap.size_insert, mem_sessions_of_here here]

theorem size_of_step (h : s.step seat op = some (reply, t)) :
    t.sessions.size + (if Event.closes ⟨seat, op, reply⟩ then 1 else 0) =
      s.sessions.size + if Event.opens ⟨seat, op, reply⟩ then 1 else 0 := by
  obtain ⟨session, name, table, heffect, hb⟩ := step_effect h
  cases heffect with
  | opened free =>
    have hfree : seat ∉ s.sessions := by
      rw [Std.ExtTreeMap.mem_iff_isSome_getElem?, free]
      simp
    simp [hb.sessions_insert, Std.ExtTreeMap.size_insert, hfree, Event.opens, Event.closes]
  | closed idle =>
    have hmem := mem_sessions_of_here idle
    have hpos : s.sessions.size ≠ 0 := by
      intro hzero
      rw [Std.ExtTreeMap.eq_empty_iff_size_eq_zero.mpr hzero] at hmem
      simp at hmem
    simp only [hb.sessions_erase, Std.ExtTreeMap.size_erase, hmem, Event.opens, Event.closes,
      Std.ExtTreeMap.contains_iff_mem, ↓reduceIte, Bool.false_eq_true]
    omega
  | begun here => simp [Event.opens, Event.closes, hb.size_eq here]
  | inserted here => simp [Event.opens, Event.closes, hb.size_eq here]
  | declined here => simp [Event.opens, Event.closes, hb.size_eq here]
  | prepared here => simp [Event.opens, Event.closes, hb.size_eq here]
  | preparedBefore here => simp [Event.opens, Event.closes, hb.size_eq here]
  | applied here => simp [Event.opens, Event.closes, hb.size_eq here]
  | released here => simp [Event.opens, Event.closes, hb.size_eq here]
  | dropped here => simp [Event.opens, Event.closes, hb.size_eq here]

theorem Reaches.size (h : Reaches empty log s) :
    s.sessions.size + log.countP Event.closes = log.countP Event.opens := by
  induction h with
  | start => rfl
  | step _ last ih =>
    have := size_of_step last
    rw [List.countP_append, List.countP_append, List.countP_singleton, List.countP_singleton]
    omega

theorem Reaches.size_eq_opened (h : Reaches empty log s) : s.sessions.size = opened log := by
  rw [opened, ← h.size, Nat.add_sub_cancel]

theorem openSessions_of_step (h : s.step seat op = some (reply, t)) :
    t.openSessions + s.sessions.size.toUInt64 = s.openSessions + t.sessions.size.toUInt64 := by
  have hcount := (counts_of_step h).openSessions
  have hsize := size_of_step h
  have hone (n : Nat) : (n + 1).toUInt64 = n.toUInt64 + 1 := UInt64.ofNat_add ..
  cases op with
  | openSession name =>
    simp only [Event.opens, Event.closes, ↓reduceIte, Bool.false_eq_true, Nat.add_zero] at hsize
    rw [hcount, countAfter, hsize, hone, UInt64.add_assoc, UInt64.add_comm 1]
  | closeSession =>
    simp only [Event.opens, Event.closes, ↓reduceIte, Bool.false_eq_true, Nat.add_zero] at hsize
    rw [hcount, countAfter, ← hsize, hone, UInt64.add_comm _ 1, ← UInt64.add_assoc, UInt64.sub_add_cancel]
  | _ =>
    simp only [Event.opens, Event.closes, ↓reduceIte, Bool.false_eq_true, Nat.add_zero] at hsize
    rw [hcount, countAfter, hsize]
    all_goals exact nofun

theorem Reaches.openSessions_add (h : Reaches s log t) :
    t.openSessions + s.sessions.size.toUInt64 = s.openSessions + t.sessions.size.toUInt64 := by
  induction h with
  | start => rfl
  | step _ last ih =>
    have := openSessions_of_step last
    grind

theorem Reaches.openSessions (h : Reaches empty log s) : s.openSessions = s.sessions.size.toUInt64 := by
  have hadd := h.openSessions_add
  change s.openSessions + 0 = 0 + _ at hadd
  rwa [UInt64.add_zero, UInt64.zero_add] at hadd

end Sessions

section Ids

/-- Only a new transaction gets an id that was not there before. -/
theorem Effect.id_eq {found : String} {txn : Txn} (he : Effect s seat op reply session name table)
    (hbegin : op ≠ .beginTxn) (hafter : session = some ⟨found, some txn⟩) :
    ∃ old : Txn, s.sessions[seat]? = some ⟨found, some old⟩ ∧ old.id = txn.id := by
  cases he with
  | begun => exact absurd rfl hbegin
  | opened => cases hafter
  | closed => cases hafter
  | dropped => cases hafter
  | inserted here => cases hafter; exact ⟨_, here, rfl⟩
  | declined here => cases hafter; exact ⟨_, here, rfl⟩
  | prepared here => cases hafter; exact ⟨_, here, rfl⟩
  | preparedBefore here => cases hafter; exact ⟨_, here, rfl⟩
  | applied here => cases hafter; exact ⟨_, here, rfl⟩
  | released here => cases hafter; exact ⟨_, here, rfl⟩

/-- After a number of transactions that began: the ids are below it, and no two are the same. -/
structure Numbered (begun : Nat) (s : RowLocks) : Prop where
  next : s.nextTxn.toNat = begun
  below {seat : Nat} {name : String} {txn : Txn} :
    s.sessions[seat]? = some ⟨name, some txn⟩ → txn.id.toNat < begun
  distinct {seat other : Nat} {name otherName : String} {txn otherTxn : Txn} :
    s.sessions[seat]? = some ⟨name, some txn⟩ → s.sessions[other]? = some ⟨otherName, some otherTxn⟩ →
      txn.id = otherTxn.id → seat = other

theorem numbered_empty : Numbered 0 empty where
  next := rfl
  below hf := by simp [quiescent_empty.sessions] at hf
  distinct hf := by simp [quiescent_empty.sessions] at hf

theorem Numbered.begun {begun : Nat} (h : Numbered begun s) (hlast : begun + 1 < 2 ^ 64)
    (hs : s.step seat .beginTxn = some (reply, t)) : Numbered (begun + 1) t := by
  obtain ⟨session, name, table, heffect, hb⟩ := step_effect hs
  obtain ⟨rfl⟩ : session = some ⟨name, some ⟨s.nextTxn, [], false, .live⟩⟩ := by cases heffect; rfl
  -- an old transaction, at another seat, has an id below the new one
  have hsession {other : Nat} {found : String} {txn : Txn}
      (hf : t.sessions[other]? = some ⟨found, some txn⟩) :
      seat = other ∧ txn.id = s.nextTxn ∨ s.sessions[other]? = some ⟨found, some txn⟩ := by
    rw [hb.sessions] at hf
    split at hf
    · rename_i he
      cases hf
      exact .inl ⟨he, rfl⟩
    · exact .inr hf
  have hnew {other : Nat} {found : String} {txn : Txn}
      (hf : s.sessions[other]? = some ⟨found, some txn⟩) : txn.id ≠ s.nextTxn := by
    intro he
    have := h.below hf
    rw [he, h.next] at this
    exact Nat.lt_irrefl _ this
  constructor
  case next =>
    rw [(counts_of_step hs).nextTxn, if_pos rfl, UInt64.toNat_add, h.next]
    exact Nat.mod_eq_of_lt hlast
  case below =>
    intro other found txn hf
    rcases hsession hf with ⟨_, hid⟩ | hf
    · rw [hid, h.next]
      exact Nat.lt_succ_self _
    · exact Nat.lt_succ_of_lt (h.below hf)
  case distinct =>
    intro one other found otherFound txn otherTxn hf hf' hid
    rcases hsession hf with ⟨rfl, hmine⟩ | hf <;> rcases hsession hf' with ⟨rfl, hmine'⟩ | hf'
    · rfl
    · exact absurd (hid.symm.trans hmine) (hnew hf')
    · exact absurd (hid.trans hmine') (hnew hf)
    · exact h.distinct hf hf' hid

theorem Numbered.kept {begun : Nat} (h : Numbered begun s) (hs : s.step seat op = some (reply, t))
    (hbegin : op ≠ .beginTxn) : Numbered begun t := by
  obtain ⟨session, name, table, heffect, hb⟩ := step_effect hs
  have hsession {other : Nat} {found : String} {txn : Txn}
      (hf : t.sessions[other]? = some ⟨found, some txn⟩) :
      ∃ old : Txn, s.sessions[other]? = some ⟨found, some old⟩ ∧ old.id = txn.id := by
    rw [hb.sessions] at hf
    split at hf
    · rename_i he
      exact he ▸ heffect.id_eq hbegin hf
    · exact ⟨txn, hf, rfl⟩
  constructor
  case next => rw [(counts_of_step hs).nextTxn, if_neg hbegin, h.next]
  case below =>
    intro other found txn hf
    obtain ⟨old, hold, hid⟩ := hsession hf
    rw [← hid]
    exact h.below hold
  case distinct =>
    intro one other found otherFound txn otherTxn hf hf' he
    obtain ⟨old, hold, hid⟩ := hsession hf
    obtain ⟨old', hold', hid'⟩ := hsession hf'
    exact h.distinct hold hold' (by rw [hid, he, hid'])

theorem Reaches.numbered (h : Reaches empty log s) (hbegins : begins log < 2 ^ 64) :
    Numbered (begins log) s := by
  induction h with
  | start => exact numbered_empty
  | @step log s t seat op reply _ last ih =>
    have hlog : begins (log ++ [⟨seat, op, reply⟩]) =
        begins log + if Event.begins ⟨seat, op, reply⟩ then 1 else 0 := by
      rw [begins, begins, List.countP_append, List.countP_singleton]
    rw [hlog] at hbegins ⊢
    have hbefore := ih (by omega)
    by_cases hop : op = .beginTxn
    · subst hop
      exact hbefore.begun hbegins last
    · have hno : Event.begins ⟨seat, op, reply⟩ = false := by
        cases op with
        | beginTxn => exact absurd rfl hop
        | _ => rfl
      rw [hno]
      exact hbefore.kept last hop

end Ids

/-- What the lock tables, the ids and the counters of a store say after a run. A store has fewer sessions
open than its word counts: each of them is an object of its own. -/
structure Bookkeeping (log : List Event) (s : RowLocks) : Prop where
  /-- A key is locked by an id exactly if the transaction with this id has written it. -/
  locks (name : String) (key : Int64) (id : UInt64) : (s.table name).locks[key]? = some id ↔
    ∃ (seat : Nat) (txn : Txn), s.sessions[seat]? = some ⟨name, some txn⟩ ∧ txn.id = id ∧ key ∈ txn.keys
  distinct (seat : Nat) (name : String) (txn : Txn) :
    s.sessions[seat]? = some ⟨name, some txn⟩ → txn.keys.Nodup
  apart (seat other : Nat) (name : String) (txn otherTxn : Txn) :
    s.sessions[seat]? = some ⟨name, some txn⟩ → s.sessions[other]? = some ⟨name, some otherTxn⟩ →
      seat ≠ other → txn.keys.Disjoint otherTxn.keys
  fresh (seat : Nat) (name : String) (txn : Txn) :
    s.sessions[seat]? = some ⟨name, some txn⟩ → txn.phase ≠ .applied →
      ∀ key ∈ txn.keys, key ∉ (s.table name).rows
  ids (seat other : Nat) (name otherName : String) (txn otherTxn : Txn) :
    s.sessions[seat]? = some ⟨name, some txn⟩ → s.sessions[other]? = some ⟨otherName, some otherTxn⟩ →
      txn.id = otherTxn.id → seat = other
  idBelow (seat : Nat) (name : String) (txn : Txn) :
    s.sessions[seat]? = some ⟨name, some txn⟩ → txn.id < s.nextTxn
  nextTxn : s.nextTxn.toNat = begins log
  /-- No more sessions are let go of than were opened. -/
  closes : log.countP Event.closes ≤ log.countP Event.opens
  sessions : s.sessions.size = opened log
  wrapped : s.openSessions = (opened log).toUInt64
  openSessions : opened log < 2 ^ 64 → s.openSessions.toNat = opened log
  /-- The count is not zero when a session is let go of, and it goes down by one. -/
  noUnderflow (seat : Nat) (reply : Reply) (t : RowLocks) : opened log < 2 ^ 64 →
    s.step seat .closeSession = some (reply, t) →
      0 < s.openSessions ∧ t.openSessions.toNat = s.openSessions.toNat - 1
  shut : opened log < 2 ^ 64 → (s.shut = .ok () ↔ opened log = 0)
  named : opened log < 2 ^ 64 → opened log ≠ 0 → ∃ why, s.shut = .error (.failed why) ∧
    why.message = s!"{opened log} session(s) still open at close"

theorem Reaches.openSessions_toNat (h : Reaches empty log s) (hopen : opened log < 2 ^ 64) :
    s.openSessions.toNat = opened log := by
  rw [h.openSessions, h.size_eq_opened]
  exact UInt64.toNat_ofNat_of_lt' hopen

theorem Reaches.openSessions_eq_zero (h : Reaches empty log s) (hopen : opened log < 2 ^ 64) :
    s.openSessions = 0 ↔ opened log = 0 := by
  rw [← h.openSessions_toNat hopen, ← UInt64.toNat_inj]
  rfl

theorem Reaches.noUnderflow (h : Reaches empty log s) (hopen : opened log < 2 ^ 64)
    (hs : s.step seat .closeSession = some (reply, t)) :
    0 < s.openSessions ∧ t.openSessions.toNat = s.openSessions.toNat - 1 := by
  have hone : opened log ≠ 0 := by
    have hsize := size_of_step hs
    simp only [Event.opens, Event.closes, ↓reduceIte, Bool.false_eq_true] at hsize
    rw [← h.size_eq_opened]
    omega
  have hnat := h.openSessions_toNat hopen
  have hle : 1 ≤ s.openSessions := UInt64.le_iff_toNat_le.mpr (by rw [hnat]; exact Nat.pos_of_ne_zero hone)
  refine ⟨UInt64.lt_iff_toNat_lt.mpr (by rw [hnat]; exact Nat.pos_of_ne_zero hone), ?_⟩
  rw [(counts_of_step hs).openSessions]
  exact UInt64.toNat_sub_of_le _ _ hle

theorem Reaches.shut_iff (h : Reaches empty log s) (hopen : opened log < 2 ^ 64) :
    s.shut = .ok () ↔ opened log = 0 := by
  rw [← h.openSessions_eq_zero hopen, RowLocks.shut]
  split
  · rename_i hzero
    simp [hzero]
  · rename_i hzero
    simp [hzero]

theorem Reaches.shut_named (h : Reaches empty log s) (hopen : opened log < 2 ^ 64) (hne : opened log ≠ 0) :
    ∃ why, s.shut = .error (.failed why) ∧
      why.message = s!"{opened log} session(s) still open at close" := by
  refine ⟨.sessionsOpen s.openSessions, ?_, ?_⟩
  · rw [RowLocks.shut, if_neg (mt (h.openSessions_eq_zero hopen).mp hne)]
  · have hcount : toString s.openSessions = toString (opened log) := by
      rw [← h.openSessions_toNat hopen]
      rfl
    change toString s.openSessions ++ " session(s) still open at close" =
      toString (opened log) ++ " session(s) still open at close"
    rw [hcount]

/-- In every run from an empty store in which fewer transactions begin than there are ids, with a commit
in two operations between which others may act. -/
theorem bookkeeping_of_reaches (h : Reaches empty log s) (hbegins : begins log < 2 ^ 64) :
    Bookkeeping log s := by
  have hsound := h.sound quiescent_empty.sound
  have hnumbered := h.numbered hbegins
  constructor
  case locks =>
    intro name key id
    constructor
    · exact hsound.write_of_lock
    · rintro ⟨seat, txn, hf, rfl, hkey⟩
      exact hsound.lock_of_write hf hkey
  case distinct => exact fun _ _ _ => hsound.distinct
  case apart =>
    intro seat other name txn otherTxn hf hf' hne key hkey hkey'
    exact hne (hsound.apart hf hf' hkey hkey')
  case fresh =>
    intro seat name txn hf hphase key hkey
    cases hp : txn.phase with
    | live => exact hsound.fresh hf hp hkey
    | applied => exact absurd hp hphase
    | released => simp [Txn.keys, hsound.emptied hf hp] at hkey
  case ids => exact fun _ _ _ _ _ _ => hnumbered.distinct
  case idBelow =>
    intro seat name txn hf
    rw [UInt64.lt_iff_toNat_lt, hnumbered.next]
    exact hnumbered.below hf
  case nextTxn => exact hnumbered.next
  case closes => exact h.size ▸ Nat.le_add_left ..
  case sessions => exact h.size_eq_opened
  case wrapped => rw [h.openSessions, h.size_eq_opened]
  case openSessions => exact h.openSessions_toNat
  case noUnderflow => exact fun _ _ _ => h.noUnderflow
  case shut => exact h.shut_iff
  case named => exact h.shut_named

/-- One client has applied its writes and still holds its lock; another one inserts the same key, fails,
and inserts a different one. -/
theorem bookkeeping_half_committed : ∃ log s, Reaches empty log s ∧ begins log = 2 ∧ opened log = 2 ∧
    (s.table "t").locks[(1 : Int64)]? = some 0 ∧ (s.table "t").locks[(2 : Int64)]? = some 1 ∧
      Bookkeeping log s := by
  have h1 : Reaches empty _ _ := .step .start (show step empty 0 (.openSession "t") = some _ from rfl)
  have h2 := h1.step (show step _ 0 .beginTxn = some _ from rfl)
  have h3 := h2.step (show step _ 0 (.insert 1 [7]) = some _ from rfl)
  have h4 := h3.step (show step _ 1 (.openSession "t") = some _ from rfl)
  have h5 := h4.step (show step _ 1 .beginTxn = some _ from rfl)
  have h6 := h5.step (show step _ 0 .applyWrites = some _ from rfl)
  have h7 := h6.step (show step _ 1 (.insert 1 [8]) = some _ from rfl)
  have h8 := h7.step (show step _ 1 (.insert 2 [9]) = some _ from rfl)
  exact ⟨_, _, h8, rfl, rfl, rfl, rfl, bookkeeping_of_reaches h8 (by decide)⟩

end InsertBench.RowLocks
