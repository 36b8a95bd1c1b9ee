import InsertBench.Proofs.Commit.Buffered
import InsertBench.Proofs.RowLocks.Effect
import Mathlib.Data.List.Dedup
import Mathlib.Logic.Function.Basic

/-! # Buffered writes of transactions that are live together

An insert is refused if its key is committed, and a commit does not look again. So a commit can replace a
row that another transaction has committed in between. The last commit of a key wins, and the rows of a
table are counted once for each key. It takes two transactions that both held the key at one time.
-/
namespace InsertBench

theorem Store.Takes.split {σ : Type} {store : Store σ} {s t : σ}
    {calls before after : List Call} {call : Call}
    (h : store.Takes s calls t) (hsplit : calls = before ++ call :: after) :
    ∃ u v, store.Takes s before u ∧ store.call u call.seat call.request = some (call.reply, v) := by
  rw [hsplit] at h
  obtain ⟨u, hbefore, hrest⟩ := Store.takes_append.mp h
  obtain ⟨v, hcall, _⟩ := Store.takes_cons.mp hrest
  exact ⟨u, v, hbefore, hcall⟩

namespace Buffered

/-- What calls tell about the transactions of a store. -/
structure Ledger where
  /-- The table of the session that was opened last on a seat. -/
  tables : Nat → String
  /-- The rows whose insert was accepted in the live transaction of a seat, latest first. -/
  pending : Nat → List (Int64 × Bytes)
  /-- The rows that were committed to a table, latest commit first. -/
  committed : String → List (Int64 × Bytes)

namespace Ledger

def blank : Ledger := ⟨fun _ => "", fun _ => [], fun _ => []⟩

def setPending (l : Ledger) (seat : Nat) (rows : List (Int64 × Bytes)) : Ledger :=
  { l with pending := Function.update l.pending seat rows }

def note (l : Ledger) : Call → Ledger
  | ⟨seat, .openSession name, .ok _⟩ => { l with tables := Function.update l.tables seat name }
  | ⟨seat, .beginTxn, .ok _⟩ | ⟨seat, .abort, .ok _⟩ | ⟨seat, .dropTxn, .ok _⟩ => l.setPending seat []
  | ⟨seat, .insert key value, .ok .accepted⟩ => l.setPending seat ((key, value) :: l.pending seat)
  | ⟨seat, .commit, .ok _⟩ =>
    { l.setPending seat [] with
      committed := Function.update l.committed (l.tables seat)
        (l.pending seat ++ l.committed (l.tables seat)) }
  | _ => l

def pendingKeys (l : Ledger) (seat : Nat) : List Int64 := (l.pending seat).map Prod.fst

def committedKeys (l : Ledger) (table : String) : List Int64 := (l.committed table).map Prod.fst

/-- Transactions of two seats hold a key of a table, both by an insert that was accepted. -/
def Shared (l : Ledger) (table : String) (key : Int64) : Prop :=
  ∃ seat other, seat ≠ other ∧ l.tables seat = table ∧ l.tables other = table ∧
    key ∈ l.pendingKeys seat ∧ key ∈ l.pendingKeys other

end Ledger

def ledger (calls : List Call) : Ledger := calls.foldl .note .blank

/-- Two transactions held a key of a table at one time. -/
def Met (calls : List Call) (table : String) (key : Int64) : Prop :=
  ∃ earlier, earlier <+: calls ∧ (ledger earlier).Shared table key

/-- What calls on a new store have made of it. -/
structure LastWins (calls : List Call) (s : Buffered) : Prop where
  value (table : String) (key : Int64) : view.value s table key = ((ledger calls).committed table).lookup key
  count (table : String) : (s.rows table).size = ((ledger calls).committedKeys table).dedup.length ∧
    (store.rowCount s table).1 = .ok ((ledger calls).committedKeys table).dedup.length.toUInt64
  allCounted (table : String) : (s.rows table).size = ((ledger calls).committed table).length ↔
    ((ledger calls).committedKeys table).Nodup
  apart {table : String} : (∀ key, ¬ Met calls table key) → ((ledger calls).committedKeys table).Nodup
  inserted {before after : List Call} {seat : Nat} {key : Int64} {value : Bytes} :
    calls = before ++ ⟨seat, .insert key value, .ok .accepted⟩ :: after →
      key ∉ (ledger before).pendingKeys seat ∧
        key ∉ (ledger before).committedKeys ((ledger before).tables seat)
  replaced {before after : List Call} {seat : Nat} {verdict : Verdict} {key : Int64} :
    calls = before ++ ⟨seat, .commit, .ok verdict⟩ :: after → key ∈ (ledger before).pendingKeys seat →
      key ∈ (ledger before).committedKeys ((ledger before).tables seat) →
        Met before ((ledger before).tables seat) key

def Txn.appliedTo (txn : Txn) (rows : Std.ExtTreeMap Bytes Bytes) : Std.ExtTreeMap Bytes Bytes :=
  txn.batch.foldr (fun entry rows => rows.insert entry.1 entry.2) rows

/-- What a call does to a store. -/
inductive Effect (s : Buffered) (seat : Nat) : Request → Reply → Buffered → Prop
  | opened {table : String} (free : s.sessions[seat]? = none) :
      Effect s seat (.openSession table) (.ok .accepted)
        { s with sessions := s.sessions.insert seat ⟨table, none⟩ }
  | begun {table : String} (idle : s.sessions[seat]? = some ⟨table, none⟩) :
      Effect s seat .beginTxn (.ok .accepted) (s.setTxn seat ⟨table, none⟩ (some ⟨{}, []⟩))
  | refused {table : String} {txn : Txn} {key : Int64} {value : Bytes}
      (here : s.sessions[seat]? = some ⟨table, some txn⟩) :
      Effect s seat (.insert key value) (.error (.failed (.duplicateKey key)))
        (s.setTxn seat ⟨table, some txn⟩ (some { txn with tried := txn.tried.insert key }))
  | inserted {table : String} {txn : Txn} {key : Int64} {value : Bytes}
      (here : s.sessions[seat]? = some ⟨table, some txn⟩) (untried : key ∉ txn.tried)
      (fresh : keyBytes key ∉ s.rows table) :
      Effect s seat (.insert key value) (.ok .accepted)
        (s.setTxn seat ⟨table, some txn⟩ (some ⟨txn.tried.insert key, (keyBytes key, value) :: txn.batch⟩))
  | prepared {id : UInt64} {table : String} {txn : Txn} (here : s.sessions[seat]? = some ⟨table, some txn⟩) :
      Effect s seat (.prepare id) (.ok .accepted) s
  | committed {table : String} {txn : Txn} (here : s.sessions[seat]? = some ⟨table, some txn⟩) :
      Effect s seat .commit (.ok .accepted)
        ({ s with tables := s.tables.insert table (txn.appliedTo (s.rows table)) }.setTxn seat
          ⟨table, some txn⟩ none)
  | rolledBack {request : Request} {table : String} {txn : Txn} (ends : request = .abort ∨ request = .dropTxn)
      (here : s.sessions[seat]? = some ⟨table, some txn⟩) :
      Effect s seat request (.ok .accepted) (s.setTxn seat ⟨table, some txn⟩ none)
  | closed {request : Request} {table : String} (ends : request = .close ∨ request = .dropSession)
      (idle : s.sessions[seat]? = some ⟨table, none⟩) :
      Effect s seat request (.ok .accepted) { s with sessions := s.sessions.erase seat }

variable {s t u : Buffered} {seat : Nat} {table : String} {key : Int64} {request : Request} {reply : Reply}
  {calls more : List Call} {l : Ledger}

theorem txn?_cases (s : Buffered) (seat : Nat) : s.txn? seat = none ∨
    ∃ table txn, s.sessions[seat]? = some ⟨table, some txn⟩ ∧
      s.txn? seat = some (⟨table, some txn⟩, txn) := by
  rcases hsession : s.sessions[seat]? with _ | ⟨table, _ | txn⟩
  · exact .inl (by simp [txn?, hsession])
  · exact .inl (by simp [txn?, hsession])
  · exact .inr ⟨table, txn, rfl, txn?_eq_some hsession⟩

theorem effect_of_call (h : s.call seat request = some (reply, t)) : Effect s seat request reply t := by
  cases request with
  | openSession table =>
    simp only [call, openSession] at h
    split at h
    · cases h
    · rename_i hfree
      cases h
      exact .opened (by simpa using hfree)
  | beginTxn =>
    simp only [call, beginTxn] at h
    split at h
    · rename_i hidle
      cases h
      exact .begun hidle
    · cases h
  | insert key value =>
    rcases txn?_cases s seat with hnone | ⟨table, txn, here, htxn⟩
    · simp [call, insert, hnone] at h
    · simp only [call, insert, htxn] at h
      split at h
      · cases h
        exact .refused here
      · rename_i hnew
        rw [not_or] at hnew
        cases h
        exact .inserted here hnew.1 hnew.2
  | prepare id =>
    rcases txn?_cases s seat with hnone | ⟨table, txn, here, htxn⟩
    · simp [call, prepare, hnone] at h
    · simp only [call, prepare, htxn] at h
      cases h
      exact .prepared here
  | commit =>
    rcases txn?_cases s seat with hnone | ⟨table, txn, here, htxn⟩
    · simp [call, commit, hnone] at h
    · simp only [call, commit, htxn] at h
      cases h
      exact .committed here
  | abort | dropTxn =>
    rcases txn?_cases s seat with hnone | ⟨table, txn, here, htxn⟩
    · simp [call, rollBack, hnone] at h
    · simp only [call, rollBack, htxn] at h
      cases h
      exact .rolledBack (by simp) here
  | close | dropSession =>
    simp only [call, closeSession] at h
    split at h
    · rename_i hidle
      cases h
      exact .closed (by simp) hidle
    · cases h

/-- What the ledger tells about the session of a seat. -/
def Told (table : String) (pending : List (Int64 × Bytes)) : Option Session → Prop
  | none => pending = []
  | some ⟨name, none⟩ => table = name ∧ pending = []
  | some ⟨name, some txn⟩ => table = name ∧ txn.batch = pending.map (fun row => (keyBytes row.1, row.2)) ∧
      (∀ key ∈ pending.map Prod.fst, key ∈ txn.tried) ∧ (pending.map Prod.fst).Nodup

/-- The ledger tells what a store holds. -/
structure Accounts (l : Ledger) (s : Buffered) : Prop where
  told (seat : Nat) : Told (l.tables seat) (l.pending seat) s.sessions[seat]?
  value (table : String) (key : Int64) : view.value s table key = (l.committed table).lookup key
  bytes {table : String} {bytes : Bytes} : bytes ∈ s.rows table → ∃ key, bytes = keyBytes key

theorem Ledger.pending_setPending (l : Ledger) (seat : Nat) (rows : List (Int64 × Bytes)) :
    (l.setPending seat rows).pending seat = rows := Function.update_self ..

theorem Ledger.pending_setPending_of_ne (l : Ledger) {other : Nat} (hne : seat ≠ other)
    (rows : List (Int64 × Bytes)) : (l.setPending seat rows).pending other = l.pending other :=
      Function.update_of_ne hne.symm ..

theorem Ledger.setPending_eq_self (l : Ledger) (seat : Nat) : l.setPending seat (l.pending seat) = l := by
  rw [setPending, Function.update_eq_self]

theorem ledger_concat (calls : List Call) (call : Call) :
    ledger (calls ++ [call]) = (ledger calls).note call := by
  simp [ledger]

theorem accounts_empty : Accounts .blank empty where
  told seat := by simp [empty, Ledger.blank, Told]
  value table key := by simp [view, Buffered.rows, empty, Ledger.blank]
  bytes hmem := by simp [Buffered.rows, empty] at hmem

theorem Accounts.seated {m : Ledger} (h : Accounts l s) (seat : Nat) (htables : t.tables = s.tables)
    (hcommitted : m.committed = l.committed)
    (hother : ∀ other, seat ≠ other → t.sessions[other]? = s.sessions[other]? ∧
      m.tables other = l.tables other ∧
      m.pending other = l.pending other)
    (htold : Told (m.tables seat) (m.pending seat) t.sessions[seat]?) : Accounts m t where
  told other := by
    rcases eq_or_ne seat other with rfl | hne
    · exact htold
    · obtain ⟨hsession, htable, hpending⟩ := hother other hne
      rw [hsession, htable, hpending]
      exact h.told other
  value table key := by
    rw [hcommitted, ← h.value]
    simp only [view, Buffered.rows, htables]
  bytes {table bytes} hmem := by
    rw [Buffered.rows, htables] at hmem
    exact h.bytes hmem

theorem Accounts.setTxn (h : Accounts l s) {session : Session} {txn : Option Txn}
    {pending : List (Int64 × Bytes)} (htold : Told (l.tables seat) pending (some ⟨session.table, txn⟩)) :
    Accounts (l.setPending seat pending) (s.setTxn seat session txn) := by
  refine h.seated seat rfl rfl (fun other hne => ⟨?_, rfl, ?_⟩) ?_
  · rw [getElem?_setTxn, if_neg hne]
  · exact l.pending_setPending_of_ne hne pending
  · rw [getElem?_setTxn, if_pos rfl, Ledger.pending_setPending]
    exact htold

theorem Accounts.applied (h : Accounts l s) {txn : Txn} {pending : List (Int64 × Bytes)}
    (hbatch : txn.batch = pending.map fun row => (keyBytes row.1, row.2)) (table : String) :
    Accounts { l with committed := Function.update l.committed table (pending ++ l.committed table) }
      { s with tables := s.tables.insert table (txn.appliedTo (s.rows table)) } := by
  have hrows (other : String) :
      Buffered.rows { s with tables := s.tables.insert table (txn.appliedTo (s.rows table)) } other =
        if table = other then txn.appliedTo (s.rows table) else s.rows other := by
    simp only [Buffered.rows, Std.ExtTreeMap.getElem?_insert, Std.LawfulEqCmp.compare_eq_iff_eq]
    split <;> rfl
  refine ⟨h.told, fun other key => ?_, fun {other bytes} hmem => ?_⟩
  · simp only [view, hrows]
    rcases eq_or_ne table other with rfl | hne
    · rw [if_pos rfl, Function.update_self, List.lookup_append, ← h.value, Txn.appliedTo, hbatch]
      exact getElem?_foldr_insert _ key
    · rw [if_neg hne, Function.update_of_ne hne.symm]
      exact h.value other key
  · rw [hrows] at hmem
    split at hmem
    · rw [Txn.appliedTo, mem_foldr_insert, hbatch] at hmem
      rcases hmem with hnew | hold
      · obtain ⟨entry, hentry, rfl⟩ := List.mem_map.mp hnew
        obtain ⟨row, _, rfl⟩ := List.mem_map.mp hentry
        exact ⟨row.1, rfl⟩
      · exact h.bytes hold
    · exact h.bytes hmem

theorem Accounts.mem_rows (h : Accounts l s) : keyBytes key ∈ s.rows table ↔ key ∈ l.committedKeys table := by
  have hvalue : (s.rows table)[keyBytes key]? = _ := h.value table key
  rw [Std.ExtTreeMap.mem_iff_isSome_getElem?, hvalue, ← not_iff_not, Bool.not_eq_true,
    Option.isSome_eq_false_iff,
    Option.isNone_iff_eq_none]
  exact RowLocks.lookup_eq_none_iff

theorem Accounts.call (h : Accounts l s) (hcall : Effect s seat request reply t) :
    Accounts (l.note ⟨seat, request, reply⟩) t := by
  have htold := h.told seat
  cases hcall with
  | opened free =>
    rw [free] at htold
    refine h.seated seat rfl rfl (fun other hne => ⟨?_, ?_, rfl⟩) ?_
    · simp [Std.ExtTreeMap.getElem?_insert, hne]
    · exact Function.update_of_ne hne.symm _ _
    · simp only [Ledger.note, Function.update_self, Std.ExtTreeMap.getElem?_insert_self]
      exact ⟨rfl, htold⟩
  | begun idle =>
    rw [idle] at htold
    exact h.setTxn ⟨htold.1, rfl, by simp, List.nodup_nil⟩
  | @refused table txn key value here =>
    rw [here] at htold
    obtain ⟨htable, hbatch, htried, hdistinct⟩ := htold
    change Accounts l _
    rw [← l.setPending_eq_self seat]
    refine h.setTxn ⟨htable, hbatch, fun other hother => ?_, hdistinct⟩
    exact Std.ExtTreeSet.mem_insert.mpr (.inr (htried other hother))
  | @inserted table txn key value here untried fresh =>
    rw [here] at htold
    obtain ⟨htable, hbatch, htried, hdistinct⟩ := htold
    refine h.setTxn ⟨htable, ?_, ?_, ?_⟩
    · rw [List.map_cons, hbatch]
    · intro other hother
      rcases List.mem_cons.mp hother with rfl | hother
      · simp
      · exact Std.ExtTreeSet.mem_insert.mpr (.inr (htried other hother))
    · exact List.nodup_cons.mpr ⟨fun hkey => untried (htried key hkey), hdistinct⟩
  | prepared here => exact h
  | committed here =>
    rw [here] at htold
    obtain ⟨htable, hbatch, _, _⟩ := htold
    simp only [Ledger.note, htable]
    exact (h.applied hbatch _).setTxn ⟨htable, rfl⟩
  | rolledBack ends here =>
    rw [here] at htold
    rcases ends with rfl | rfl <;> exact h.setTxn ⟨htold.1, rfl⟩
  | closed ends idle =>
    rw [idle] at htold
    have herased := h.seated (t := { s with sessions := s.sessions.erase seat }) (m := l) seat rfl rfl
      (fun other hne => ⟨by simp [Std.ExtTreeMap.getElem?_erase, hne], rfl, rfl⟩)
      (by rw [Std.ExtTreeMap.getElem?_erase_self]; exact htold.2)
    rcases ends with rfl | rfl <;> exact herased

theorem Met.append (h : Met calls table key) (more : List Call) : Met (calls ++ more) table key := by
  obtain ⟨earlier, hearlier, hshared⟩ := h
  exact ⟨earlier, hearlier.trans (List.prefix_append ..), hshared⟩

/-- A key that is committed while a transaction holds it, or that was committed twice, was held by two
transactions at one time. -/
structure Traced (calls : List Call) : Prop where
  pending {seat : Nat} {key : Int64} : key ∈ (ledger calls).pendingKeys seat →
    key ∈ (ledger calls).committedKeys ((ledger calls).tables seat) →
      Met calls ((ledger calls).tables seat) key
  committed {table : String} : ¬ ((ledger calls).committedKeys table).Nodup → ∃ key, Met calls table key

theorem Traced.kept (h : Traced calls) {call : Call} (hcommitted : ((ledger calls).note call).committed =
    (ledger calls).committed) (hheld : ∀ seat key, key ∈ ((ledger calls).note call).pendingKeys seat →
      key ∈ (ledger calls).committedKeys (((ledger calls).note call).tables seat) →
        ((ledger calls).note call).tables seat = (ledger calls).tables seat ∧
          key ∈ (ledger calls).pendingKeys seat) :
    Traced (calls ++ [call]) := by
  constructor
  · intro seat key hkey hmem
    rw [ledger_concat] at hkey hmem ⊢
    rw [Ledger.committedKeys, hcommitted] at hmem
    obtain ⟨htable, hpending⟩ := hheld seat key hkey hmem
    rw [htable] at hmem ⊢
    exact (h.pending hpending hmem).append _
  · intro table htwice
    rw [ledger_concat, Ledger.committedKeys, hcommitted] at htwice
    obtain ⟨key, hmet⟩ := h.committed htwice
    exact ⟨key, hmet.append _⟩

theorem Ledger.committedKeys_commit (l : Ledger) (seat : Nat) (verdict : Verdict) (table : String) :
    (l.note ⟨seat, .commit, .ok verdict⟩).committedKeys table =
      if l.tables seat = table then l.pendingKeys seat ++ l.committedKeys table
      else l.committedKeys table := by
  simp only [committedKeys, note]
  split
  · rename_i he
    rw [← he, Function.update_self, List.map_append]
    rfl
  · rename_i hne
    rw [Function.update_of_ne (Ne.symm hne)]

theorem Ledger.pendingKeys_commit (l : Ledger) (seat : Nat) (verdict : Verdict) (other : Nat) :
    (l.note ⟨seat, .commit, .ok verdict⟩).pendingKeys other =
      if seat = other then [] else l.pendingKeys other := by
  change ((l.setPending seat []).pending other).map Prod.fst = _
  split
  · rename_i he
    rw [← he, pending_setPending]
    rfl
  · rename_i hne
    rw [l.pending_setPending_of_ne hne]
    rfl

/-- Whoever else holds a key that a commit makes committed has met the transaction of the commit. -/
theorem Traced.committing (h : Traced calls) {verdict : Verdict}
    (hdistinct : ((ledger calls).pendingKeys seat).Nodup) :
      Traced (calls ++ [⟨seat, .commit, .ok verdict⟩]) := by
  constructor
  · intro other key hkey hmem
    rw [ledger_concat] at hkey hmem ⊢
    change Met _ ((ledger calls).tables other) key
    change key ∈ Ledger.committedKeys _ ((ledger calls).tables other) at hmem
    rw [Ledger.pendingKeys_commit] at hkey
    rw [Ledger.committedKeys_commit] at hmem
    split at hkey
    · cases hkey
    · rename_i hne
      split at hmem
      · rename_i htable
        rcases List.mem_append.mp hmem with hshared | hold
        · exact ⟨calls, List.prefix_append .., seat, other, hne, htable, rfl, hshared, hkey⟩
        · exact (h.pending hkey hold).append _
      · exact (h.pending hkey hmem).append _
  · intro table htwice
    rw [ledger_concat, Ledger.committedKeys_commit] at htwice
    by_cases hold : ((ledger calls).committedKeys table).Nodup
    · split at htwice
      · rename_i htable
        obtain ⟨key, hpending, hmem⟩ : ∃ key, key ∈ (ledger calls).pendingKeys seat ∧
            key ∈ (ledger calls).committedKeys table := by
          by_contra hnone
          refine htwice (List.nodup_append'.mpr ⟨hdistinct, hold, ?_⟩)
          intro key hpending hmem
          exact hnone ⟨key, hpending, hmem⟩
        rw [← htable] at hmem ⊢
        exact ⟨key, (h.pending hpending hmem).append _⟩
      · exact absurd hold htwice
    · obtain ⟨key, hmet⟩ := h.committed hold
      exact ⟨key, hmet.append _⟩

theorem Traced.call (h : Traced calls) (haccounts : Accounts (ledger calls) s)
    (hcall : Effect s seat request reply t) : Traced (calls ++ [⟨seat, request, reply⟩]) := by
  have htold := haccounts.told seat
  -- whatever a seat other than this one holds, it held before
  have hset {call : Call} {pending : List (Int64 × Bytes)}
      (hnote : (ledger calls).note call = (ledger calls).setPending seat pending)
      (hnew : ∀ key ∈ pending.map Prod.fst, key ∈ (ledger calls).committedKeys ((ledger calls).tables seat) →
        key ∈ (ledger calls).pendingKeys seat) : Traced (calls ++ [call]) := by
    refine h.kept (by rw [hnote]; rfl) fun other key hkey hmem => ⟨by rw [hnote]; rfl, ?_⟩
    rw [hnote] at hkey hmem
    rcases eq_or_ne seat other with rfl | hne
    · rw [Ledger.pendingKeys, Ledger.pending_setPending] at hkey
      exact hnew key hkey hmem
    · rwa [Ledger.pendingKeys, Ledger.pending_setPending_of_ne _ hne] at hkey
  cases hcall with
  | opened free =>
    rw [free] at htold
    refine h.kept rfl fun other key hkey hmem => ⟨?_, hkey⟩
    rcases eq_or_ne seat other with rfl | hne
    · change key ∈ ((ledger calls).pending seat).map Prod.fst at hkey
      rw [show (ledger calls).pending seat = [] from htold] at hkey
      cases hkey
    · exact Function.update_of_ne hne.symm _ _
  | begun idle => exact hset rfl (by simp)
  | refused here | prepared here => exact h.kept rfl fun _ _ hkey _ => ⟨rfl, hkey⟩
  | @inserted table txn key value here untried fresh =>
    rw [here] at htold
    rw [haccounts.mem_rows, ← htold.1] at fresh
    refine hset rfl fun other hother hmem => ?_
    rcases List.mem_cons.mp hother with rfl | hother
    · exact absurd hmem fresh
    · exact hother
  | committed here =>
    rw [here] at htold
    exact h.committing htold.2.2.2
  | rolledBack ends here => rcases ends with rfl | rfl <;> exact hset rfl (by simp)
  | closed ends idle =>
    rcases ends with rfl | rfl <;> exact h.kept rfl fun _ _ hkey _ => ⟨rfl, hkey⟩

theorem traced_of_takes (h : store.Takes .empty calls s) : Accounts (ledger calls) s ∧ Traced calls := by
  induction h with
  | start => exact ⟨accounts_empty, ⟨fun hkey => (nomatch hkey), fun htwice => absurd List.nodup_nil htwice⟩⟩
  | call _ last ih =>
    have hcall := effect_of_call last
    rw [ledger_concat]
    exact ⟨ih.1.call hcall, ih.2.call ih.1 hcall⟩

theorem Accounts.size_eq (h : Accounts l s) (table : String) :
    (s.rows table).size = (l.committedKeys table).dedup.length := by
  have hdistinct := (l.committedKeys table).nodup_dedup.map keyBytes_injective
  rw [← List.length_map (f := keyBytes), Serial.size_eq_length hdistinct]
  intro bytes
  rw [List.mem_map]
  constructor
  · intro hmem
    obtain ⟨key, rfl⟩ := h.bytes hmem
    exact ⟨key, List.mem_dedup.mpr (h.mem_rows.mp hmem), rfl⟩
  · rintro ⟨key, hkey, rfl⟩
    exact h.mem_rows.mpr (List.mem_dedup.mp hkey)

/-- Whichever calls come through whichever sessions of a new store. -/
theorem lastWins_of_takes (h : store.Takes .empty calls s) : LastWins calls s := by
  obtain ⟨haccounts, htraced⟩ := traced_of_takes h
  constructor
  case value => exact haccounts.value
  case count =>
    intro table
    refine ⟨haccounts.size_eq table, ?_⟩
    rw [← haccounts.size_eq]
    rfl
  case allCounted =>
    intro table
    rw [haccounts.size_eq, ← List.length_map (f := Prod.fst), ← List.dedup_eq_self]
    constructor
    · exact (List.dedup_sublist _).eq_of_length
    · exact congrArg List.length
  case apart =>
    intro table hnever
    by_contra htwice
    obtain ⟨key, hmet⟩ := htraced.committed htwice
    exact hnever key hmet
  case inserted =>
    intro before after seat key value hsplit
    obtain ⟨t, u, hbefore, hcall⟩ := h.split hsplit
    have haccounts := (traced_of_takes hbefore).1
    have htold := haccounts.told seat
    have heffect : Effect t seat (.insert key value) (.ok .accepted) u := effect_of_call hcall
    cases heffect with
    | inserted here untried fresh =>
      rw [here] at htold
      obtain ⟨htable, _, htried, _⟩ := htold
      exact ⟨fun hkey => untried (htried key hkey), by rwa [htable, ← haccounts.mem_rows]⟩
    | rolledBack ends _ | closed ends _ => rcases ends with he | he <;> cases he
  case replaced =>
    intro before after seat verdict key hsplit hpending hcommitted
    obtain ⟨t, u, hbefore, _⟩ := h.split hsplit
    exact (traced_of_takes hbefore).2.pending hpending hcommitted

/-- Two transactions insert a row of the key 5, and the first one is committed. -/
def meetingAtFive : List Call :=
  [⟨0, .openSession "t", .ok .accepted⟩, ⟨1, .openSession "t", .ok .accepted⟩, ⟨0, .beginTxn, .ok .accepted⟩,
    ⟨1, .beginTxn, .ok .accepted⟩, ⟨0, .insert 5 [1], .ok .accepted⟩, ⟨1, .insert 5 [2], .ok .accepted⟩,
    ⟨0, .commit, .ok .accepted⟩]

theorem lastWins_meetingAtFive : ∃ s, store.Takes .empty meetingAtFive s ∧ LastWins meetingAtFive s := by
  have htakes : store.Takes .empty meetingAtFive _ :=
    .call (.call (.call (.call (.call (.call (.call .start rfl) rfl) rfl) rfl) rfl) rfl) rfl
  exact ⟨_, htakes, lastWins_of_takes htakes⟩

/-- The second one is committed as well, and its row takes the place of the committed one. So two inserts were
accepted in transactions that were committed, and the table has one row. -/
theorem row_replaced : ∃ s t, store.Takes .empty meetingAtFive s ∧
    store.call s 1 .commit = some (.ok .accepted, t) ∧ view.value s "t" 5 = some [1] ∧
    view.value t "t" 5 = some [2] ∧ (store.rowCount t "t").1 = .ok 1 ∧
    (ledger (meetingAtFive ++ [⟨1, .commit, .ok .accepted⟩])).committed "t" = [(5, [2]), (5, [1])] :=
  ⟨_, _, .call (.call (.call (.call (.call (.call (.call .start rfl) rfl) rfl) rfl) rfl) rfl) rfl,
    rfl, rfl, rfl, rfl,
    rfl⟩

end Buffered
end InsertBench
