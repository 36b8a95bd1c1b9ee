import Mathlib.Data.List.Nodup
import Mathlib.Logic.Function.Basic
import InsertBench.Proofs.RowLocks.Sound

/-! # What the tables hold, from the log of a run

A run of operations leaves a log of what was asked through which session and what was replied. The
log alone tells which rows a transaction inserted and which transactions committed: `ledger`. In every
run from an empty store the tables hold exactly what the committed transactions inserted.
-/
namespace InsertBench.RowLocks

structure Event where
  seat : Nat
  op : Operation
  reply : Reply

/-- What a store can become by operations through any sessions in any order, and what happened. -/
inductive Reaches (s : RowLocks) : List Event → RowLocks → Prop
  | start : Reaches s [] s
  | step {log : List Event} {t u : RowLocks} {seat : Nat} {op : Operation} {reply : Reply}
      (before : Reaches s log t) (last : t.step seat op = some (reply, u)) :
      Reaches s (log ++ [⟨seat, op, reply⟩]) u

/-- A committed transaction as the log shows it: the rows that were reported as inserted, in order. -/
structure Deed where
  table : String
  rows : List (Int64 × Bytes)

structure Ledger where
  /-- The table of the session that was opened last on a seat. -/
  tables : Nat → String
  /-- What the transaction that was begun last on a seat inserted. -/
  pending : Nat → List (Int64 × Bytes)
  committed : List Deed

namespace Ledger

def blank : Ledger := ⟨fun _ => "", fun _ => [], []⟩

def note (l : Ledger) : Event → Ledger
  | ⟨seat, .openSession name, .ok _⟩ => { l with tables := Function.update l.tables seat name }
  | ⟨seat, .beginTxn, .ok _⟩ => { l with pending := Function.update l.pending seat [] }
  | ⟨seat, .insert key value, .ok .accepted⟩ =>
    { l with pending := Function.update l.pending seat (l.pending seat ++ [(key, value)]) }
  | ⟨seat, .applyWrites, .ok _⟩ => { l with committed := l.committed ++ [⟨l.tables seat, l.pending seat⟩] }
  | _ => l

end Ledger

def ledger (log : List Event) : Ledger := log.foldl .note .blank

def rowsOf (deeds : List Deed) (name : String) : List (Int64 × Bytes) :=
  deeds.flatMap fun deed => if deed.table = name then deed.rows else []

@[simp] theorem rowsOf_append (deeds more : List Deed) (name : String) :
    rowsOf (deeds ++ more) name = rowsOf deeds name ++ rowsOf more name := List.flatMap_append

theorem rowsOf_singleton (table name : String) (rows : List (Int64 × Bytes)) :
    rowsOf [⟨table, rows⟩] name = if table = name then rows else [] := by simp [rowsOf]

structure Accounts (l : Ledger) (s : RowLocks) : Prop where
  tables {seat : Nat} {name : String} {open? : Option Txn} :
    s.sessions[seat]? = some ⟨name, open?⟩ → l.tables seat = name
  pending {seat : Nat} {name : String} {txn : Txn} :
    s.sessions[seat]? = some ⟨name, some txn⟩ → txn.phase ≠ .released → l.pending seat = txn.writes.reverse
  rows {name : String} {key : Int64} {value : Bytes} :
    (s.table name).rows[key]? = some value ↔ (key, value) ∈ rowsOf l.committed name
  distinct {name : String} : ((rowsOf l.committed name).map Prod.fst).Nodup

variable {s t : RowLocks} {seat : Nat} {name : String} {session : Option Session} {table : Table}
  {l m : Ledger}

theorem Accounts.of_becomes (h : Accounts l s) (hb : Becomes s seat session name table t)
    (hrows : table.rows = (s.table name).rows) (hcommitted : m.committed = l.committed)
    (hother : ∀ other, seat ≠ other → m.tables other = l.tables other ∧ m.pending other = l.pending other)
    (htable : ∀ name open?, session = some ⟨name, open?⟩ → m.tables seat = name)
    (hpending : ∀ name txn, session = some ⟨name, some txn⟩ → txn.phase ≠ .released →
      m.pending seat = txn.writes.reverse) : Accounts m t where
  tables {other name' open?} hf := by
    rw [hb.sessions] at hf
    split at hf
    · rename_i he
      exact he ▸ htable name' open? hf
    · rename_i hne
      rw [(hother other hne).1]
      exact h.tables hf
  pending {other name' txn} hf hphase := by
    rw [hb.sessions] at hf
    split at hf
    · rename_i he
      exact he ▸ hpending name' txn hf hphase
    · rename_i hne
      rw [(hother other hne).2]
      exact h.pending hf hphase
  rows {name' key value} := by
    rw [hb.tables, hcommitted, ← h.rows]
    split
    · rename_i he
      rw [hrows, he]
    · rfl
  distinct := hcommitted ▸ h.distinct

theorem Accounts.applied (h : Accounts l s) (hsound : Sound s) {txn : Txn}
    (hs : s.sessions[seat]? = some ⟨name, some txn⟩) (hlive : txn.phase = .live)
    (hb : Becomes s seat (some ⟨name, some { txn with phase := .applied }⟩) name
      { s.table name with rows := withWrites (s.table name).rows txn.writes } t) :
    Accounts { l with committed := l.committed ++ [⟨l.tables seat, l.pending seat⟩] } t := by
  have hdistinct : (txn.writes.map Prod.fst).Nodup := hsound.distinct hs
  have hfresh {key : Int64} (hkey : key ∈ txn.writes.map Prod.fst) : key ∉ (s.table name).rows :=
    hsound.fresh hs hlive hkey
  have hpending := h.pending hs (by simp [hlive])
  rw [h.tables hs, hpending]
  constructor
  case tables =>
    intro other name' open? hf
    rw [hb.sessions] at hf
    split at hf
    · rename_i he
      cases hf
      exact he ▸ h.tables hs
    · exact h.tables hf
  case pending =>
    intro other name' next hf hphase
    rw [hb.sessions] at hf
    split at hf
    · rename_i he
      cases hf
      exact he ▸ hpending
    · exact h.pending hf hphase
  case rows =>
    intro name' key value
    rw [hb.tables, rowsOf_append, rowsOf_singleton, List.mem_append, ← h.rows]
    split
    · rename_i he
      subst he
      rw [getElem?_withWrites_iff hdistinct (fun _ => hfresh), List.mem_reverse]
    · simp
  case distinct =>
    intro name'
    rw [rowsOf_append, rowsOf_singleton, List.map_append, List.nodup_append]
    refine ⟨h.distinct, ?_, ?_⟩
    · split
      · rw [List.map_reverse]
        exact List.nodup_reverse.mpr hdistinct
      · exact List.nodup_nil
    · intro key hold key' hnew he
      subst he
      split at hnew
      · rename_i hname
        subst hname
        rw [List.map_reverse, List.mem_reverse] at hnew
        obtain ⟨⟨_, value⟩, hentry, rfl⟩ := List.mem_map.mp hold
        apply hfresh hnew
        exact mem_rows_iff.mpr ⟨value, h.rows.mpr hentry⟩
      · simp at hnew

theorem Accounts.of_keeps (h : Accounts l s) (hb : Becomes s seat session name table t)
    {before : Option Txn} (hs : s.sessions[seat]? = some ⟨name, before⟩)
    (hrows : table.rows = (s.table name).rows)
    (hname : ∀ found open?, session = some ⟨found, open?⟩ → found = name)
    (hopen : ∀ next, session = some ⟨name, some next⟩ → next.phase ≠ .released →
      ∃ txn, before = some txn ∧ txn.phase ≠ .released ∧ next.writes = txn.writes) : Accounts l t := by
  refine h.of_becomes hb hrows rfl (fun _ _ => ⟨rfl, rfl⟩) ?_ ?_
  · intro found open? hf
    rw [hname found open? hf]
    exact h.tables hs
  · intro found next hf hphase
    obtain rfl := hname found (some next) hf
    obtain ⟨txn, rfl, htxn, hwrites⟩ := hopen next hf hphase
    rw [h.pending hs htxn, hwrites]

theorem Accounts.step (h : Accounts l s) (hsound : Sound s) {op : Operation} {reply : Reply}
    (hs : s.step seat op = some (reply, t)) : Accounts (l.note ⟨seat, op, reply⟩) t := by
  obtain ⟨session, name, table, heffect, hb⟩ := step_effect hs
  cases heffect with
  | opened free =>
    refine h.of_becomes hb rfl rfl ?_ ?_ ?_
    · intro other hne
      exact ⟨Function.update_of_ne hne.symm .., rfl⟩
    · intro found open? hf
      cases hf
      exact Function.update_self ..
    · intro name' txn hf
      cases hf
  | begun idle =>
    refine h.of_becomes hb rfl rfl ?_ ?_ ?_
    · intro other hne
      exact ⟨rfl, Function.update_of_ne hne.symm ..⟩
    · intro found open? hf
      cases hf
      exact h.tables idle
    · intro name' txn hf _
      cases hf
      exact Function.update_self ..
  | inserted here live _ _ _ =>
    refine h.of_becomes hb rfl rfl ?_ ?_ ?_
    · intro other hne
      exact ⟨rfl, Function.update_of_ne hne.symm ..⟩
    · intro found open? hf
      cases hf
      exact h.tables here
    · intro name' txn hf _
      cases hf
      simp [Ledger.note, h.pending here (by simp [live])]
  | @declined _ _ key value _ here live why =>
    have hnote : l.note ⟨seat, .insert key value, reply⟩ = l := by cases why <;> rfl
    rw [hnote]
    exact h.of_keeps hb here rfl (fun _ _ hf => by cases hf; rfl)
      (fun next hf hphase => by cases hf; exact ⟨_, rfl, hphase, rfl⟩)
  | prepared here live _ =>
    exact h.of_keeps hb here rfl (fun _ _ hf => by cases hf; rfl)
      (fun next hf hphase => by cases hf; exact ⟨_, rfl, hphase, rfl⟩)
  | preparedBefore here live _ =>
    exact h.of_keeps hb here rfl (fun _ _ hf => by cases hf; rfl)
      (fun next hf hphase => by cases hf; exact ⟨_, rfl, hphase, rfl⟩)
  | applied here live => exact h.applied hsound here live hb
  | released here _ =>
    exact h.of_keeps hb here rfl (fun _ _ hf => by cases hf; rfl)
      (fun next hf hphase => by cases hf; exact absurd rfl hphase)
  | dropped here _ =>
    exact h.of_keeps hb here rfl (fun _ _ hf => by cases hf; rfl) (fun next hf _ => by cases hf)
  | closed idle =>
    exact h.of_keeps hb idle rfl (fun _ _ hf => by cases hf) (fun next hf _ => by cases hf)

theorem Reaches.sound {log : List Event} (h : Reaches s log t) (hs : Sound s) : Sound t := by
  induction h with
  | start => exact hs
  | step _ last ih => exact ih.step last

theorem Reaches.rows_kept {log : List Event} (h : Reaches s log t) (hs : Sound s) {name : String}
    {key : Int64} {value : Bytes} (hrow : (s.table name).rows[key]? = some value) :
    (t.table name).rows[key]? = some value := by
  induction h with
  | start => exact hrow
  | step before last ih => exact (before.sound hs).rows_kept last ih

theorem ledger_concat (log : List Event) (event : Event) :
    ledger (log ++ [event]) = (ledger log).note event := by
  simp [ledger]

theorem accounts_empty : Accounts .blank empty where
  tables hf := by simp [quiescent_empty.sessions] at hf
  pending hf := by simp [quiescent_empty.sessions] at hf
  rows := by simp [RowLocks.table, empty, Table.empty, Ledger.blank, rowsOf]
  distinct := by simp [Ledger.blank, rowsOf]

/-- The ledger of a run from an empty store agrees with what the store has become. -/
theorem Reaches.accounts {log : List Event} (h : Reaches empty log t) : Accounts (ledger log) t := by
  induction h with
  | start => exact accounts_empty
  | step before last ih =>
    rw [ledger_concat]
    exact ih.step (before.sound quiescent_empty.sound) last

end InsertBench.RowLocks
