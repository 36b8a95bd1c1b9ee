import InsertBench.Proofs.Commit.Basic
import InsertBench.Proofs.Serial.Buffered

/-! # What a commit of buffered writes stores

A refused row is remembered by its key only and is never in the batch that a commit applies.
-/
namespace InsertBench.Buffered

def view : View Buffered where
  table s seat := s.sessions[seat]?.map Session.table
  value s table key := (s.rows table)[keyBytes key]?

/-- A transaction of a seat whose batch is made of these rows, which have different keys. -/
structure Fills (seat : Nat) (name : String) (rows : List (Int64 × Bytes)) (s : Buffered) : Prop where
  batch : ∃ txn, s.sessions[seat]? = some ⟨name, some txn⟩ ∧
    txn.batch = rows.map (fun row => (keyBytes row.1, row.2)) ∧ ∀ key ∈ rows.map Prod.fst, key ∈ txn.tried
  distinct : (rows.map Prod.fst).Nodup

variable {s t u : Buffered} {seat other : Nat} {name : String} {request : Request} {reply : Reply}
  {rows : List (Int64 × Bytes)} {calls : List Call}

theorem getElem?_setTxn (s : Buffered) (seat other : Nat) (session : Session) (txn : Option Txn) :
    (s.setTxn seat session txn).sessions[other]? =
      if seat = other then some ⟨session.table, txn⟩ else s.sessions[other]? := by
  simp [setTxn, Std.ExtTreeMap.getElem?_insert]

theorem sessions_of_call (h : s.call other request = some (reply, t)) (hne : other ≠ seat) :
    t.sessions[seat]? = s.sessions[seat]? := by
  cases request <;>
    simp only [call, openSession, beginTxn, insert, prepare, commit, rollBack, closeSession] at h <;>
    split at h <;> try split at h
  all_goals cases h <;> simp [getElem?_setTxn, Std.ExtTreeMap.getElem?_insert,
    Std.ExtTreeMap.getElem?_erase, hne]

theorem fills_of_begin (h : s.beginTxn seat = some (reply, t)) (hname : view.table s seat = some name) :
    Fills seat name [] t := by
  unfold beginTxn at h
  split at h
  · rename_i table hidle
    cases h
    obtain rfl : table = name := by simpa [view, hidle] using hname
    refine ⟨⟨⟨{}, []⟩, ?_, rfl, by simp⟩, List.nodup_nil⟩
    rw [getElem?_setTxn, if_pos rfl]
  · cases h

/-- A row goes into the batch exactly if its insert is accepted. -/
theorem Fills.insert (h : Fills seat name rows s) {key : Int64} {value : Bytes}
    (hcall : s.insert seat key value = some (reply, t)) :
    Fills seat name ((Exchange.accepted? (.insert key value, reply)).toList ++ rows) t := by
  obtain ⟨⟨txn, here, hbatch, htried⟩, hdistinct⟩ := h
  rw [Buffered.insert, txn?_eq_some here] at hcall
  dsimp only at hcall
  split at hcall
  · cases hcall
    refine ⟨⟨{ txn with tried := txn.tried.insert key }, ?_, hbatch, fun other hother => ?_⟩, hdistinct⟩
    · rw [getElem?_setTxn, if_pos rfl]
    · exact Std.ExtTreeSet.mem_insert.mpr (.inr (htried other hother))
  · rename_i hnew
    cases hcall
    rw [not_or] at hnew
    refine ⟨⟨⟨txn.tried.insert key, (keyBytes key, value) :: txn.batch⟩, ?_, ?_, ?_⟩, ?_⟩
    · rw [getElem?_setTxn, if_pos rfl]
    · simp [Exchange.accepted?, hbatch]
    · intro other hother
      rcases List.mem_cons.mp hother with rfl | hother
      · simp
      · exact Std.ExtTreeSet.mem_insert.mpr (.inr (htried other hother))
    · exact List.nodup_cons.mpr ⟨fun hkey => hnew.1 (htried key hkey), hdistinct⟩

theorem fills_of_commits (h : store.Commits seat s calls t u) (hname : view.table s seat = some name) :
    Fills seat name (acceptedRows (callsAt calls seat)) t := by
  refine h.keeps (P := fun done r => Fills seat name (acceptedRows done) r) ?_ ?_ ?_
  · intro verdict r hbegin
    exact fills_of_begin hbegin hname
  · intro done r request reply r' hr hfills hcall
    rw [acceptedRows_concat]
    cases request with
    | insert key value => exact hr.insert hcall
    | prepare id =>
      change r.prepare seat = _ at hcall
      unfold prepare at hcall
      split at hcall <;> cases hcall
      exact hr
    | _ => cases hfills
  · rintro done r other request reply r' ⟨hbatch, hdistinct⟩ hne hcall
    exact ⟨by rwa [sessions_of_call hcall hne.symm], hdistinct⟩

theorem getElem?_foldr_insert (base : Std.ExtTreeMap Bytes Bytes) (key : Int64) :
    ((rows.map fun row => (keyBytes row.1, row.2)).foldr (fun entry rows => rows.insert entry.1 entry.2)
      base)[keyBytes key]? = (rows.lookup key).or base[keyBytes key]? := by
  induction rows with
  | nil => rfl
  | cons row rows ih =>
    rw [List.map_cons, List.foldr_cons, Std.ExtTreeMap.getElem?_insert, ih, List.lookup_cons]
    by_cases hkey : row.1 = key
    · simp [hkey]
    · have hbytes : keyBytes row.1 ≠ keyBytes key := fun he => hkey (keyBytes_injective he)
      simp [hbytes, Ne.symm hkey, beq_false_of_ne]

theorem extends_of_commits (h : store.Commits seat s calls t u) (hname : view.table s seat = some name) :
    view.Extends name (acceptedRows (callsAt calls seat)) t u := by
  obtain ⟨⟨txn, here, hbatch, _⟩, hdistinct⟩ := fills_of_commits h hname
  obtain ⟨verdict, hcommit⟩ := h.committed
  refine ⟨hdistinct, fun table key => ?_⟩
  change t.commit seat = _ at hcommit
  rw [commit, txn?_eq_some here] at hcommit
  cases hcommit
  simp only [view, Buffered.rows, setTxn, Std.ExtTreeMap.getElem?_insert, Std.LawfulEqCmp.compare_eq_iff_eq]
  by_cases htable : name = table
  · subst htable
    simp only [↓reduceIte, Option.getD_some, hbatch]
    exact getElem?_foldr_insert _ key
  · simp only [htable, ↓reduceIte]

end InsertBench.Buffered
