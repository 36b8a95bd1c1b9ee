import InsertBench.Proofs.Commit.Basic
import InsertBench.Proofs.RowLocks.Sound

/-! # What a commit under row locks stores

An insert that is refused or meets a conflict leaves the store as it is, so that a transaction has written
what was accepted and nothing else. A commit applies these writes in its first operation, and no other
operation changes a row.
-/
namespace InsertBench.RowLocks

def view : View RowLocks where
  table s seat := s.sessions[seat]?.map Session.table
  value := value

/-- A transaction of a seat has written these rows, and is neither committed nor aborted. -/
structure Fills (seat : Nat) (name : String) (rows : List (Int64 × Bytes)) (s : RowLocks) : Prop where
  sound : Sound s
  writes : ∃ txn, s.sessions[seat]? = some ⟨name, some txn⟩ ∧ txn.phase = .live ∧ txn.writes = rows

variable {s t u : RowLocks} {seat other : Nat} {name : String} {request : Request} {reply before : Reply}
  {rows : List (Int64 × Bytes)} {calls : List Call} {op : Operation}

theorem Fills.others (h : Fills seat name rows s) (hne : seat ≠ other)
    (hcall : s.call other request = some (reply, t)) : Fills seat name rows t := by
  refine steps_keep (P := Fills seat name rows) (fun hP hstep => ?_) hcall h
  obtain ⟨hsound, txn, here, hlive, hwrites⟩ := hP
  obtain ⟨_, _, _, _, hb⟩ := step_effect hstep
  exact ⟨hsound.step hstep, txn, by rw [hb.sessions, if_neg hne.symm, here], hlive, hwrites⟩

theorem fills_of_begin (hsound : Sound s) (h : s.call seat .beginTxn = some (reply, t))
    (hname : view.table s seat = some name) : Fills seat name [] t := by
  have hstep := step_of_call rfl h
  obtain ⟨_, found, _, heffect, hb⟩ := step_effect hstep
  cases heffect with
  | begun idle =>
    obtain rfl : found = name := by simpa [view, idle] using hname
    exact ⟨hsound.step hstep, _, hb.here, rfl, rfl⟩

theorem Fills.insert (h : Fills seat name rows s) {key : Int64} {value : Bytes}
    (hcall : s.call seat (.insert key value) = some (reply, t)) :
    Fills seat name ((Exchange.accepted? (.insert key value, reply)).toList ++ rows) t := by
  obtain ⟨hsound, txn, here, hlive, rfl⟩ := h
  have hstep := step_of_call rfl hcall
  obtain ⟨_, _, _, heffect, hb⟩ := step_effect hstep
  have hafter := hb.here
  cases heffect with
  | inserted here' =>
    cases here.symm.trans here'
    exact ⟨hsound.step hstep, _, hafter, hlive, rfl⟩
  | declined here' _ why =>
    cases here.symm.trans here'
    have hnone : Exchange.accepted? (.insert key value, reply) = none := by cases why <;> rfl
    rw [hnone]
    exact ⟨hsound.step hstep, txn, hafter, hlive, rfl⟩

theorem Fills.prepare (h : Fills seat name rows s) (id : UInt64)
    (hcall : s.call seat (.prepare id) = some (reply, t)) : Fills seat name rows t := by
  obtain ⟨hsound, txn, here, hlive, rfl⟩ := h
  have hstep := step_of_call rfl hcall
  obtain ⟨_, _, _, heffect, hb⟩ := step_effect hstep
  have hafter := hb.here
  cases heffect with
  | prepared here' | preparedBefore here' =>
    cases here.symm.trans here'
    exact ⟨hsound.step hstep, _, hafter, hlive, rfl⟩

theorem fills_of_commits (hsound : Sound s) (h : store.Commits seat s calls t u)
    (hname : view.table s seat = some name) : Fills seat name (acceptedRows (callsAt calls seat)) t := by
  refine h.keeps (P := fun done r => Fills seat name (acceptedRows done) r) ?_ ?_ ?_
  · intro verdict r hbegin
    exact fills_of_begin hsound hbegin hname
  · intro done r request reply r' hr hfills hcall
    rw [acceptedRows_concat]
    cases request with
    | insert key value => exact hr.insert hcall
    | prepare id => exact hr.prepare id hcall
    | _ => cases hfills
  · intro done r other request reply r' hr hne hcall
    exact hr.others hne hcall

theorem extends_of_commits (hsound : Sound s) (h : store.Commits seat s calls t u)
    (hname : view.table s seat = some name) :
    view.Extends name (acceptedRows (callsAt calls seat)) t u := by
  obtain ⟨hsoundt, txn, here, hlive, hwrites⟩ := fills_of_commits hsound h hname
  obtain ⟨verdict, hcommit⟩ := h.committed
  rw [← hwrites]
  refine ⟨hsoundt.distinct here, fun table key => ?_⟩
  change t.steps seat (.ok .accepted) [.applyWrites, .releaseLocks, .dropTxn] = _ at hcommit
  obtain ⟨_, _, happly, hrest⟩ := steps_cons hcommit
  obtain ⟨_, _, hrelease, hrest⟩ := steps_cons hrest
  obtain ⟨_, _, hdrop, hrest⟩ := steps_cons hrest
  cases hrest
  change (u.table table).rows[key]? = _
  rw [rows_of_step hdrop nofun, rows_of_step hrelease nofun]
  obtain ⟨_, _, _, heffect, hb⟩ := step_effect happly
  cases heffect with
  | applied here' _ =>
    cases here.symm.trans here'
    rw [hb.tables]
    split
    · rename_i htable
      subst htable
      exact getElem?_withWrites _ _ key
    · rfl

end InsertBench.RowLocks
