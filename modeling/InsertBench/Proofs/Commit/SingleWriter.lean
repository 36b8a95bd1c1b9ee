import InsertBench.Proofs.Commit.Basic
import InsertBench.Store.SingleWriter

/-! # What the commit of a single writer stores

A refused insert has put its row into the writer's copy of the table nevertheless, so that a commit stores
the row that was asked for last, whatever the reply was. Only the keys are as they should be.
-/
namespace InsertBench.SingleWriter

def view : View SingleWriter where
  table s seat := s.sessions[seat]?
  value s table key := (s.rows table)[key]?

/-- The writer's copy of a table after these calls. -/
structure Copy (s : SingleWriter) (seat : Nat) (name : String) (calls : List Exchange)
    (rows : Std.ExtTreeMap Int64 Bytes) : Prop where
  writer : s.writer = some ⟨seat, name, rows⟩
  value (key : Int64) : rows[key]? = ((askedRows calls).lookup key).or (s.rows name)[key]?
  keys (key : Int64) : key ∈ rows ↔ key ∈ s.rows name ∨ key ∈ (acceptedRows calls).map Prod.fst
  distinct : ((acceptedRows calls).map Prod.fst).Nodup

/-- How a commit changes a table: rows that were asked for replace what was there, but the keys that are new
are those of the accepted rows. -/
structure Overwrites (name : String) (calls : List Exchange) (t u : SingleWriter) : Prop where
  value (table : String) (key : Int64) : view.value u table key =
    if name = table then ((askedRows calls).lookup key).or (view.value t table key)
    else view.value t table key
  keys (key : Int64) : (view.value u name key).isSome ↔
    (view.value t name key).isSome ∨ key ∈ (acceptedRows calls).map Prod.fst
  distinct : ((acceptedRows calls).map Prod.fst).Nodup

variable {s t u : SingleWriter} {seat other : Nat} {name : String} {request : Request} {reply : Reply}
  {rows : Std.ExtTreeMap Int64 Bytes} {done : List Exchange} {calls : List Call}

theorem Copy.txn? (h : Copy s seat name done rows) (other : Nat) :
    s.txn? other = if seat = other then some ⟨seat, name, rows⟩ else none := by
  rw [SingleWriter.txn?, h.writer, Option.filter_some]
  simp only [decide_eq_true_eq]

theorem Copy.others (h : Copy s seat name done rows) (hne : seat ≠ other)
    (hcall : s.call other request = some (reply, t)) : Copy t seat name done rows := by
  have htxn : s.txn? other = none := by rw [h.txn?, if_neg hne]
  cases request with
  | close | dropSession =>
    simp only [call, closeSession] at hcall
    split at hcall <;> cases hcall
    exact ⟨h.writer, h.value, h.keys, h.distinct⟩
  | openSession table => simp [call, openSession, h.writer] at hcall
  | beginTxn => simp [call, beginTxn, h.writer] at hcall
  | insert key value => simp [call, insert, htxn] at hcall
  | prepare id => simp [call, prepare, htxn] at hcall
  | commit => simp [call, commit, htxn] at hcall
  | abort | dropTxn => simp [call, rollBack, htxn] at hcall

theorem copy_of_begin (h : s.beginTxn seat = some (reply, t)) (hname : view.table s seat = some name) :
    ∃ rows, Copy t seat name [] rows := by
  unfold beginTxn at h
  split at h
  · rename_i table _ hsession
    cases h
    obtain rfl : table = name := Option.some.inj (hsession.symm.trans hname)
    exact ⟨s.rows table, rfl, fun _ => rfl, fun key => by simp [acceptedRows]; rfl, List.nodup_nil⟩
  · cases h

/-- A row replaces what the copy has of its key, and is refused if there was something. -/
theorem Copy.insert (h : Copy s seat name done rows) {key : Int64} {value : Bytes}
    (hcall : s.insert seat key value = some (reply, t)) :
    Copy t seat name (done ++ [(.insert key value, reply)]) (rows.insert key value) := by
  rw [SingleWriter.insert, h.txn?, if_pos rfl] at hcall
  cases hcall
  have haccepted : acceptedRows (done ++ [(.insert key value,
      if key ∈ rows then .error (.failed (.duplicateKey key)) else .ok .accepted)]) =
        if key ∈ rows then acceptedRows done else (key, value) :: acceptedRows done := by
    rw [acceptedRows_concat]
    split <;> rfl
  constructor
  case writer => rfl
  case value =>
    intro other
    rw [askedRows_concat, Std.ExtTreeMap.getElem?_insert, h.value]
    by_cases hkey : key = other
    · simp [Exchange.asked?, hkey]
    · simp [Exchange.asked?, hkey, List.lookup_cons, Ne.symm hkey, beq_false_of_ne]
      rfl
  case keys =>
    intro other
    rw [haccepted, Std.ExtTreeMap.mem_insert, Std.LawfulEqCmp.compare_eq_iff_eq, h.keys]
    change key = other ∨ other ∈ s.rows name ∨ _ ↔ other ∈ s.rows name ∨ _
    split
    · rename_i hmem
      refine ⟨?_, .inr⟩
      rintro (rfl | hother)
      · exact (h.keys key).mp hmem
      · exact hother
    · rw [List.map_cons, List.mem_cons, eq_comm (a := other), or_left_comm]
  case distinct =>
    rw [haccepted]
    split
    · exact h.distinct
    · rename_i hmem
      exact List.nodup_cons.mpr ⟨fun hkey => hmem ((h.keys key).mpr (.inr hkey)), h.distinct⟩

theorem copy_of_commits (h : store.Commits seat s calls t u) (hname : view.table s seat = some name) :
    ∃ rows, Copy t seat name (callsAt calls seat) rows := by
  refine h.keeps (P := fun done r => ∃ rows, Copy r seat name done rows) ?_ ?_ ?_
  · intro verdict r hbegin
    exact copy_of_begin hbegin hname
  · rintro done r request reply r' ⟨rows, hr⟩ hfills hcall
    cases request with
    | insert key value => exact ⟨_, hr.insert hcall⟩
    | prepare id =>
      change r.prepare seat = _ at hcall
      rw [prepare, hr.txn?, if_pos rfl] at hcall
      cases hcall
      refine ⟨rows, hr.writer, ?_, ?_, ?_⟩
      · simpa [askedRows_concat, Exchange.asked?] using hr.value
      · simpa [acceptedRows_concat, Exchange.accepted?] using hr.keys
      · simpa [acceptedRows_concat, Exchange.accepted?] using hr.distinct
    | _ => cases hfills
  · rintro done r other request reply r' ⟨rows, hr⟩ hne hcall
    exact ⟨rows, hr.others hne hcall⟩

theorem overwrites_of_commits (h : store.Commits seat s calls t u) (hname : view.table s seat = some name) :
    Overwrites name (callsAt calls seat) t u := by
  obtain ⟨rows, hcopy⟩ := copy_of_commits h hname
  obtain ⟨verdict, hcommit⟩ := h.committed
  change t.commit seat = _ at hcommit
  rw [commit, hcopy.txn?, if_pos rfl] at hcommit
  cases hcommit
  have hvalue (table : String) (key : Int64) :
      view.value { t with tables := t.tables.insert name rows, writer := none } table key =
        if name = table then rows[key]? else view.value t table key := by
    simp only [view, SingleWriter.rows, Std.ExtTreeMap.getElem?_insert, Std.LawfulEqCmp.compare_eq_iff_eq]
    split <;> rfl
  constructor
  case value =>
    intro table key
    rw [hvalue]
    split
    · rename_i htable
      subst htable
      exact hcopy.value key
    · rfl
  case keys =>
    intro key
    rw [hvalue, if_pos rfl, ← Std.ExtTreeMap.mem_iff_isSome_getElem?, hcopy.keys,
      Std.ExtTreeMap.mem_iff_isSome_getElem?]
    rfl
  case distinct => exact hcopy.distinct

end InsertBench.SingleWriter
