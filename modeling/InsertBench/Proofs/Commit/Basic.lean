import InsertBench.Proofs.Crew.Holding

/-! # A transaction among other calls

A transaction begins through the session of a seat, makes inserts there, and commits; through other seats
anything may be called in between. What is called through its seat tells which rows it asked to insert and
which were accepted, and a commit should extend the table by exactly these.
-/
namespace InsertBench

namespace Exchange

def fills : Exchange → Bool
  | (.insert .., _) | (.prepare _, _) => true
  | _ => false

def asked? : Exchange → Option (Int64 × Bytes)
  | (.insert key value, _) => some (key, value)
  | _ => none

def accepted? : Exchange → Option (Int64 × Bytes)
  | (.insert key value, .ok .accepted) => some (key, value)
  | _ => none

end Exchange

/-- The rows that inserts were made of, accepted or not, latest first. -/
def askedRows (calls : List Exchange) : List (Int64 × Bytes) := (calls.filterMap Exchange.asked?).reverse

/-- The rows whose insert was accepted, latest first. -/
def acceptedRows (calls : List Exchange) : List (Int64 × Bytes) :=
    (calls.filterMap Exchange.accepted?).reverse

theorem askedRows_concat (calls : List Exchange) (call : Exchange) :
    askedRows (calls ++ [call]) = call.asked?.toList ++ askedRows calls := by
  cases h : call.asked? <;> simp [askedRows, h]

theorem acceptedRows_concat (calls : List Exchange) (call : Exchange) :
    acceptedRows (calls ++ [call]) = call.accepted?.toList ++ acceptedRows calls := by
  cases h : call.accepted? <;> simp [acceptedRows, h]

variable {σ : Type} {store : Store σ} {seat : Nat} {s t u : σ} {calls : List Call}

/-- What a store becomes by calls through any seats, in the order in which they are answered. -/
inductive Store.Takes (store : Store σ) (s : σ) : List Call → σ → Prop
  | start : store.Takes s [] s
  | call {calls : List Call} {t u : σ} {seat : Nat} {request : Request} {reply : Reply}
      (before : store.Takes s calls t) (last : store.call t seat request = some (reply, u)) :
      store.Takes s (calls ++ [⟨seat, request, reply⟩]) u

theorem Store.takes_nil : store.Takes s [] t ↔ t = s := by
  constructor
  · intro h
    generalize hnone : ([] : List Call) = calls at h
    cases h with
    | start => rfl
    | call _ _ => simp at hnone
  · rintro rfl
    exact .start

theorem Store.takes_append {more : List Call} :
    store.Takes s (calls ++ more) u ↔ ∃ t, store.Takes s calls t ∧ store.Takes t more u := by
  constructor
  · intro h
    generalize hall : calls ++ more = all at h
    induction h generalizing more with
    | start =>
      obtain ⟨rfl, rfl⟩ := List.append_eq_nil_iff.mp hall
      exact ⟨s, .start, .start⟩
    | call before last ih =>
      rcases List.eq_nil_or_concat more with rfl | ⟨rest, final, rfl⟩
      · rw [List.append_nil] at hall
        exact ⟨_, hall ▸ .call before last, .start⟩
      · rw [List.concat_eq_append, ← List.append_assoc] at hall
        obtain ⟨hrest, he⟩ := List.append_inj' hall rfl
        cases he
        obtain ⟨t, hcalls, hmore⟩ := ih hrest
        rw [List.concat_eq_append]
        exact ⟨t, hcalls, .call hmore last⟩
  · rintro ⟨t, hcalls, hmore⟩
    induction hmore with
    | start => rwa [List.append_nil]
    | call _ last ih =>
      rw [← List.append_assoc]
      exact .call ih last

theorem Store.takes_cons {call : Call} : store.Takes s (call :: calls) u ↔
    ∃ t, store.call s call.seat call.request = some (call.reply, t) ∧ store.Takes t calls u := by
  have hsingle {t : σ} : store.Takes s [call] t ↔
      store.call s call.seat call.request = some (call.reply, t) := by
    constructor
    · intro h
      generalize hcall : [call] = all at h
      cases h with
      | start => simp at hcall
      | call before last =>
        have hone : [] ++ [call] = _ ++ [_] := hcall
        obtain ⟨rfl, he⟩ := List.append_inj' hone rfl
        cases he
        obtain rfl := takes_nil.mp before
        exact last
    · exact fun h => .call .start h
  rw [← List.singleton_append, takes_append]
  simp only [hsingle]

/-- A transaction begins on one store and commits on another one, which the calls in between have made
of it. -/
structure Store.Commits (store : Store σ) (seat : Nat) (s : σ) (calls : List Call) (t u : σ) : Prop where
  begun : ∃ verdict r, store.call s seat .beginTxn = some (.ok verdict, r) ∧ store.Takes r calls t
  fills : ∀ call ∈ callsAt calls seat, call.fills = true
  committed : ∃ verdict, store.call t seat .commit = some (.ok verdict, u)

theorem Store.Commits.keeps {P : List Exchange → σ → Prop} (h : store.Commits seat s calls t u)
    (begins : ∀ verdict r, store.call s seat .beginTxn = some (.ok verdict, r) → P [] r)
    (own : ∀ done r request reply r', P done r → Exchange.fills (request, reply) = true →
      store.call r seat request = some (reply, r') → P (done ++ [(request, reply)]) r')
    (others : ∀ done r other request reply r', P done r → seat ≠ other →
      store.call r other request = some (reply, r') → P done r') : P (callsAt calls seat) t := by
  obtain ⟨⟨verdict, r, hbegin, htakes⟩, hfills, -⟩ := h
  have hP := begins verdict r hbegin
  clear hbegin
  induction htakes with
  | start => exact hP
  | @call calls t' u' other request reply before last ih =>
    rw [callsAt_append, callsAt_singleton] at hfills ⊢
    have hbefore := ih fun call hcall => hfills call (List.mem_append_left _ hcall)
    by_cases hseat : other = seat
    · subst hseat
      rw [if_pos rfl] at hfills ⊢
      exact own _ _ _ _ _ hbefore (hfills _ (by simp)) last
    · rw [if_neg hseat, List.append_nil]
      exact others _ _ _ _ _ _ hbefore (Ne.symm hseat) last

/-- What can be seen of a store: the table that the session of a seat is on, and committed rows. -/
structure View (σ : Type) where
  table : σ → Nat → Option String
  value : σ → String → Int64 → Option Bytes

/-- One table is extended by rows of different keys, and the others stay as they are. -/
structure View.Extends (view : View σ) (name : String) (rows : List (Int64 × Bytes)) (t u : σ) : Prop where
  distinct : (rows.map Prod.fst).Nodup
  value (table : String) (key : Int64) : view.value u table key =
    if name = table then (rows.lookup key).or (view.value t table key) else view.value t table key

end InsertBench
