import InsertBench.Proofs.Attentive.Stores
import InsertBench.Proofs.Crew.Mapped

/-! # Stores on a system that fails

A store stays attentive on any system: a call for which the system fails leaves its seat with what a seat
holds after an error.
-/
namespace InsertBench

variable {σ τ : Type} {store : Store σ} {needs : Needs σ} {troubles : Troubles}
  {Holds : σ → (Nat → Holding) → Prop}

theorem Troubles.meet_cases {α : Type} {before after : Nat} {left? : Option σ} {answer : Except Stop α × σ}
    {found : Except Stop α} {t : σ} (h : troubles.meet before left? answer = (found, t, after)) :
    (found = answer.1 ∧ t = answer.2) ∨
      ∃ text, troubles before = some text ∧ found = .error (.failed (.reported text)) ∧ left? = some t := by
  unfold meet at h
  split at h
  · cases h
    exact .inl ⟨rfl, rfl⟩
  · cases h
    exact .inl ⟨rfl, rfl⟩
  · rename_i text htrouble
    cases h
    exact .inr ⟨text, htrouble, rfl, rfl⟩

theorem Store.under_call {s t : σ × Nat} {seat : Nat} {request : Request} {reply : Reply}
    (h : (store.under needs troubles).call s seat request = some (reply, t)) :
    store.call s.1 seat request = some (reply, t.1) ∨
      ∃ text, troubles s.2 = some text ∧ reply = .error (.failed (.reported text)) := by
  obtain ⟨⟨first, u⟩, hcall, he⟩ := Option.map_eq_some_iff.mp h
  rcases Troubles.meet_cases he with ⟨rfl, hsame⟩ | ⟨text, htrouble, rfl, _⟩
  · rw [hsame]
    exact .inl hcall
  · exact .inr ⟨text, htrouble, rfl⟩

/-- A call for which the system fails leaves its seat with what it holds after an error. -/
structure Needs.Apt (needs : Needs σ) (Holds : σ → (Nat → Holding) → Prop) : Prop where
  fails {s left : σ} {holding : Nat → Holding} {seat : Nat} {now : Holding} {request : Request}
    (stop : Stop) :
    Holds s holding → (∀ other, other ≠ seat → holding other ≠ .transaction) → holding seat = now →
    now.InPlace request → needs.call s seat request = some left → ∃ next,
      now.after (request, .error stop) = some next ∧ Holds left (Function.update holding seat next)

theorem Store.Attentive.under (h : store.Attentive Holds) (hneeds : needs.Apt Holds) :
    (store.under needs troubles).Attentive fun s => Holds s.1 where
  answers {s holding seat now request} hs halone hnow hplace := by
    obtain ⟨reply, t, next, hcall, hafter, ht⟩ := h.answers hs halone hnow hplace
    rcases hmeet : troubles.meet s.2 (needs.call s.1 seat request) (reply, t) with ⟨found, u, after⟩
    have hunder : (store.under needs troubles).call s seat request = some (found, u, after) := by
      simp only [Store.under, hcall, Option.map_some, hmeet]
    rcases Troubles.meet_cases hmeet with ⟨rfl, rfl⟩ | ⟨text, _, rfl, hneeded⟩
    · exact ⟨_, _, next, hunder, hafter, ht⟩
    · obtain ⟨next, hafter, hleft⟩ := hneeds.fails (.failed (.reported text)) hs halone hnow hplace hneeded
      exact ⟨_, _, next, hunder, hafter, hleft⟩

/-- What is stored by a call in place, whatever its reply, is what the seat holds then. -/
theorem Store.Attentive.holds_of_call (h : store.Attentive Holds) {s left : σ} {holding : Nat → Holding}
    {seat : Nat} {now : Holding} {request : Request} (hs : Holds s holding)
    (halone : ∀ other, other ≠ seat → holding other ≠ .transaction) (hnow : holding seat = now)
    (hplace : now.InPlace request) (hcall : (store.call s seat request).map (·.2) = some left) :
    ∃ reply next, now.after (request, reply) = some next ∧
      Holds left (Function.update holding seat next) := by
  obtain ⟨reply, t, next, hanswer, hafter, ht⟩ := h.answers hs halone hnow hplace
  rw [hanswer] at hcall
  cases hcall
  exact ⟨reply, next, hafter, ht⟩

theorem SingleWriter.needs_apt : SingleWriter.needs.Apt SingleWriter.Occupied where
  fails {s left holding seat now request} stop hs halone hnow hplace hneeded := by
    cases hplace with
    | openSession table | beginTxn | insert key value =>
      cases hneeded
      refine ⟨_, rfl, ?_⟩
      rwa [← hnow, Function.update_eq_self]
    | commit | abort =>
      obtain ⟨_, next, hafter, hleft⟩ := attentive.holds_of_call hs halone hnow .abort hneeded
      cases hafter
      exact ⟨_, rfl, hleft⟩
    | prepare id | dropTxn | close | dropSession => cases hneeded

theorem Buffered.Occupied.setTxn {s : Buffered} {holding : Nat → Holding} {seat : Nat}
    (h : s.Occupied holding) (hnow : holding seat = .transaction) (session : Session) (txn : Txn) :
    (s.setTxn seat session (some txn)).Occupied holding := by
  intro other
  rw [getElem?_setTxn]
  split
  · rename_i he
    rw [← he, hnow]
    exact .transaction trivial
  · exact h other

theorem Buffered.needs_apt : Buffered.needs.Apt Buffered.Occupied where
  fails {s left holding seat now request} stop hs halone hnow hplace hneeded := by
    cases hplace with
    | openSession table =>
      cases hneeded
      refine ⟨_, rfl, ?_⟩
      rwa [← hnow, Function.update_eq_self]
    | insert key value =>
      obtain ⟨⟨session, txn⟩, _, hleft⟩ := Option.bind_eq_some_iff.mp hneeded
      dsimp only at hleft
      split at hleft
      · cases hleft
      · cases hleft
        refine ⟨_, rfl, ?_⟩
        rw [← hnow, Function.update_eq_self]
        exact hs.setTxn hnow _ _
    | commit =>
      obtain ⟨_, next, hafter, hleft⟩ := attentive.holds_of_call hs halone hnow .abort hneeded
      cases hafter
      exact ⟨_, rfl, hleft⟩
    | close =>
      obtain ⟨_, next, hafter, hleft⟩ := attentive.holds_of_call hs halone hnow .close hneeded
      cases hafter
      exact ⟨_, rfl, hleft⟩
    | beginTxn | prepare id | abort | dropTxn | dropSession => cases hneeded

theorem Engine.needs_apt : Engine.needs.Apt Engine.Occupied where
  fails {e left holding seat now request} stop hs halone hnow hplace hneeded := by
    cases e with
    | singleWriter s =>
      obtain ⟨u, hu, rfl⟩ := Option.map_eq_some_iff.mp hneeded
      exact SingleWriter.needs_apt.fails stop hs halone hnow hplace hu
    | buffered s =>
      obtain ⟨u, hu, rfl⟩ := Option.map_eq_some_iff.mp hneeded
      exact Buffered.needs_apt.fails stop hs halone hnow hplace hu
    | rowLocks s | scripted s => cases hneeded

/-! ## Stores inside others -/

variable {source : Store σ} {target : Store τ} {f : σ → τ} {inner : Needs σ} {outer : Needs τ}

/-- The outer store needs the system where the inner one does. -/
structure Needs.Maps (inner : Needs σ) (outer : Needs τ) (f : σ → τ) : Prop where
  call (s : σ) (seat : Nat) (request : Request) :
    outer.call (f s) seat request = (inner.call s seat request).map f
  rowCount (s : σ) : outer.rowCount (f s) = inner.rowCount s
  shut (s : σ) : outer.shut (f s) = inner.shut s

theorem Troubles.meet_map {α : Type} (troubles : Troubles) (before : Nat) (left? : Option σ)
    (answer : Except Stop α × σ) : troubles.meet before (left?.map f) (answer.1, f answer.2) =
      ((troubles.meet before left? answer).1, f (troubles.meet before left? answer).2.1,
        (troubles.meet before left? answer).2.2) := by
  rcases left? with _ | left
  · rfl
  · simp only [meet, Option.map_some]
    cases troubles before <;> rfl

theorem Store.Maps.under (h : source.Maps target f) (hneeds : inner.Maps outer f) (troubles : Troubles) :
    (source.under inner troubles).Maps (target.under outer troubles) fun s => (f s.1, s.2) where
  name s := h.name s.1
  call s seat request := by
    simp only [Store.under, h.call, hneeds.call, Option.map_map]
    exact Option.map_congr fun answer _ => Troubles.meet_map troubles s.2 _ answer
  rowCount s table := by
    have hneeded := Troubles.meet_map (f := f) troubles s.2 (if inner.rowCount s.1 then some s.1 else none)
      (source.rowCount s.1 table)
    rw [apply_ite (Option.map f)] at hneeded
    simp only [Store.under, h.rowCount, hneeds.rowCount]
    exact hneeded
  shut s := by
    have hneeded := Troubles.meet_map (f := f) troubles s.2 (if inner.shut s.1 then some s.1 else none)
      (source.shut s.1, s.1)
    rw [apply_ite (Option.map f)] at hneeded
    simp only [Store.under, h.shut, hneeds.shut]
    exact congrArg Prod.fst hneeded

/-- An inner store for which the outer one needs nothing does not notice the system. -/
theorem Store.Maps.under_of_none (h : source.Maps target f)
    (hcall : ∀ s seat request, outer.call (f s) seat request = none)
    (hcount : ∀ s, outer.rowCount (f s) = false) (hshut : ∀ s, outer.shut (f s) = false)
    (troubles : Troubles) (before : Nat) :
    source.Maps (target.under outer troubles) fun s => (f s, before) where
  name s := h.name s
  call s seat request := by
    simp only [Store.under, h.call, hcall, Option.map_map]
    rfl
  rowCount s table := by
    simp only [Store.under, h.rowCount, hcount]
    rfl
  shut s := by
    simp only [Store.under, h.shut, hshut]
    rfl

namespace Engine

theorem singleWriter_needs : SingleWriter.needs.Maps Engine.needs singleWriter where
  call _ _ _ := rfl
  rowCount _ := rfl
  shut _ := rfl

theorem buffered_needs : Buffered.needs.Maps Engine.needs buffered where
  call _ _ _ := rfl
  rowCount _ := rfl
  shut _ := rfl

end Engine

end InsertBench
