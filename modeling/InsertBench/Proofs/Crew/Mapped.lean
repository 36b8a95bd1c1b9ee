import InsertBench.Proofs.Bench.Returns

/-! # A store inside another

One store may answer like another on the states that come from it. A run on such a state is a run on the
inner store.
-/
namespace InsertBench

variable {σ τ : Type}

structure Store.Maps (source : Store σ) (target : Store τ) (f : σ → τ) : Prop where
  name (s : σ) : target.name (f s) = source.name s
  call (s : σ) (seat : Nat) (request : Request) : target.call (f s) seat request =
    (source.call s seat request).map fun answer => (answer.1, f answer.2)
  rowCount (s : σ) (table : String) : target.rowCount (f s) table =
    ((source.rowCount s table).1, f (source.rowCount s table).2)
  shut (s : σ) : target.shut (f s) = source.shut s

variable {source : Store σ} {target : Store τ} {f : σ → τ}

namespace Crew

theorem dismiss_maps (h : source.Maps target f) (seats : List Nat) (s : σ) :
    dismiss target seats (f s) = (dismiss source seats s).map f := by
  induction seats generalizing s with
  | nil => rfl
  | cons seat seats ih =>
    rw [dismiss, dismiss, h.call]
    cases source.call s seat .dropSession with
    | none => rfl
    | some answer => exact ih answer.2

theorem hire_maps (h : source.Maps target f) (base : Nat) (post : Nat → Post) (left place : Nat) (s : σ) :
    hire target base post left place (f s) =
      (hire source base post left place s).map fun outcome => (outcome.1, f outcome.2) := by
  induction left generalizing place s with
  | zero => rfl
  | succ left ih =>
    rw [hire, hire]
    cases (post place).workload.sessionStart with
    | lazy =>
      dsimp only
      rw [ih]
      rcases hire source base post left (place + 1) s with _ | ⟨_ | _, _⟩ <;> rfl
    | eager =>
      dsimp only
      rw [h.call]
      rcases source.call s (base + place) (.openSession (post place).table) with _ | ⟨stop | verdict, u⟩
      · rfl
      · dsimp only [Option.map_some]
        rw [dismiss_maps h, Option.map_map, Option.map_map]
        rfl
      · dsimp only [Option.map_some]
        rw [ih]
        rcases hire source base post left (place + 1) u with _ | ⟨_ | _, _⟩ <;> rfl

/-- A crew with its store inside another one. -/
def inside (f : σ → τ) (c : Crew σ) : Crew τ := ⟨f c.store, c.halt, c.workers⟩

theorem act_maps (h : source.Maps target f) (base : Nat) (c : Crew σ) (place : Nat) (now : UInt64) :
    (c.inside f).act target base place now =
      (c.act source base place now).map fun done => (done.1, done.2.inside f) := by
  obtain ⟨s, halt, workers⟩ := c
  simp only [act, inside]
  cases workers[place]? with
  | none => rfl
  | some w =>
    simp only [bind, Option.bind]
    rcases w.next with _ | (request | _ | _ | _)
    case some.call =>
      dsimp only
      rw [h.call]
      cases source.call s (base + place) request <;> rfl
    all_goals rfl

theorem Runs.of_maps (h : source.Maps target f) {base : Nat} {c : Crew σ} {log : List Event} {e : Crew τ}
    (hruns : Runs target base (c.inside f) log e) : ∃ d, e = d.inside f ∧ Runs source base c log d := by
  generalize hc : c.inside f = c' at hruns
  induction hruns generalizing c with
  | done _ => exact ⟨c, hc.symm, .done c⟩
  | act first _ ih =>
    subst hc
    rw [act_maps h] at first
    obtain ⟨⟨event, d⟩, hact, he⟩ := Option.map_eq_some_iff.mp first
    cases he
    obtain ⟨e, rfl, hrest⟩ := ih rfl
    exact ⟨e, rfl, .act hact hrest⟩

end Crew

namespace Bench

variable {b : Bench} {createdAt : Int64} {base : Nat} {s : σ}

theorem conclude_maps (h : source.Maps target f) (elapsed : Elapsed) (workers : List Worker) (s : σ) :
    b.conclude target elapsed workers (f s) =
      ((b.conclude source elapsed workers s).1, f (b.conclude source elapsed workers s).2) := by
  rw [conclude, conclude, h.name]
  cases collect (b.blank (source.name s) elapsed) (workers.filterMap outcome?) with
  | error stop => rfl
  | ok report =>
    dsimp only
    unfold check
    by_cases hverify : b.verify = true
    · rw [if_pos hverify, if_pos hverify, h.rowCount]
      rcases source.rowCount s b.table with ⟨stop | stored, t⟩
      · rfl
      · dsimp only
        split <;> rfl
    · rw [if_neg hverify, if_neg hverify]

variable {short : Option Crew.Shortage} {log : List Crew.Event}

theorem Reaches.of_maps (h : source.Maps target f) {e : Crew τ}
    (hreaches : b.Reaches createdAt target base (Crew.Runs target base) (f s) short log e) :
    ∃ d, e = d.inside f ∧ b.Reaches createdAt source base (Crew.Runs source base) s short log d := by
  obtain ⟨hire, run⟩ := hreaches
  rw [Crew.hire_maps h] at hire
  obtain ⟨⟨outcome, u⟩, hired, he⟩ := Option.map_eq_some_iff.mp hire
  cases he
  obtain ⟨d, rfl, hruns⟩ := @Crew.Runs.of_maps _ _ _ _ _ h _ ⟨u, false, _⟩ _ _ run
  exact ⟨d, rfl, .hired hired hruns⟩

/-- What a run can return on a store inside another is what it can return on the store. -/
theorem Returns.of_maps (h : source.Maps target f) {result : Except Stop Report} {t : τ}
    (hreturns : b.Returns createdAt target base (Crew.Runs target base) (f s) short log result t) :
    ∃ u, t = f u ∧ b.Returns createdAt source base (Crew.Runs source base) s short log result u := by
  cases hreturns with
  | unmanned hire =>
    rw [Crew.hire_maps h] at hire
    obtain ⟨⟨outcome, u⟩, hired, he⟩ := Option.map_eq_some_iff.mp hire
    cases he
    exact ⟨u, rfl, .unmanned hired⟩
  | manned reached ended concluded =>
    obtain ⟨d, rfl, hinside⟩ := reached.of_maps h
    rw [Crew.inside, conclude_maps h] at concluded
    cases concluded
    exact ⟨_, rfl, .manned hinside ended rfl⟩
  | brokenOff inside reached ended =>
    obtain ⟨d, rfl, hinside⟩ := reached.of_maps h
    exact ⟨_, rfl, .brokenOff inside hinside ended⟩

end Bench

end InsertBench
