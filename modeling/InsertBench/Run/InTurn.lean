import InsertBench.Run.Crew

/-! # Taking turns

The workers of a crew one after another, each to its end. This is one schedule of the crew, so
whatever holds under every schedule holds here: `runs_of_inTurn`.
-/
namespace InsertBench.Crew

variable {σ : Type}

def inTurn {m : Type → Type} [Monad m] (clock : m UInt64) (store : Store σ) :
    List Worker → Nat → σ → Bool → m (Option (List Worker × σ × Bool))
  | [], _, s, halt => return some ([], s, halt)
  | w :: workers, seat, s, halt => do
    match ← w.run clock store seat s halt with
    | none => return none
    | some (w, s, halt) =>
      match ← inTurn clock store workers (seat + 1) s halt with
      | none => return none
      | some (workers, s, halt) => return some (w :: workers, s, halt)

theorem runs_of_run {store : Store σ} {base place : Nat} {clock : UInt64} {w v : Worker} {s t : σ}
    {halt raised : Bool} (h : Worker.run (m := Id) clock store (base + place) w s halt = some (v, t, raised))
    (workers : List Worker) (hw : workers[place]? = some w) :
    ∃ events, Runs store base ⟨s, halt, workers⟩ events ⟨t, raised, workers.set place v⟩ := by
  have hlt : place < workers.length := (List.getElem?_eq_some_iff.mp hw).1
  have go {w' : Worker} {s' : σ} {halt' : Bool} {event : Event}
      (first : act store base ⟨s, halt, workers⟩ place clock =
        some (event, ⟨s', halt', workers.set place w'⟩))
      (rest : ∃ events, Runs store base ⟨s', halt', workers.set place w'⟩ events
        ⟨t, raised, (workers.set place w').set place v⟩) :
      ∃ events, Runs store base ⟨s, halt, workers⟩ events ⟨t, raised, workers.set place v⟩ := by
    obtain ⟨events, hr⟩ := rest
    rw [List.set_set] at hr
    exact ⟨event :: events, .act first hr⟩
  have again (w' : Worker) : (workers.set place w')[place]? = some w' := by simp [hlt]
  rw [Worker.run] at h
  split at h
  · cases h
    obtain ⟨_, he⟩ := List.getElem?_eq_some_iff.mp hw
    rw [← he, List.set_getElem_self]
    exact ⟨[], .done _⟩
  · rename_i request hn
    split at h
    · cases h
    · rename_i reply s' hc
      have := Worker.answer_nearer hn reply
      exact go (by simp [act, hw, hn, hc, setWorker]; rfl) (runs_of_run h _ (again _))
  · rename_i hn
    have := Worker.sawHalt_nearer hn halt
    exact go (by simp [act, hw, hn, setWorker]; rfl) (runs_of_run h _ (again _))
  · rename_i hn
    have := Worker.raised_nearer hn
    exact go (by simp [act, hw, hn, setWorker]; rfl) (runs_of_run h _ (again _))
  · rename_i hn
    have := Worker.tick_nearer hn clock
    exact go (by simp [act, hw, hn, setWorker]; rfl) (runs_of_run h _ (again _))
termination_by w.ahead
decreasing_by all_goals exact ‹Worker.Nearer _ _›

/-- Workers that take turns, each to its end, follow one schedule of their crew. -/
theorem runs_of_inTurn {store : Store σ} {base : Nat} {clock : UInt64} {now later : List Worker}
    {s t : σ} {halt raised : Bool} (before : List Worker)
    (h : inTurn (m := Id) clock store now (base + before.length) s halt = some (later, t, raised)) :
    ∃ events, Runs store base ⟨s, halt, before ++ now⟩ events ⟨t, raised, before ++ later⟩ := by
  induction now generalizing before s halt later with
  | nil =>
    cases h
    exact ⟨[], .done _⟩
  | cons w rest ih =>
    unfold inTurn at h
    simp only [bind, pure] at h
    split at h
    · cases h
    · rename_i v u flag hrun
      obtain ⟨first, hfirst⟩ := runs_of_run hrun (before ++ w :: rest) (by simp)
      split at h
      · cases h
      · rename_i others t' flag' hrest
        cases h
        obtain ⟨events, hevents⟩ := ih (before ++ [v]) (by simpa [Nat.add_assoc] using hrest)
        refine ⟨first ++ events, hfirst.trans ?_⟩
        simpa using hevents

end InsertBench.Crew
