import InsertBench.Proofs.Bench.Returns

/-! # Crews that are short of threads

A worker without a thread makes no call but the one that drops its session, if it has one. The first such
worker has the halt flag raised as well, and those behind it do not even that. The workers before it are as
in any other crew.
-/
namespace InsertBench

namespace Crew

def LetGo (place : Nat) (log : List Event) : Prop :=
  log = [] ∨ ∃ reply, log = [.call place .dropSession reply]

def StageUnstarted (short : Shortage) (place : Nat) (log : List Event) : Worker.Stage → Prop
  | .releasing why => place = short.place ∧ why = .failed short.failure ∧ log = []
  | .raising why => place = short.place ∧ why = short.failure ∧ LetGo place log
  | .ended (some why) => place = short.place ∧ why = .failed short.failure ∧
      ∃ before, log = before ++ [.raiseHalt place] ∧ LetGo place before
  | .leaving => short.place < place ∧ log = []
  | .ended none => short.place < place ∧ LetGo place log
  | _ => False

/-- A worker that does not start, and what it has done. -/
structure Unstarted (short : Shortage) (p : Post) (place : Nat) (log : List Event) (w : Worker) : Prop where
  post : w.post = p
  tally : w.tally = .zero p.id
  stage : StageUnstarted short place log w.stage

variable {short : Shortage} {p : Post} {place : Nat} {log : List Event} {event : Event} {w : Worker}

theorem unstarted_strand (newly : Worker.Newly p w) (first : place = short.place) :
    Unstarted short p place [] (w.strand short.failure) := by
  unfold Worker.strand
  split <;> rw [newly.moveTo]
  · exact ⟨rfl, rfl, first, rfl, .inl rfl⟩
  · exact ⟨rfl, rfl, first, rfl, rfl⟩

theorem unstarted_standDown (newly : Worker.Newly p w) (behind : short.place < place) :
    Unstarted short p place [] w.standDown := by
  unfold Worker.standDown
  split <;> rw [newly.moveTo]
  · exact ⟨rfl, rfl, behind, .inl rfl⟩
  · exact ⟨rfl, rfl, behind, rfl⟩

theorem Unstarted.after (h : Unstarted short p place log w) (hplace : event.worker = place)
    (hn : w.next = some event.action) : Unstarted short p place (log ++ [event]) (w.after event) := by
  obtain ⟨rfl, htally, hstage⟩ := h
  have hm := Worker.moves_of_next hn
  obtain rfl := hplace
  generalize w.after event = v at hm ⊢
  cases hm with
  | released stage =>
    rw [stage] at hstage
    obtain ⟨hfirst, rfl, rfl⟩ := hstage
    exact ⟨rfl, htally, hfirst, rfl, .inr ⟨_, rfl⟩⟩
  | left stage =>
    rw [stage] at hstage
    obtain ⟨hbehind, rfl⟩ := hstage
    exact ⟨rfl, htally, hbehind, .inr ⟨_, rfl⟩⟩
  | raised stage =>
    rw [stage] at hstage
    obtain ⟨hfirst, rfl, hlet⟩ := hstage
    exact ⟨rfl, htally, hfirst, rfl, log, rfl, hlet⟩
  | _ stage =>
    rw [stage] at hstage
    exact hstage.elim

theorem LetGo.eq_dropSession (h : LetGo place log) (hmem : event ∈ log) :
    ∃ reply, event = .call place .dropSession reply := by
  rcases h with rfl | ⟨reply, rfl⟩
  · cases hmem
  · exact ⟨reply, List.mem_singleton.mp hmem⟩

/-- A worker that does not start only drops its session, and the first one has the flag raised. -/
theorem Unstarted.log_cases (h : Unstarted short p place log w) : LetGo place log ∨
    place = short.place ∧ ∃ before, log = before ++ [.raiseHalt place] ∧ LetGo place before := by
  have hstage := h.stage
  rcases stage : w.stage with _ | _ | _ | _ | _ | _ | why | _ | why | (_ | why) <;> rw [stage] at hstage
  case releasing => exact .inl (.inl hstage.2.2)
  case leaving => exact .inl (.inl hstage.2)
  case raising => exact .inl hstage.2.2
  case ended.none => exact .inl hstage.2
  case ended.some => exact .inr ⟨hstage.1, hstage.2.2⟩
  all_goals exact hstage.elim

theorem Unstarted.event_cases (h : Unstarted short p place log w) (hmem : event ∈ log) :
    (∃ reply, event = .call place .dropSession reply) ∨ place = short.place ∧ event = .raiseHalt place := by
  rcases h.log_cases with hlet | ⟨hfirst, before, rfl, hlet⟩
  · exact .inl (hlet.eq_dropSession hmem)
  · rcases List.mem_append.mp hmem with hold | hnew
    · exact .inl (hlet.eq_dropSession hold)
    · exact .inr ⟨hfirst, List.mem_singleton.mp hnew⟩

theorem Unstarted.first_of_next (h : Unstarted short p place log w)
    (hn : w.next = some (.call .dropSession)) : log = [] := by
  have hstage := h.stage
  unfold Worker.next at hn
  rcases stage : w.stage with _ | _ | _ | _ | _ | _ | why | _ | why | stop <;> rw [stage] at hstage hn
  case releasing => exact hstage.2.2
  case leaving => exact hstage.2
  case raising | ended => cases hn
  all_goals exact hstage.elim

section Employed

/-- What is said of workers that start, at the places before threads ran short. -/
def Employed (short : Option Shortage) (post : Nat → Post) (L : Nat → List Event → Worker → Prop)
    (place : Nat) (log : List Event) (w : Worker) : Prop :=
  match short with
  | none => L place log w
  | some short => if place < short.place then L place log w else Unstarted short (post place) place log w

variable {found : Option Shortage} {post : Nat → Post} {L : Nat → List Event → Worker → Prop}

theorem employed_keeps (hL : EachKeeps L) : EachKeeps (Employed found post L) := by
  intro place log w event h hplace hn
  cases found with
  | none => exact hL place log w event h hplace hn
  | some short =>
    unfold Employed at h ⊢
    dsimp only at h ⊢
    split at h
    · rename_i hlt
      rw [if_pos hlt]
      exact hL place log w event h hplace hn
    · rename_i hge
      rw [if_neg hge]
      exact h.after hplace hn

theorem Mustered.employed {p : Post} (h : Mustered found p place w) (hpost : post place = p)
    (hnew : ∀ v, Worker.Newly p v → L place [] v) : Employed found post L place [] w := by
  subst hpost
  cases h with
  | ready newly before =>
    cases found with
    | none => exact hnew w newly
    | some short =>
      unfold Employed
      dsimp only
      rw [if_pos (before short rfl)]
      exact hnew w newly
  | stranded newly met first =>
    subst met
    unfold Employed
    dsimp only
    rw [if_neg (by omega)]
    exact unstarted_strand newly first
  | stoodDown newly met behind =>
    subst met
    unfold Employed
    dsimp only
    rw [if_neg (by omega)]
    exact unstarted_standDown newly behind

theorem Employed.cases (h : Employed found post L place log w) :
    (L place log w ∧ ∀ short ∈ found, place < short.place) ∨
      ∃ short ∈ found, short.place ≤ place ∧ Unstarted short (post place) place log w := by
  cases found with
  | none => exact .inl ⟨h, by simp⟩
  | some short =>
    unfold Employed at h
    dsimp only at h
    split at h
    · rename_i hlt
      exact .inl ⟨h, by simpa using hlt⟩
    · rename_i hge
      exact .inr ⟨short, rfl, Nat.not_lt.mp hge, h⟩

end Employed

end Crew

/-- There is a thread for the first worker only. -/
def Bench.threadless : Crew.Shortage := ⟨1, "no thread left"⟩

/-- What is kept by the events of workers that start holds of them, and the others are known. -/
theorem Bench.Reaches.employed {σ : Type} {store : Store σ} {b : Bench} {createdAt : Int64}
    {base : Nat} {s : σ}
    {goes : Crew σ → List Crew.Event → Crew σ → Prop} {short : Option Crew.Shortage} {log : List Crew.Event}
    {d : Crew σ} {L : Nat → List Crew.Event → Worker → Prop} (hL : Crew.EachKeeps L)
    (hgoes : ∀ {c log d}, goes c log d → Crew.Follows c log d)
    (h : b.Reaches createdAt store base goes s short log d) (hnew : ∀ place w, place < b.workload.crewSize →
      Worker.Newly (b.post createdAt place) w → L place [] w) :
    Crew.Each (Crew.Employed short (b.post createdAt) L) log d :=
  h.each (Crew.employed_keeps hL) hgoes fun place _ hplace hmustered =>
    hmustered.employed rfl fun v hnewly => hnew place v hplace hnewly

end InsertBench
