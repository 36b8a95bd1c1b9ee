import InsertBench.Proofs.Crew.Account
import InsertBench.Run.Bench

/-! # What a run of a bench can return

Workers are hired one for each thread, go on in some way in which crews can go on, and once all have
ended the run is concluded, or broken off if threads ran short. Runs whose workers take turns are among
these: `returns_of_runOn`.
-/
namespace InsertBench

variable {σ : Type} {store : Store σ} {base : Nat}

namespace Worker

/-- A worker as it is hired: its session is not opened yet, or has just been opened. -/
def Newly (p : Post) (w : Worker) : Prop := w = new p ∨ w = (new p).goOn 0

theorem goOn_post (w : Worker) (round : Nat) : (w.goOn round).post = w.post := by
  unfold goOn
  split <;> rfl

theorem goOn_tally (w : Worker) (round : Nat) : (w.goOn round).tally = w.tally := by
  unfold goOn
  split <;> rfl

theorem goOn_moveTo (w : Worker) (round : Nat) (stage : Stage) :
    (w.goOn round).moveTo stage = w.moveTo stage := by
  unfold goOn
  split <;> rfl

theorem Newly.moveTo {p : Post} {w : Worker} (h : Newly p w) (stage : Stage) :
    w.moveTo stage = (new p).moveTo stage := by
  rcases h with rfl | rfl
  · rfl
  · exact goOn_moveTo _ _ _

theorem Newly.post {p : Post} {w : Worker} (h : Newly p w) : w.post = p := by
  rcases h with rfl | rfl
  · rfl
  · exact goOn_post _ _

theorem Newly.onTrack {p : Post} {w : Worker} (h : Newly p w) (hp : p.Fit) : w.OnTrack := by
  rcases h with rfl | rfl
  · exact onTrack_new hp
  · exact (onTrack_new hp).goOn rfl

theorem Newly.told {p : Post} {w : Worker} (h : Newly p w) (hp : p.Fit) : Told [] w := by
  rcases h with rfl | rfl
  · exact told_new
  · exact stageTold_goOn (w := new p) hp rfl (Nat.zero_le _) told_new

theorem run_ended {clock : UInt64} {seat : Nat} {w v : Worker} {s t : σ} {halt raised : Bool}
    (h : run (m := Id) clock store seat w s halt = some (v, t, raised)) : v.next = none := by
  rw [run] at h
  split at h
  · rename_i hn
    cases h
    exact hn
  · rename_i hn
    split at h
    · cases h
    · rename_i reply s' _
      have := answer_nearer hn reply
      exact run_ended h
  · rename_i hn
    have := sawHalt_nearer hn halt
    exact run_ended h
  · rename_i hn
    have := raised_nearer hn
    exact run_ended h
  · rename_i hn
    have := tick_nearer hn clock
    exact run_ended h
termination_by w.ahead
decreasing_by all_goals exact ‹Nearer _ _›

end Worker

namespace Crew

/-- A worker joins a crew: an eager one opens its session first. -/
inductive Joins (store : Store σ) (seat : Nat) (p : Post) : σ → Worker → σ → Prop
  | lazy {s : σ} (mode : p.workload.sessionStart = .lazy) : Joins store seat p s (.new p) s
  | eager {s t : σ} {verdict : Verdict} (mode : p.workload.sessionStart = .eager)
      (opened : store.call s seat (.openSession p.table) = some (.ok verdict, t)) :
      Joins store seat p s ((Worker.new p).answer (.ok verdict)) t

/-- What it can come to when so many workers are hired from a place on. -/
inductive Hires (store : Store σ) (base : Nat) (post : Nat → Post) :
    (left place : Nat) → σ → Except Stop (List Worker) → σ → Prop
  | nobody {place : Nat} {s : σ} : Hires store base post 0 place s (.ok []) s
  | joined {left place : Nat} {s t u : σ} {first : Worker} {workers : List Worker}
      (joins : Joins store (base + place) (post place) s first u)
      (rest : hire store base post left (place + 1) u = some (.ok workers, t)) :
      Hires store base post (left + 1) place s (.ok (first :: workers)) t
  /-- The worker joins, but a later one cannot. -/
  | inVain {left place : Nat} {s t u : σ} {first : Worker} {stop : Stop}
      (joins : Joins store (base + place) (post place) s first u)
      (rest : hire store base post left (place + 1) u = some (.error stop, t)) :
      Hires store base post (left + 1) place s (.error stop) t
  | refused {left place : Nat} {s t u : σ} {stop : Stop} (mode : (post place).workload.sessionStart = .eager)
      (failed : store.call s (base + place) (.openSession (post place).table) = some (.error stop, u))
      (dismissed : dismiss store ((eagerBefore post place).map (base + ·)) u = some t) :
      Hires store base post (left + 1) place s (.error (stop.during (.openSession (post place).id))) t

variable {post : Nat → Post} {left place : Nat} {s t : σ} {outcome : Except Stop (List Worker)}

theorem hires_of_hire (h : hire store base post left place s = some (outcome, t)) :
    Hires store base post left place s outcome t := by
  cases left with
  | zero =>
    cases h
    exact .nobody
  | succ left =>
    cases mode : (post place).workload.sessionStart with
    | lazy =>
      rw [hire, mode] at h
      dsimp only at h
      split at h
      · rename_i hrest
        cases h
        exact .joined (.lazy mode) hrest
      · rename_i hnot
        cases outcome with
        | error stop => exact .inVain (.lazy mode) h
        | ok workers => exact absurd h (hnot _ _)
    | eager =>
      rw [hire, mode] at h
      dsimp only at h
      split at h
      · cases h
      · rename_i failed
        obtain ⟨_, dismissed, he⟩ := Option.map_eq_some_iff.mp h
        cases he
        exact .refused mode failed dismissed
      · rename_i opened
        split at h
        · rename_i hrest
          cases h
          exact .joined (.eager mode opened) hrest
        · rename_i hnot
          cases outcome with
          | error stop => exact .inVain (.eager mode opened) h
          | ok workers => exact absurd h (hnot _ _)

theorem hire_of_hires (h : Hires store base post left place s outcome t) :
    hire store base post left place s = some (outcome, t) := by
  cases h with
  | nobody => rfl
  | joined joins rest | inVain joins rest =>
    cases joins with
    | lazy mode =>
      rw [hire, mode]
      dsimp only
      rw [rest]
    | eager mode opened =>
      rw [hire, mode]
      dsimp only
      rw [opened]
      dsimp only
      rw [rest]
  | refused mode failed dismissed =>
    rw [hire, mode]
    dsimp only
    rw [failed]
    dsimp only
    rw [dismissed]
    rfl

theorem Joins.newly {seat : Nat} {p : Post} {w : Worker} (h : Joins store seat p s w t) :
    Worker.Newly p w := by
  cases h with
  | lazy _ => exact .inl rfl
  | eager _ _ => exact .inr rfl

theorem hire_workers {workers : List Worker}
    (h : hire store base post left place s = some (.ok workers, t)) :
    workers.length = left ∧ ∀ i w, workers[i]? = some w → Worker.Newly (post (place + i)) w := by
  induction left generalizing place s t workers with
  | zero =>
    cases h
    exact ⟨rfl, fun i w hw => by simp at hw⟩
  | succ left ih =>
    cases hires_of_hire h with
    | joined joins rest =>
      obtain ⟨hlength, hnewly⟩ := ih rest
      refine ⟨by rw [List.length_cons, hlength], ?_⟩
      intro i w hw
      cases i with
      | zero =>
        cases hw
        exact joins.newly
      | succ i =>
        have := hnewly i w hw
        rwa [Nat.add_assoc, Nat.add_comm 1 i] at this

theorem length_muster (short : Option Shortage) (workers : List Worker) :
    (muster short workers).length = workers.length := by
  cases short with
  | none => rfl
  | some short => simp [muster]

/-- A worker as it stands when its crew begins to act: as it was hired, unless threads ran short at its
place or before. -/
inductive Mustered (short : Option Shortage) (p : Post) (place : Nat) : Worker → Prop
  | ready {w : Worker} (newly : Worker.Newly p w) (before : ∀ found ∈ short, place < found.place) :
      Mustered short p place w
  | stranded {w : Worker} {found : Shortage} (newly : Worker.Newly p w) (met : short = some found)
      (first : place = found.place) : Mustered short p place (w.strand found.failure)
  | stoodDown {w : Worker} {found : Shortage} (newly : Worker.Newly p w) (met : short = some found)
      (behind : found.place < place) : Mustered short p place w.standDown

theorem Mustered.newly {p : Post} {w : Worker} (h : Mustered none p place w) : Worker.Newly p w := by
  cases h with
  | ready newly _ => exact newly
  | stranded _ met _ | stoodDown _ met _ => cases met

theorem mustered_of_hire {workers : List Worker} (short : Option Shortage)
    (h : hire store base post left place s = some (.ok workers, t)) (i : Nat) (w : Worker)
    (hw : (muster short workers)[i]? = some w) : Mustered short (post (place + i)) i w := by
  have hnewly := (hire_workers h).2
  cases short with
  | none => exact .ready (hnewly i w hw) (by simp)
  | some found =>
    rw [muster, List.getElem?_mapIdx] at hw
    obtain ⟨v, hv, rfl⟩ := Option.map_eq_some_iff.mp hw
    have hnew := hnewly i v hv
    rcases Nat.lt_trichotomy i found.place with hlt | rfl | hgt
    · rw [if_pos hlt]
      exact .ready hnew (by simpa using hlt)
    · rw [if_neg (Nat.lt_irrefl _), if_pos rfl]
      exact .stranded hnew rfl rfl
    · rw [if_neg (by omega), if_neg (by omega)]
      exact .stoodDown hnew rfl hgt

theorem inTurn_ended {clock : UInt64} {now later : List Worker} {seat : Nat} {s t : σ}
    {halt raised : Bool}
    (h : inTurn (m := Id) clock store now seat s halt = some (later, t, raised)) :
    ∀ w ∈ later, w.next = none := by
  induction now generalizing seat s halt later with
  | nil =>
    cases h
    simp
  | cons w rest ih =>
    unfold inTurn at h
    simp only [bind, pure] at h
    split at h
    · cases h
    · rename_i hrun
      split at h
      · cases h
      · rename_i hrest
        cases h
        intro v hv
        rcases List.mem_cons.mp hv with rfl | hv
        · exact Worker.run_ended hrun
        · exact ih hrest v hv

end Crew

namespace Bench

theorem place_of_met {b : Bench} {short : Option Crew.Shortage} {found : Crew.Shortage}
    (h : b.met short = some found) : found.place < b.workload.threads.toNat :=
  of_decide_eq_true (Option.filter_eq_some_iff.mp h).2

variable (b : Bench) (createdAt : Int64) (store : Store σ) (base : Nat)
  (goes : Crew σ → List Crew.Event → Crew σ → Prop) (s : σ)

/-- A crew is hired and mustered, and comes to this in a way in which crews go on. -/
inductive Reaches : Option Crew.Shortage → List Crew.Event → Crew σ → Prop
  | hired {short : Option Crew.Shortage} {workers : List Worker} {t : σ} {log : List Crew.Event} {d : Crew σ}
      (hire : Crew.hire store base (b.post createdAt) b.workload.threads.toNat 0 s = some (.ok workers, t))
      (run : goes ⟨t, false, Crew.muster short workers⟩ log d) : Reaches short log d

/-- A run, with threads for all workers or short of them, returns a result and leaves a store, after what
happened. -/
inductive Returns : Option Crew.Shortage → List Crew.Event → Except Stop Report → σ → Prop
  | unmanned {short : Option Crew.Shortage} {stop : Stop} {t : σ}
      (hire : Crew.hire store base (b.post createdAt) b.workload.threads.toNat 0 s = some (.error stop, t)) :
      Returns short [] (.error stop) t
  | manned {log : List Crew.Event} {d : Crew σ} {elapsed : Elapsed} {result : Except Stop Report} {t : σ}
      (run : b.Reaches createdAt store base goes s none log d) (ended : ∀ w ∈ d.workers, w.next = none)
      (concluded : b.conclude store elapsed d.workers d.store = (result, t)) : Returns none log result t
  | brokenOff {short : Crew.Shortage} {log : List Crew.Event} {d : Crew σ}
      (inside : short.place < b.workload.threads.toNat)
      (run : b.Reaches createdAt store base goes s (some short) log d)
      (ended : ∀ w ∈ d.workers, w.next = none) :
      Returns (some short) log (.error (breakOff short d.workers)) d.store

variable {b createdAt store base s}

/-- What a run returns when its workers take turns is returned under some schedule. -/
theorem returns_of_runOn {clock : UInt64} {short : Option Crew.Shortage} {result : Except Stop Report} {t : σ}
    (h : b.runOn (m := Id) clock createdAt store base s short = some (result, t)) :
    ∃ log, b.Returns createdAt store base (Crew.Runs store base) s (b.met short) log result t := by
  unfold runOn at h
  simp only [bind, pure] at h
  split at h
  · cases h
  · rename_i hhire
    cases h
    exact ⟨[], .unmanned hhire⟩
  · rename_i hhire
    split at h
    · cases h
    · rename_i hturn
      obtain ⟨log, hlog⟩ := Crew.runs_of_inTurn [] hturn
      have hended := Crew.inTurn_ended hturn
      split at h
      · rename_i found hmet
        cases h
        rw [hmet] at hlog ⊢
        exact ⟨log, .brokenOff (place_of_met hmet) (.hired hhire hlog) hended⟩
      · rename_i hmet
        rw [hmet] at hlog ⊢
        exact ⟨log, .manned (.hired hhire hlog) hended (Option.some.inj h)⟩

theorem post_fit (h : b.workload.Accepted) {place : Nat} (hp : place < b.workload.crewSize) :
    (b.post createdAt place).Fit where
  accepted := h
  thread := by
    rw [post, Word.toNat_toUInt64 (hp.trans b.workload.threads.toNat_lt_size)]
    exact hp

section Reaches

variable {goes : Crew σ → List Crew.Event → Crew σ → Prop} {short : Option Crew.Shortage}
  {log : List Crew.Event} {d : Crew σ}

theorem Reaches.manned (hgoes : ∀ {c log d}, goes c log d → Crew.Follows c log d)
    (h : b.Reaches createdAt store base goes s short log d) : Crew.Manned b.workload.crewSize log d := by
  obtain ⟨hire, run⟩ := h
  have hmanned := (hgoes run).manned
  dsimp only at hmanned
  rwa [Crew.length_muster, (Crew.hire_workers hire).1] at hmanned

/-- What holds of each worker when its crew begins to act, and is kept by its events, holds of it and its
own events. -/
theorem Reaches.each {L : Nat → List Crew.Event → Worker → Prop} (hL : Crew.EachKeeps L)
    (hgoes : ∀ {c log d}, goes c log d → Crew.Follows c log d)
    (h : b.Reaches createdAt store base goes s short log d) (hnew : ∀ place w, place < b.workload.crewSize →
      Crew.Mustered short (b.post createdAt place) place w → L place [] w) : Crew.Each L log d := by
  obtain ⟨hire, run⟩ := h
  refine (hgoes run).each hL fun place w hget => ?_
  have hplace := (List.getElem?_eq_some_iff.mp hget).1
  rw [Crew.length_muster, (Crew.hire_workers hire).1] at hplace
  have hmustered := Crew.mustered_of_hire short hire place w hget
  rw [Nat.zero_add] at hmustered
  exact hnew place w hplace hmustered

end Reaches

end Bench

end InsertBench
