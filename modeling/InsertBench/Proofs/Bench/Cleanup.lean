import InsertBench.Proofs.Attentive.Stores
import InsertBench.Proofs.Bench.Faults
import InsertBench.Proofs.Bench.Outcome
import InsertBench.Proofs.Stepwise.Released

/-! # Nothing is left behind

On any store a run lets go of all that it opened. In particular tables with row locks are left with the
sessions, the locks and the count of open sessions that they had, so that a new store can be shut down
after any run on it.
-/
namespace InsertBench.Bench

open Stepwise (Goes Tracks)
open RowLocks (Sound Restored Followed)

variable {σ : Type} {store : Store σ} {b : Bench} {createdAt : Int64} {base : Nat}
  {short : Option Crew.Shortage} {log : List Crew.Event} {result : Except Stop Report}

theorem Reaches.mono {goes further : Crew σ → List Crew.Event → Crew σ → Prop} {s : σ} {d : Crew σ}
    (h : b.Reaches createdAt store base goes s short log d)
    (hmore : ∀ {c log d}, goes c log d → further c log d) :
    b.Reaches createdAt store base further s short log d := by
  obtain ⟨hire, run⟩ := h
  exact .hired hire (hmore run)

theorem Returns.mono {goes further : Crew σ → List Crew.Event → Crew σ → Prop} {s t : σ}
    (h : b.Returns createdAt store base goes s short log result t)
    (hmore : ∀ {c log d}, goes c log d → further c log d) :
    b.Returns createdAt store base further s short log result t := by
  cases h with
  | unmanned hire => exact .unmanned hire
  | manned run ended concluded => exact .manned (run.mono hmore) ended concluded
  | brokenOff inside run ended => exact .brokenOff inside (run.mono hmore) ended

theorem store_of_conclude {elapsed : Elapsed} {workers : List Worker} {s t : RowLocks}
    (h : b.conclude RowLocks.store elapsed workers s = (result, t)) : t = s := by
  unfold conclude at h
  split at h
  · cases h
    rfl
  · simp only [check, RowLocks.store] at h
    repeat' split at h
    all_goals
      cases h
      rfl

variable {s t : RowLocks}

/-- The store after a hiring is as its calls make it. -/
theorem followed_of_hire {outcome : Except Stop (List Worker)} (hire : Crew.hire RowLocks.store base
    (b.post createdAt) b.workload.threads.toNat 0 s = some (outcome, t)) :
    Followed base b.workload.threads.toNat s (b.hiringCalls createdAt RowLocks.store base s) t := by
  rw [← Crew.hire_recorded _ _ _ []] at hire
  obtain ⟨⟨_, u, calls⟩, hrecord, he⟩ := Option.map_eq_some_iff.mp hire
  cases he
  rw [hiringCalls, hrecord]
  exact Followed.hire hrecord

/-- The store that a crew has come to is as the calls of the run make it. -/
theorem followed_of_reaches {d : Crew RowLocks}
    (h : b.Reaches createdAt RowLocks.store base (Goes base) s short log d) :
    Followed base b.workload.threads.toNat s (b.calls createdAt RowLocks.store base s log) d.store := by
  obtain ⟨hire, todo, hruns⟩ := h
  have hlength := (Crew.length_muster short _).trans (Crew.hire_workers hire).1
  have htracks := hruns.tracks ⟨followed_of_hire hire, hlength, fun _ _ _ => .inl rfl⟩
  exact htracks.followed

theorem followed_of_returns (h : b.Returns createdAt RowLocks.store base (Goes base) s short log result t) :
    Followed base b.workload.threads.toNat s (b.calls createdAt RowLocks.store base s log) t := by
  cases h with
  | unmanned hire =>
    rw [calls, show Crew.callsOf base [] = [] from rfl, List.append_nil]
    exact followed_of_hire hire
  | manned run _ concluded =>
    rw [store_of_conclude concluded]
    exact followed_of_reaches run
  | brokenOff _ run _ => exact followed_of_reaches run

theorem restored_of_returns (hw : b.workload.Accepted) (hsound : Sound s)
    (hfree : ∀ place < b.workload.threads.toNat, s.sessions[base + place]? = none)
    (h : b.Returns createdAt RowLocks.store base (Goes base) s short log result t) : Restored s t :=
  (followed_of_returns h).restored hsound hfree (releases_of_returns Goes.follows hw h).balanced

theorem shut_of_restored (h : Restored .empty t) : RowLocks.store.shut t = .ok () := by
  have hopen : t.openSessions = 0 := h.openSessions
  change t.shut = .ok ()
  rw [RowLocks.shut, if_pos hopen]

/-- No run on tables with row locks fails as if ending the store had failed. -/
theorem ne_closeStore_of_returns (hw : b.workload.Accepted) (hq : s.Quiescent)
    (h : b.Returns createdAt RowLocks.store base (Goes base) s short log result t) (why : Failure) :
    result ≠ .error (.failed (.during .closeStore why)) := by
  cases short with
  | none =>
    cases ends_of_returns hw hq hw.effectiveRows_eq h with
    | full _ _ _ | miscounted _ _ _ | stopped _ _ _ _ _ _ => simp [blamed]
  | some found =>
    cases h with
    | unmanned hire =>
      obtain ⟨_, _, _, _, stop, _, _, rfl⟩ := Crew.hire_stopped hire
      cases stop <;> simp [Stop.during]
    | brokenOff _ _ _ =>
      unfold breakOff
      split <;> simp [Crew.Shortage.failure]

/-- A bench lets go of all that it opens: on any store and under any schedule, and on tables with row
locks also if workers act between any two operations and others have sessions of their own. -/
structure Tidy (b : Bench) : Prop where
  releases {σ : Type} (store : Store σ) (createdAt : Int64) (base : Nat) (s t : σ)
    (short : Option Crew.Shortage) (log : List Crew.Event) (result : Except Stop Report) :
      b.Returns createdAt store base (Crew.Runs store base) s short log result t →
        b.Releases createdAt store base s short log
  restores (createdAt : Int64) (base : Nat) (s t : RowLocks) (short : Option Crew.Shortage)
    (log : List Crew.Event) (result : Except Stop Report) : Sound s →
      (∀ place < b.workload.threads.toNat, s.sessions[base + place]? = none) →
        b.Returns createdAt RowLocks.store base (Goes base) s short log result t →
          b.Releases createdAt RowLocks.store base s short log ∧ Restored s t
  /-- A new store can be shut down after any run. -/
  shuts (createdAt : Int64) (base : Nat) (t : RowLocks) (short : Option Crew.Shortage)
    (log : List Crew.Event) (result : Except Stop Report) :
      b.Returns createdAt RowLocks.store base (Goes base) .empty short log result t →
        RowLocks.store.shut t = .ok ()
  /-- A run on a new store that is ended afterwards has a result, which is no failure to end the store. -/
  run {τ : Type} (clock : StateM τ UInt64) (createdAt : Int64) (short : Option Crew.Shortage) (reading : τ) :
    ∃ result later,
      (b.run clock createdAt RowLocks.store .empty short).run reading = pure (some result, later) ∧
        ∀ why, result ≠ .error (.failed (.during .closeStore why))

theorem tidy_of_accepted (hw : b.workload.Accepted) : b.Tidy := by
  have hshut {createdAt : Int64} {base : Nat} {t : RowLocks} {short : Option Crew.Shortage}
      {log : List Crew.Event} {result : Except Stop Report}
      (h : b.Returns createdAt RowLocks.store base (Goes base) .empty short log result t) :
      RowLocks.store.shut t = .ok () :=
    shut_of_restored (restored_of_returns hw RowLocks.quiescent_empty.sound
      (fun _ _ => RowLocks.quiescent_empty.sessions _) h)
  constructor
  case releases =>
    intro σ store createdAt base s t short log result h
    exact releases_of_returns Crew.Runs.follows hw h
  case restores =>
    intro createdAt base s t short log result hsound hfree h
    exact ⟨releases_of_returns Goes.follows hw h, restored_of_returns hw hsound hfree h⟩
  case shuts => exact fun _ _ _ _ _ _ => hshut
  case run =>
    intro τ clock createdAt short reading
    obtain ⟨result, t, later, log, hrun, hreturns⟩ :=
      run_ends RowLocks.attentive b clock createdAt RowLocks.occupied_empty short reading
    have hstepwise := hreturns.mono Stepwise.goes_of_runs
    refine ⟨_, later, hrun, fun why => ?_⟩
    rw [settle_of_shut (hshut hstepwise)]
    exact ne_closeStore_of_returns hw RowLocks.quiescent_empty hstepwise why

/-- A store that has room for one session at a time, and counts it. -/
def crowded : Store Nat where
  name _ := "crowded"
  call
    | 0, _, .openSession _ => some (.ok .accepted, 1)
    | n, _, .openSession _ => some (.error (.failed (.reported "full")), n)
    | n, _, .close | n, _, .dropSession => some (.ok .accepted, n - 1)
    | n, _, _ => some (.ok .accepted, n)
  rowCount n _ := (.ok 0, n)
  shut _ := .ok ()

def twoEager : Bench := ⟨⟨2, 1, 2, .eager, false, .unbounded⟩, "t", false⟩

def taken : RowLocks := .holding "t" (.insert ∅ 0 [1])

def opened (s : RowLocks) : RowLocks := (Crew.hire RowLocks.store 0 (twoEager.post 0) 2 0 s).elim s Prod.snd

/-- Where only one session can be opened, it is dropped again. Where a row is there already, its worker drops
its transaction and then its session, while the other worker closes its own. Where there is no thread for the
second worker, it drops its session while the first one works. -/
theorem tidy_twoEager :
    (twoEager.Returns 0 crowded 0 (Crew.Runs crowded 0) 0 none []
        (.error (.failed (.during (.openSession 1) (.reported "full")))) 0 ∧
      callsAt (twoEager.calls 0 crowded 0 0 []) 0 =
        [(.openSession "t", .ok .accepted), (.dropSession, .ok .accepted)]) ∧
    (∃ log t, twoEager.Returns 0 RowLocks.store 0 (Goes 0) taken none log (.error (blamed 0 0)) t ∧
      (callsAt (twoEager.calls 0 RowLocks.store 0 taken log) 0).map Prod.fst =
        [.openSession "t", .beginTxn, .insert 0 (Row.generate 0 0).encode, .dropTxn, .dropSession] ∧
      (callsAt (twoEager.calls 0 RowLocks.store 0 taken log) 1).map Prod.fst =
        [.openSession "t", .beginTxn, .insert 1 (Row.generate 0 1).encode, .commit, .close] ∧
      Restored taken t) ∧
    (∃ log t, twoEager.Returns 0 RowLocks.store 0 (Goes 0) .empty (some threadless) log
        (.error (.failed (.during (.startWorker 1) (.reported "no thread left")))) t ∧
      (callsAt (twoEager.calls 0 RowLocks.store 0 .empty log) 1).map Prod.fst =
        [.openSession "t", .dropSession] ∧ Restored .empty t) ∧
    twoEager.Tidy := by
  have htidy : twoEager.Tidy := tidy_of_accepted (by decide)
  have hended {v w : Worker} (hv : v.next = none) (hw : w.next = none) : ∀ x ∈ [v, w], x.next = none := by
    simp [hv, hw]
  have hfree (s : RowLocks) (hq : s.Quiescent) :
      ∀ place < twoEager.workload.threads.toNat, s.sessions[0 + place]? = none := fun _ _ => hq.sessions _
  refine ⟨⟨.unmanned rfl, rfl⟩, ?_, ?_, htidy⟩
  · have hruns : Stepwise.Runs 0 ⟨⟨opened taken, false, [(Worker.new (twoEager.post 0 0)).goOn 0,
        (Worker.new (twoEager.post 0 1)).goOn 0]⟩, fun _ => []⟩ _
        ⟨⟨_, true, [⟨twoEager.post 0 0, .zero 0, .ended (some (blamed 0 0)), _⟩,
          ⟨twoEager.post 0 1, ⟨1, 1, 1, 0, _⟩, .ended none, _⟩]⟩, _⟩ :=
      .other 0 0 rfl nofun <| .other 1 0 rfl nofun <| .other 0 0 rfl nofun <| .other 1 0 rfl nofun <|
        .last 0 rfl rfl rfl rfl <| .last 1 rfl rfl rfl rfl <| .last 0 rfl rfl rfl rfl <|
        .last 1 rfl rfl rfl rfl <| .last 0 rfl rfl rfl rfl <| .part 1 rfl rfl rfl rfl <|
        .last 0 rfl rfl rfl rfl <| .part 1 rfl rfl rfl rfl <| .other 0 0 rfl nofun <|
        .last 1 rfl rfl rfl rfl <| .other 1 0 rfl nofun <| .last 1 rfl rfl rfl rfl <| .done _
    have hreturns : twoEager.Returns 0 RowLocks.store 0 (Goes 0) taken none _ (.error (blamed 0 0)) _ :=
      @Returns.manned _ _ _ _ _ _ _ _ _ ⟨0, 0⟩ _ _ (.hired rfl ⟨_, hruns⟩) (hended rfl rfl) rfl
    have hq : taken.Quiescent := RowLocks.quiescent_holding _ _
    exact ⟨_, _, hreturns, rfl, rfl, (htidy.restores _ _ _ _ _ _ _ hq.sound (hfree _ hq) hreturns).2⟩
  · have hruns : Stepwise.Runs 0 ⟨⟨opened .empty, false, [(Worker.new (twoEager.post 0 0)).goOn 0,
        ((Worker.new (twoEager.post 0 1)).goOn 0).strand threadless.failure]⟩, fun _ => []⟩ _
        ⟨⟨_, true, [⟨twoEager.post 0 0, ⟨0, 1, 1, 0, _⟩, .ended none, _⟩,
          ⟨twoEager.post 0 1, .zero 1, .ended (some (.failed threadless.failure)), []⟩]⟩, _⟩ :=
      .other 0 0 rfl nofun <| .other 0 0 rfl nofun <| .last 0 rfl rfl rfl rfl <| .last 1 rfl rfl rfl rfl <|
        .last 0 rfl rfl rfl rfl <| .other 1 0 rfl nofun <| .part 0 rfl rfl rfl rfl <|
        .part 0 rfl rfl rfl rfl <| .last 0 rfl rfl rfl rfl <| .other 0 0 rfl nofun <|
        .last 0 rfl rfl rfl rfl <| .done _
    have hreturns : twoEager.Returns 0 RowLocks.store 0 (Goes 0) .empty (some threadless) _ _ _ :=
      .brokenOff (by decide) (.hired rfl ⟨_, hruns⟩) (hended rfl rfl)
    have hq := RowLocks.quiescent_empty
    exact ⟨_, _, hreturns, rfl, (htidy.restores _ _ _ _ _ _ _ hq.sound (hfree _ hq) hreturns).2⟩

end InsertBench.Bench
