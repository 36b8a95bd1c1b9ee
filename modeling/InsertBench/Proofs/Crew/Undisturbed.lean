import InsertBench.Proofs.Crew.Alone

/-! # Workers that are undisturbed

If no call of a worker alone fails, and if its batches meet no more conflicts than they may be redone, the
worker is certain to return a report. Wherever the conflicts fall, they change nothing in what it commits.
-/
namespace InsertBench

variable {σ : Type}

/-- However a crew goes on, it comes to a goal: as long as it is not there it can go on, and only so
often. -/
inductive Crew.Comes (store : Store σ) (base : Nat) (goal : Crew σ → Prop) : Crew σ → Prop
  | now {c : Crew σ} (there : goal c) : Comes store base goal c
  | later {c : Crew σ} (acts : ∃ place now event d, c.act store base place now = some (event, d))
      (each : ∀ place now event d, c.act store base place now = some (event, d) → Comes store base goal d) :
      Comes store base goal c

namespace Worker

open Crew (Event exchanges)

/-- A worker alone whose calls never fail. Between two commits it meets no more conflicts than a batch may
be redone.

All its conflicts can be counted: the count has a word of 64 bits and is checked, so a worker that met
`2 ^ 64` conflicts would end with a fault, and has no report that could be compared. -/
structure Undisturbed (store : Store σ) (seat : Nat) (post : Post) (w : Worker) (s : σ) : Prop where
  newly : Newly post w
  answered {log : List Event} {d : Crew σ} {v : Worker} {request : Request} :
    Crew.Runs store seat (.alone w s) log d → d.workers = [v] → v.next = some (.call request) →
      ∃ verdict t, store.call d.store seat request = some (.ok verdict, t)
  counted {log : List Event} {d : Crew σ} : Crew.Runs store seat (.alone w s) log d →
    log.countP Event.isConflict < UInt64.size
  patient {log : List Event} {d : Crew σ} {most : UInt64} {before now : List Exchange} :
    Crew.Runs store seat (.alone w s) log d → post.workload.retry = .bounded most →
      exchanges log = before ++ now → Batch.commitCalls now = 0 → conflictsIn now ≤ most.toNat

variable {store : Store σ} {seat : Nat} {post : Post} {w v : Worker} {s : σ} {log : List Event}
  {d : Crew σ} {event : Event}

/-- Nothing in a log makes a worker fail. -/
structure Favourable (post : Post) (log : List Event) : Prop where
  answered {place : Nat} {request : Request} {reply : Reply} : .call place request reply ∈ log →
    ∃ verdict, reply = .ok verdict
  counted : log.countP Event.isConflict < UInt64.size
  patient {most : UInt64} {before now : List Exchange} : post.workload.retry = .bounded most →
    exchanges log = before ++ now → Batch.commitCalls now = 0 → conflictsIn now ≤ most.toNat

def Well : Stage → Prop
  | .releasing _ | .raising _ | .ended (some _) => False
  | _ => True

theorem Favourable.exchange_ok (h : Favourable post log) {exchange : Exchange}
    (hmem : exchange ∈ exchanges log) : ∃ verdict, exchange.2 = .ok verdict := by
  obtain ⟨event, hevent, he⟩ := List.mem_filterMap.mp hmem
  match event with
  | .call place request reply =>
    obtain ⟨verdict, rfl⟩ := h.answered hevent
    cases request <;> simp [Event.exchange?] at he <;> exact ⟨verdict, by rw [← he]⟩
  | .readHalt .. | .raiseHalt _ | .readClock .. => simp [Event.exchange?] at he

theorem OnDuty.well_running (h : OnDuty post log w) (hfit : post.Fit) {round : Nat} {since : UInt64}
    {batch : Batch} (stage : w.stage = .running round since batch) {place : Nat} {reply : Reply}
    (hfavour : Favourable post (log ++ [.call place (batch.next (w.plan round)) reply])) :
    Well (w.answer reply).stage := by
  have hran := h.ran
  have hround := h.onTrack.stage
  rw [Ran, stage] at hran
  rw [stage] at hround
  obtain ⟨before, now, _, hnow, hcalls⟩ := hran
  have hplan : w.plan round = post.plan round := by rw [← h.post]; rfl
  have hkeyed : (post.plan round).Keyed := by
    rw [← hplan]
    exact (plan_fit (h.post ▸ hfit) hround.1).keyed
  rw [h.post] at hnow
  rw [hplan] at hfavour
  have hcall := hnow.call reply
  have hall : exchanges (log ++ [.call place (batch.next (post.plan round)) reply]) =
      before ++ (now ++ [(batch.next (post.plan round), reply)]) := by
    rw [Crew.exchanges_next, hcalls, List.append_assoc]
  simp only [answer, stage, hplan]
  generalize batch.answer (post.plan round) reply = progress at hcall
  cases progress with
  | more later => trivial
  | _ result =>
    have hcounted := hfavour.counted
    rw [← Crew.conflictsIn_exchanges, hall, Batch.conflictsIn_append] at hcounted
    obtain ⟨count, rfl⟩ := (hcall.stands hkeyed).result_ok
      (fun exchange hmem => hfavour.exchange_ok (by rw [hall]; exact List.mem_append_right _ hmem))
      (fun most hretry hnone => hfavour.patient hretry hall hnone) (by omega)
    trivial

/-- Between its batches a worker that is favoured does not fail. -/
theorem OnDuty.well_moves (h : OnDuty post log w) (hm : Moves w event v)
    (hfavour : Favourable post (log ++ [event])) (hw : Well w.stage)
    (hidle : ∀ round since batch, w.stage ≠ .running round since batch) : Well v.stage := by
  have hfit := h.onTrack.fit
  have hfails {place : Nat} {request : Request} {stop : Stop}
      (he : event = .call place request (.error stop)) :
      False := by
    subst he
    obtain ⟨verdict, hreply⟩ := hfavour.answered (List.mem_append_right log List.mem_cons_self)
    cases hreply
  have hgoOn (u : Worker) (hu : u.post = w.post) (round : Nat) : Well (u.goOn round).stage := by
    rw [goOn_eq (hu ▸ hfit)]
    dsimp only [moveTo]
    split <;> trivial
  cases hm with
  | opened _ => exact hgoOn w rfl _
  | carriedOn _ | halted _ | started _ | closed _ | left _ => trivial
  | @counted _ _ _ _ _ tally _ _ => exact hgoOn { w with tally } rfl _
  | uncounted stage overflow =>
    have hcounted := hfavour.counted
    rw [List.countP_append] at hcounted
    obtain ⟨tally, hadded⟩ := h.told.addBatch_ok h.onTrack stage (by omega) _
    rw [hadded] at overflow
    cases overflow
  | openFailed _ | closeFailed _ => exact (hfails rfl).elim
  | released stage | raised stage =>
    rw [stage] at hw
    exact hw.elim
  | begun stage | beginFailed stage | inserted stage | lockedOut stage | insertFailed stage
  | redone stage _ | gaveUp stage | prepared stage | prepareFailed stage | committed stage
  | commitFailed stage | rolledBack stage => exact absurd stage (hidle _ _ _)

theorem OnDuty.well_after (h : OnDuty post log w) (hfit : post.Fit) (hn : w.next = some event.action)
    (hfavour : Favourable post (log ++ [event])) (hw : Well w.stage) : Well (w.after event).stage := by
  rcases running_or_moves hn with ⟨round, since, batch, place, reply, stage, rfl⟩ | ⟨hm, hidle⟩
  · exact h.well_running hfit stage hfavour
  · exact h.well_moves hm hfavour hw hidle

theorem after_nearer (hn : w.next = some event.action) : Nearer (w.after event).ahead w.ahead := by
  cases event with
  | call _ _ reply => exact answer_nearer hn reply
  | readHalt _ raised => exact sawHalt_nearer hn raised
  | raiseHalt _ => exact raised_nearer hn
  | readClock _ now => exact tick_nearer hn now

theorem Undisturbed.can_act (h : Undisturbed store seat post w s)
    (hruns : Crew.Runs store seat (.alone w s) log d) (hv : d.workers = [v]) {action : Action}
    (hn : v.next = some action) : ∃ place now event e, d.act store seat place now = some (event, e) := by
  have hacts : (d.act store seat 0 0).isSome := by
    cases action with
    | call request =>
      obtain ⟨verdict, t, hserved⟩ := h.answered hruns hv hn
      simp [Crew.act, hv, hn, hserved]
    | readHalt | raiseHalt | readClock => simp [Crew.act, hv, hn]
  obtain ⟨⟨event, e⟩, hact⟩ := Option.isSome_iff_exists.mp hacts
  exact ⟨0, 0, event, e, hact⟩

theorem Undisturbed.favourable (h : Undisturbed store seat post w s)
    (hruns : Crew.Runs store seat (.alone w s) (log ++ [event]) d) (hlog : Favourable post log)
    (hevent : ∀ place request reply, event = .call place request reply → ∃ verdict, reply = .ok verdict) :
    Favourable post (log ++ [event]) where
  answered hmem := by
    rcases List.mem_append.mp hmem with hold | hnew
    · exact hlog.answered hold
    · exact hevent _ _ _ (List.mem_singleton.mp hnew).symm
  counted := h.counted hruns
  patient := h.patient hruns

theorem comes_of_runs (h : Undisturbed store seat post w s) (hfit : post.Fit) {log : List Event}
    {d : Crew σ} {v : Worker} (hruns : Crew.Runs store seat (.alone w s) log d) (hv : d.workers = [v])
    (hlog : Favourable post log) (hw : Well v.stage) :
      Crew.Comes store seat (fun c => ∃ report, c.Reported report) d := by
  cases hn : v.next with
  | none =>
    refine .now ⟨v.tally, v, hv, ?_⟩
    cases hstage : v.stage with
    | ended stop =>
      cases stop with
      | none => exact result?_eq_ok_iff.mpr ⟨hstage, rfl⟩
      | some stop =>
        rw [hstage] at hw
        exact hw.elim
    | _ => simp [next, hstage] at hn
  | some action =>
    refine .later (h.can_act hruns hv hn) ?_
    intro place now event e hact
    obtain ⟨u, hacted⟩ := Crew.acted_of_act hact
    have hhere := hacted.here
    rw [hv] at hhere
    have hplace : event.worker = 0 ∧ v = u := by
      cases hzero : event.worker with
      | zero =>
        rw [hzero] at hhere
        exact ⟨rfl, Option.some.inj hhere⟩
      | succ other =>
        rw [hzero] at hhere
        cases hhere
    obtain ⟨hzero, rfl⟩ := hplace
    have hnext := hacted.next
    have hnearer := after_nearer hnext
    have hruns' := hruns.trans (.act hact (.done e))
    have hworkers : e.workers = [v.after event] := by rw [hacted.workers, hv, hzero]; rfl
    have hfavour : Favourable post (log ++ [event]) := by
      apply h.favourable hruns' hlog
      rintro other request reply rfl
      obtain rfl : other = place := hacted.turn
      obtain rfl : other = 0 := hzero
      obtain ⟨verdict, t, hserved⟩ := h.answered hruns hv hnext
      have hreply := hacted.answered rfl
      rw [Nat.add_zero, hserved] at hreply
      cases hreply
      exact ⟨verdict, rfl⟩
    have hduty : OnDuty post log v := by
      obtain ⟨only, honly, hduty⟩ := onDuty_of_runs hruns hfit h.newly
      rwa [List.singleton_inj.mp (hv.symm.trans honly)]
    exact comes_of_runs h hfit hruns' hworkers hfavour (hduty.well_after hfit hnext hfavour hw)
termination_by v.ahead
decreasing_by exact hnearer

/-- Two reports are about the same work, however many conflicts were met on the way to each. -/
structure Alike (log log' : List Event) (report report' : Tally) : Prop where
  commits : committed (exchanges log) = committed (exchanges log')
  id : report.id = report'.id
  rows : report.rows = report'.rows
  batches : report.batches = report'.batches
  samples : report.latency.total = report'.latency.total
  conflicts : report.conflicts.toNat = conflictsIn (exchanges log)
  conflicts' : report'.conflicts.toNat = conflictsIn (exchanges log')

theorem Completed.alike {table : String} {log' : List Event} {report report' : Tally}
    (h : Completed post log report) (h' : Completed { post with table } log' report') :
    Alike log log' report report' where
  commits := h.commits.trans h'.commits.symm
  id := h.id.trans h'.id.symm
  rows := UInt64.toNat_inj.mp (h.rows.trans h'.rows.symm)
  batches := UInt64.toNat_inj.mp (h.batches.trans h'.batches.symm)
  samples := UInt64.toNat_inj.mp (h.samples.trans h'.samples.symm)
  conflicts := by rw [h.conflicts, Crew.conflictsIn_exchanges]
  conflicts' := by rw [h'.conflicts, Crew.conflictsIn_exchanges]

theorem Undisturbed.comes (h : Undisturbed store seat post w s) (hfit : post.Fit) :
    Crew.Comes store seat (fun c => ∃ report, c.Reported report) (.alone w s) := by
  have hfavour : Favourable post [] := by
    refine ⟨fun hmem => by simp at hmem, by decide, ?_⟩
    intro most before now hretry hall hnone
    exact h.patient (.done _) hretry hall hnone
  have hwell : Well w.stage := by
    rcases h.newly with rfl | rfl
    · trivial
    · rw [goOn_eq (w := new post) hfit]
      dsimp only [moveTo]
      split <;> trivial
  exact comes_of_runs h hfit (.done _) rfl hfavour hwell

/-- Two workers at one post, each on a store of its own, are both certain to return a report, and conflicts
tell apart neither what they commit nor what they report of it. -/
theorem alike_of_undisturbed {τ : Type} {store' : Store τ} {seat' : Nat} {table : String}
    {w' : Worker} {s' : τ} (hfit : post.Fit) (h : Undisturbed store seat post w s)
    (h' : Undisturbed store' seat' { post with table } w' s') :
    Crew.Comes store seat (fun c => ∃ report, c.Reported report) (.alone w s) ∧
    Crew.Comes store' seat' (fun c => ∃ report, c.Reported report) (.alone w' s') ∧
    ∀ log log' d d' report report', Crew.Runs store seat (.alone w s) log d → d.Reported report →
      Crew.Runs store' seat' (.alone w' s') log' d' → d'.Reported report' →
        Alike log log' report report' := by
  have hfit' : Post.Fit { post with table } := ⟨hfit.accepted, hfit.thread⟩
  refine ⟨h.comes hfit, h'.comes hfit', ?_⟩
  intro log log' d d' report report' hruns hreport hruns' hreport'
  exact (completed_of_runs hruns hfit h.newly hreport).alike
    (completed_of_runs hruns' hfit' h'.newly hreport')

/-- A store that declines so many first inserts with a conflict, and accepts whatever else comes. -/
def busy : Store Nat where
  name _ := "busy"
  call left _ request :=
    match left, request with
    | left + 1, .insert .. => some (.ok .conflict, left)
    | left, _ => some (.ok .accepted, left)
  rowCount left _ := (.ok 0, left)
  shut _ := .ok ()

theorem busy_call {left later : Nat} {place : Nat} {request : Request} {reply : Reply}
    (h : busy.call left seat request = some (reply, later)) :
    (∃ verdict, reply = .ok verdict) ∧
      later + (if (Event.call place request reply).isConflict then 1 else 0) = left := by
  cases left with
  | zero => cases request <;> cases h <;> exact ⟨⟨_, rfl⟩, rfl⟩
  | succ left => cases request <;> cases h <;> exact ⟨⟨_, rfl⟩, rfl⟩

theorem conflicts_busy {c d : Crew Nat} (h : Crew.Runs busy seat c log d) :
    d.store + log.countP Event.isConflict = c.store := by
  induction h with
  | done c => rfl
  | @act c d e place now event log first _ ih =>
    obtain ⟨w, hacted⟩ := Crew.acted_of_act first
    rw [List.countP_cons, ← Nat.add_assoc, ih]
    match event with
    | .call other request reply =>
      obtain rfl : other = place := hacted.turn
      exact (busy_call (hacted.answered rfl)).2
    | .readHalt .. | .raiseHalt _ | .readClock .. =>
      exact hacted.kept (fun _ he => nomatch he)

theorem undisturbed_busy {left : Nat} (hcounted : left < UInt64.size)
    (hpatient : ∀ most, post.workload.retry = .bounded most → left ≤ most.toNat) :
    Undisturbed busy seat post (new post) left where
  newly := .inl rfl
  answered {log d v request} _ _ _ := by
    cases hleft : d.store <;> cases request <;> exact ⟨_, _, rfl⟩
  counted hruns := by
    have hall : _ = left := conflicts_busy hruns
    omega
  patient {log d most before now} hruns hretry hcalls _ := by
    have hall : _ = left := conflicts_busy hruns
    have hmost := hpatient most hretry
    rw [← Crew.conflictsIn_exchanges, hcalls, Batch.conflictsIn_append] at hall
    omega

/-- A worker that meets two conflicts commits the same two batches as one that meets none. -/
theorem alike_busy :
    let post : Post := ⟨1, "t", ⟨8, 2, 2, .lazy, true, .bounded 2⟩, 7⟩
    let other : Post := { post with table := "u" }
    post.Fit ∧ Undisturbed busy 0 post (new post) 2 ∧ Undisturbed busy 5 other (new other) 0 ∧
      Crew.Comes busy 0 (fun c => ∃ report, c.Reported report) (.alone (new post) 2) ∧
      ∀ log log' d d' report report', Crew.Runs busy 0 (.alone (new post) 2) log d → d.Reported report →
        Crew.Runs busy 5 (.alone (new other) 0) log' d' → d'.Reported report' →
          Alike log log' report report' := by
  intro post other
  have hfit : post.Fit := ⟨by decide, by decide⟩
  have hmost (most : UInt64) (hretry : Retry.bounded 2 = .bounded most) : most.toNat = 2 := by
    cases hretry
    rfl
  have h : Undisturbed busy 0 post (new post) 2 :=
    undisturbed_busy (by decide) fun most hretry => (hmost most hretry).ge
  have h' : Undisturbed busy 5 other (new other) 0 := undisturbed_busy (by decide) fun _ _ => Nat.zero_le _
  obtain ⟨hcomes, _, halike⟩ := alike_of_undisturbed hfit h h'
  exact ⟨hfit, h, h', hcomes, halike⟩

end Worker

end InsertBench
