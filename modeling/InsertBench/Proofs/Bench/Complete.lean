import InsertBench.Proofs.Bench.Adding
import InsertBench.Proofs.Crew.Shortage

/-! # A run that reports success is complete

Whatever a store replies and in whichever order workers act, a run that returns a report has committed
every batch of every thread, and the report tells exactly what happened. In no run is commit called on
two transactions with a common key, and no two transactions are prepared under one name.
-/
namespace InsertBench

variable {σ : Type}

namespace Crew

structure AtPost (post : Nat → Post) (place : Nat) (log : List Event) (w : Worker) : Prop where
  post : w.post = post place
  onTrack : w.OnTrack
  told : Worker.Told log w

theorem atPost_keeps (post : Nat → Post) : EachKeeps (AtPost post) := by
  intro place log w event h _ hn
  have hm := Worker.moves_of_next hn
  exact ⟨by rw [hm.post, h.post], h.onTrack.moves hm, h.told.moves h.onTrack hm⟩

/-- The keys of each transaction on which a worker called commit, in that order. -/
def committedBy (log : List Event) (place : Nat) : List (List Int64) := (account (eventsOf log place)).commits

theorem Unstarted.idle {short : Shortage} {p : Post} {place : Nat} {log : List Event} {w : Worker}
    (h : Unstarted short p place log w) :
    (account log).commits = [] ∧ log.filterMap Event.prepared? = [] := by
  rcases h.log_cases with (rfl | ⟨reply, rfl⟩) | ⟨_, _, rfl, rfl | ⟨reply, rfl⟩⟩ <;> exact ⟨rfl, rfl⟩

end Crew

namespace Bench

open Crew (Event Manned Orderly Each AtPost eventsOf committedBy)

/-- What holds of a crew of a bench at any time, with all that happened so far. -/
structure Underway (b : Bench) (createdAt : Int64) (log : List Event) (d : Crew σ) : Prop where
  manned : Manned b.workload.crewSize log d
  orderly : Orderly log d
  each : Each (AtPost (b.post createdAt)) log d

variable {b : Bench} {createdAt : Int64} {store : Store σ} {base : Nat}
  {goes : Crew σ → List Event → Crew σ → Prop} {s : σ} {short : Option Crew.Shortage} {log : List Event}
  {d : Crew σ}

theorem Reaches.atPosts (hgoes : ∀ {c log d}, goes c log d → Crew.Follows c log d)
    (hw : b.workload.Accepted) (h : b.Reaches createdAt store base goes s short log d) :
    Each (Crew.Employed short (b.post createdAt) (AtPost (b.post createdAt))) log d :=
  h.employed (Crew.atPost_keeps _) hgoes fun _ _ hplace hnew =>
    ⟨hnew.post, hnew.onTrack (post_fit hw hplace), hnew.told (post_fit hw hplace)⟩

theorem Reaches.underway (hgoes : ∀ {c log d}, goes c log d → Crew.Follows c log d)
    (hw : b.workload.Accepted) (h : b.Reaches createdAt store base goes s none log d) :
    b.Underway createdAt log d := by
  refine ⟨h.manned hgoes, ?_, h.atPosts hgoes hw⟩
  obtain ⟨_, run⟩ := h
  exact (hgoes run).orderly rfl

theorem toNat_postId (createdAt : Int64) {place : Nat} (hp : place < b.workload.crewSize) :
    (b.post createdAt place).id.toNat = place :=
  Word.toNat_toUInt64 (hp.trans b.workload.threads.toNat_lt_size)

theorem Underway.worker (h : b.Underway createdAt log d) {place : Nat} (hp : place < b.workload.crewSize) :
    ∃ w, d.workers[place]? = some w ∧ AtPost (b.post createdAt) place (eventsOf log place) w := by
  have hlt : place < d.workers.length := by rwa [h.manned.length]
  exact ⟨_, List.getElem?_eq_getElem hlt, h.each place _ (List.getElem?_eq_getElem hlt)⟩

theorem Reaches.parts (hgoes : ∀ {c log d}, goes c log d → Crew.Follows c log d) (hw : b.workload.Accepted)
    (h : b.Reaches createdAt store base goes s short log d) {place : Nat} (hp : place < b.workload.crewSize) :
    ∃ commits ≤ b.workload.roundCount, ∃ prepares ≤ b.workload.roundCount,
      committedBy log place = (List.range commits).map (b.workload.batchKeys place) ∧
      (eventsOf log place).filterMap Event.prepared? =
        if b.workload.twoPhase then (List.range prepares).map (b.post createdAt place).batchName else [] := by
  have hlt : place < d.workers.length := by rwa [(h.manned hgoes).length]
  rcases (h.atPosts hgoes hw place _ (List.getElem?_eq_getElem hlt)).cases with ⟨hat, _⟩ | ⟨_, _, _, hidle⟩
  · obtain ⟨commits, hcommits, prepares, hprepares, _, htells⟩ := hat.told.part hat.onTrack
    rw [hat.post] at hcommits hprepares htells
    refine ⟨commits, hcommits, prepares, hprepares, ?_, htells.prepares⟩
    have hkeys := htells.commits
    rwa [toNat_postId createdAt hp] at hkeys
  · refine ⟨0, Nat.zero_le _, 0, Nat.zero_le _, hidle.idle.1, ?_⟩
    rw [hidle.idle.2]
    split <;> rfl

/-- No key is in two transactions on which commit was called, and no name was prepared twice. -/
structure Apart (b : Bench) (log : List Event) : Prop where
  acts {event : Event} : event ∈ log → event.worker < b.workload.crewSize
  keys : ((List.range b.workload.crewSize).flatMap fun place => (committedBy log place).flatten).Nodup
  names : (log.filterMap Event.prepared?).Nodup

theorem nodup_batchNames (hw : b.workload.Accepted) {prepares : Nat → Nat}
    (hle : ∀ place < b.workload.crewSize, prepares place ≤ b.workload.roundCount) :
    ((List.range b.workload.crewSize).flatMap fun place =>
      (List.range (prepares place)).map (b.post createdAt place).batchName).Nodup := by
  have hwidth := hw.sizes.1
  have hinj {place place' round round' : Nat} (hp : place < b.workload.crewSize)
      (hp' : place' < b.workload.crewSize) (hr : round < prepares place) (hr' : round' < prepares place')
      (he : (b.post createdAt place).batchName round = (b.post createdAt place').batchName round') :
      place = place' ∧ round = round' := by
    rw [Post.batchName, Post.batchName, toNat_postId createdAt hp, toNat_postId createdAt hp'] at he
    have hkeys := congrArg UInt64.toInt64 he
    rw [Int64.toInt64_toUInt64, Int64.toInt64_toUInt64] at hkeys
    obtain ⟨hplace, hround, _⟩ := Workload.keyAt_inj hw hp hp' (hr.trans_le (hle place hp))
      (hr'.trans_le (hle place' hp')) hwidth hwidth hkeys
    exact ⟨hplace, hround⟩
  apply nodup_flatMap_range
  · intro place hp
    apply nodup_map_range
    intro round hr round' hr' he
    exact (hinj hp hp hr hr' he).2
  · intro place hp place' hp' name hname hname'
    obtain ⟨round, hr, rfl⟩ := List.mem_map.mp hname
    obtain ⟨round', hr', he⟩ := List.mem_map.mp hname'
    rw [List.mem_range] at hr hr'
    exact (hinj hp' hp hr' hr he).1.symm

theorem Reaches.apart (hgoes : ∀ {c log d}, goes c log d → Crew.Follows c log d) (hw : b.workload.Accepted)
    (h : b.Reaches createdAt store base goes s short log d) : b.Apart log := by
  have hmanned := h.manned hgoes
  have hparts : ∀ place, ∃ commits prepares, place < b.workload.crewSize →
      commits ≤ b.workload.roundCount ∧ prepares ≤ b.workload.roundCount ∧
        committedBy log place = (List.range commits).map (b.workload.batchKeys place) ∧
        (eventsOf log place).filterMap Event.prepared? =
          if b.workload.twoPhase then (List.range prepares).map (b.post createdAt place).batchName
          else [] := by
    intro place
    by_cases hp : place < b.workload.crewSize
    · obtain ⟨commits, hc, prepares, hn, hkeys, hnames⟩ := h.parts hgoes hw hp
      exact ⟨commits, prepares, fun _ => ⟨hc, hn, hkeys, hnames⟩⟩
    · exact ⟨0, 0, fun hlt => absurd hlt hp⟩
  choose commits prepares hparts using hparts
  refine ⟨hmanned.acts, ?_, ?_⟩
  · have hkeys : ((List.range b.workload.crewSize).flatMap fun place => (committedBy log place).flatten) =
        b.workload.firstKeys commits := by
      apply List.flatMap_congr
      intro place hp
      rw [(hparts place (List.mem_range.mp hp)).2.2.1, List.flatMap_def]
    rw [hkeys]
    exact hw.nodup_firstKeys fun place hp => (hparts place hp).1
  · apply (hmanned.perm_eventsOf.filterMap Event.prepared?).nodup_iff.mp
    rw [List.filterMap_flatMap, List.flatMap_congr fun place hp =>
      (hparts place (List.mem_range.mp hp)).2.2.2]
    split
    · exact nodup_batchNames hw fun place hp => (hparts place hp).2.1
    · rw [List.flatMap_eq_nil_iff.mpr fun _ _ => rfl]
      exact List.nodup_nil

/-- The report is about all batches, each committed once and in order. -/
structure Complete (b : Bench) (log : List Event) (report : Report) : Prop where
  rows : b.workload.effectiveRows = .ok report.rows
  batches : ∃ rounds, b.workload.rounds = .ok rounds ∧
    report.batches.toNat = rounds.toNat * b.workload.threads.toNat
  samples : report.latency.total = report.batches ∧ report.latency.recorded = report.batches.toNat
  conflicts : report.conflicts.toNat = log.countP Event.isConflict
  commits : ∀ place < b.workload.crewSize,
    committedBy log place = (List.range b.workload.roundCount).map (b.workload.batchKeys place)
  partition : ((List.range b.workload.crewSize).flatMap fun place => (committedBy log place).flatten).Perm
    ((List.range report.rows.toNat).map Int64.ofNat)

theorem Underway.all_batches (h : b.Underway createdAt log d)
    (hwell : ∀ w ∈ d.workers, w.stage = .ended none) {place : Nat} {w : Worker}
    (hget : d.workers[place]? = some w) : w.tally.batches.toNat = b.workload.roundCount ∧
      Worker.Tells (eventsOf log place) (b.post createdAt place) b.workload.roundCount
        b.workload.roundCount w.tally.conflicts.toNat := by
  have hw := h.each place w hget
  have htold := hw.told
  rw [Worker.Told, hw.post, hwell w (List.mem_of_getElem? hget)] at htold
  obtain ⟨htells, hwhy⟩ := htold
  have hall : w.tally.batches.toNat = b.workload.roundCount := by
    rcases hwhy with hall | ⟨other, hmem⟩
    · exact hall
    · -- a flag that was seen up would have been raised by a worker that ended badly
      obtain ⟨place', v, why, hv, hstage⟩ :=
        h.orderly.raised (h.orderly.seen (List.mem_of_mem_filter hmem))
      rw [hwell v (List.mem_of_getElem? hv)] at hstage
      cases hstage
  rw [hall] at htells
  exact ⟨hall, htells⟩

section AllWell

variable (hw : b.workload.Accepted) (h : b.Underway createdAt log d)
  (hwell : ∀ w ∈ d.workers, w.stage = .ended none)

include h hwell

theorem Underway.member {w : Worker} (hmem : w ∈ d.workers) : w.OnTrack ∧ w.post.workload = b.workload ∧
    w.tally.batches.toNat = b.workload.roundCount := by
  obtain ⟨place, hget⟩ := List.mem_iff_getElem?.mp hmem
  have hat := h.each place w hget
  exact ⟨hat.onTrack, by rw [hat.post]; rfl, (h.all_batches hwell hget).1⟩

theorem Underway.total_rows :
    Word.total ((d.workers.map Worker.tally).map Tally.rows) = b.workload.rowTotal := by
  rw [List.map_map, Word.total_const (n := b.workload.roundCount * b.workload.width), List.length_map,
    h.manned.length, Workload.rowTotal, Nat.mul_right_comm, Nat.mul_comm b.workload.crewSize]
  intro rows hrows
  obtain ⟨w, hmem, rfl⟩ := List.mem_map.mp hrows
  obtain ⟨hon, hload, hbatches⟩ := h.member hwell hmem
  rw [Function.comp_apply, hon.rows, hbatches, hload]

theorem Underway.total_batches : Word.total ((d.workers.map Worker.tally).map Tally.batches) =
    b.workload.roundCount * b.workload.crewSize := by
  rw [List.map_map, Word.total_const (n := b.workload.roundCount), List.length_map, h.manned.length,
    Nat.mul_comm]
  intro batches hbatches
  obtain ⟨w, hmem, rfl⟩ := List.mem_map.mp hbatches
  exact (h.member hwell hmem).2.2

theorem Underway.total_conflicts :
    Word.total ((d.workers.map Worker.tally).map Tally.conflicts) = log.countP Event.isConflict := by
  rw [← h.manned.perm_eventsOf.countP_eq, List.countP_flatMap, List.map_map, Word.total_eq_sum, List.map_map]
  refine congrArg List.sum (List.ext_getElem? fun place => ?_)
  rw [List.getElem?_map, List.getElem?_map]
  cases hget : d.workers[place]? with
  | none =>
    have hout : b.workload.crewSize ≤ place := by
      rw [← h.manned.length]
      exact List.getElem?_eq_none_iff.mp hget
    rw [List.getElem?_eq_none (by simpa using hout)]
    rfl
  | some w =>
    have hp : place < b.workload.crewSize := by
      rw [← h.manned.length]
      exact (List.getElem?_eq_some_iff.mp hget).1
    rw [List.getElem?_range hp, Option.map_some, Option.map_some]
    exact congrArg some (h.all_batches hwell hget).2.conflicts.symm

theorem Underway.total_samples :
    ((d.workers.map Worker.tally).map Tally.latency).map Histogram.total =
      (d.workers.map Worker.tally).map Tally.batches := by
  rw [List.map_map, List.map_map, List.map_map]
  exact List.map_congr_left fun w hmem => (h.member hwell hmem).1.samples

include hw

theorem Underway.merged {latency : Histogram}
    (hlatency : latency = ((d.workers.map Worker.tally).map Tally.latency).foldl .merge .empty) :
    latency.Faithful ∧ latency.total.toNat = b.workload.roundCount * b.workload.crewSize := by
  have hmost := hw.rowTotal_lt
  have hsize : UInt64.size = 2 ^ 64 := rfl
  have hfew : b.workload.roundCount * b.workload.crewSize ≤ b.workload.rowTotal :=
    Nat.le_mul_of_pos_right _ hw.sizes.1
  have hzero : Histogram.empty.total.toNat = 0 := rfl
  have hsum := congrArg Word.total (h.total_samples hwell)
  rw [h.total_batches hwell] at hsum
  have hfaithful : ∀ other ∈ (d.workers.map Worker.tally).map Tally.latency, other.Faithful := by
    intro other hother
    rw [List.map_map] at hother
    obtain ⟨w, hmem, rfl⟩ := List.mem_map.mp hother
    exact (h.member hwell hmem).1.faithful
  obtain ⟨hf, htotal⟩ := merge_all Histogram.faithful_empty hfaithful (by omega)
  rw [hlatency]
  exact ⟨hf, by omega⟩

end AllWell

theorem Underway.complete (hw : b.workload.Accepted) (h : b.Underway createdAt log d)
    (hended : ∀ w ∈ d.workers, w.next = none) {name : String} {elapsed : Elapsed} {report : Report}
    (hcollect : collect (b.blank name elapsed) (d.workers.filterMap outcome?) = .ok report) :
    b.Complete log report := by
  obtain ⟨tallies, houtcomes, hsums⟩ := collect_eq_ok hcollect
  obtain ⟨hwell, rfl⟩ := outcomes_ok hended houtcomes
  have hrows : report.rows.toNat = b.workload.rowTotal := by
    rw [hsums.rows, h.total_rows hwell]
    exact Nat.zero_add _
  have hbatches : report.batches.toNat = b.workload.roundCount * b.workload.crewSize := by
    rw [hsums.batches, h.total_batches hwell]
    exact Nat.zero_add _
  have hconflicts : report.conflicts.toNat = log.countP Event.isConflict := by
    rw [hsums.conflicts, h.total_conflicts hwell]
    exact Nat.zero_add _
  obtain ⟨hfaithful, hsamples⟩ := h.merged hw hwell hsums.latency
  rw [← hbatches] at hsamples
  have hcommits : ∀ place < b.workload.crewSize,
      committedBy log place = (List.range b.workload.roundCount).map (b.workload.batchKeys place) := by
    intro place hp
    obtain ⟨w, hget, _⟩ := h.worker hp
    have hkeys := (h.all_batches hwell hget).2.commits
    rwa [toNat_postId createdAt hp] at hkeys
  refine ⟨?_, ⟨_, hw.rounds_eq, ?_⟩, ⟨UInt64.toNat_inj.mp hsamples, ?_⟩, hconflicts, hcommits, ?_⟩
  · rw [hw.effectiveRows_eq, ← hrows, Word.toUInt64_toNat]
  · rw [hbatches, Word.toNat_toUInt64 b.workload.roundCount_lt]
    rfl
  · rw [hfaithful, hsamples]
  · rw [hrows]
    refine (List.Perm.of_eq (List.flatMap_congr fun place hp => ?_)).trans hw.perm_firstKeys
    rw [hcommits place (List.mem_range.mp hp), List.flatMap_def]

theorem conclude_eq_ok {elapsed : Elapsed} {workers : List Worker} {s t : σ} {report : Report}
    (h : b.conclude store elapsed workers s = (.ok report, t)) :
    collect (b.blank (store.name s) elapsed) (workers.filterMap outcome?) = .ok report := by
  unfold conclude at h
  split at h
  · cases h
  · rename_i hcollect
    rw [hcollect]
    unfold check at h
    split at h
    · split at h
      · cases h
      · split at h <;> cases h
        rfl
    · cases h
      rfl

/-- On any store and under any schedule, no key is committed twice, and a report that is returned is
about a complete run. -/
theorem complete_of_returns_ok (hw : b.workload.Accepted) :
    (∀ short log d, b.Reaches createdAt store base (Crew.Runs store base) s short log d → b.Apart log) ∧
      ∀ short log result t, b.Returns createdAt store base (Crew.Runs store base) s short log result t →
        b.Apart log ∧ ∀ report, result = .ok report → b.Complete log report := by
  refine ⟨fun short log d h => h.apart Crew.Runs.follows hw, ?_⟩
  intro short log result t h
  cases h with
  | unmanned _ =>
    have hnone : ((List.range b.workload.crewSize).flatMap fun place =>
        (committedBy [] place).flatten) = [] := List.flatMap_eq_nil_iff.mpr fun _ _ => rfl
    exact ⟨⟨by simp, by rw [hnone]; exact List.nodup_nil, List.nodup_nil⟩, fun _ he => by cases he⟩
  | manned run ended concluded =>
    refine ⟨run.apart Crew.Runs.follows hw, ?_⟩
    intro report he
    subst he
    exact (run.underway Crew.Runs.follows hw).complete hw ended (conclude_eq_ok concluded)
  | brokenOff _ run _ => exact ⟨run.apart Crew.Runs.follows hw, fun _ he => by cases he⟩

/-- A store that declines the first insert with a conflict, and accepts whatever comes then. -/
def shy : Store Bool where
  name _ := "shy"
  call warm _ request :=
    match warm, request with
    | false, .insert .. => some (.ok .conflict, true)
    | warm, _ => some (.ok .accepted, warm)
  rowCount warm _ := (.ok 0, warm)
  shut _ := .ok ()

/-- Two workers with a batch of two rows each, which is prepared before it is committed and redone at most
once. -/
def twoRows : Bench := ⟨⟨4, 2, 2, .lazy, true, .bounded 1⟩, "t", false⟩

/-- The workers act in turns. The first one meets a conflict, and redoes its batch while the second one
prepares and commits. -/
theorem complete_shy : ∃ (log : List Event) (report : Report), report.rows = 4 ∧ report.conflicts = 1 ∧
    twoRows.Returns 0 shy 0 (Crew.Runs shy 0) false none log (.ok report) true ∧
      twoRows.Apart log ∧ twoRows.Complete log report := by
  have hw : twoRows.workload.Accepted := by decide
  have hruns : Crew.Runs shy 0 ⟨false, false, [.new (twoRows.post 0 0), .new (twoRows.post 0 1)]⟩ _
      ⟨true, false, [⟨twoRows.post 0 0, ⟨0, 2, 1, 1, _⟩, .ended none, _⟩,
        ⟨twoRows.post 0 1, ⟨1, 2, 1, 0, _⟩, .ended none, _⟩]⟩ :=
    .turn 0 rfl <| .turn 1 rfl <| .turn 0 rfl <| .turn 1 rfl <| .turn 0 rfl <| .turn 1 rfl <|
      .turn 0 rfl <| .turn 1 rfl <| .turn 0 rfl <| .turn 1 rfl <| .turn 0 rfl <| .turn 1 rfl <|
      .turn 0 rfl <| .turn 1 rfl <| .turn 0 rfl <| .turn 1 rfl <| .turn 0 rfl <| .turn 1 rfl <|
      .turn 0 rfl <| .turn 1 rfl <| .turn 0 rfl <| .turn 0 rfl <| .turn 0 rfl <| .done _
  have hreturns : twoRows.Returns 0 shy 0 (Crew.Runs shy 0) false none _ (.ok _) true :=
    @Returns.manned _ _ _ _ _ _ _ _ _ ⟨0, 0⟩ _ _ (.hired rfl hruns) (by simp [Worker.next]) rfl
  have h := (complete_of_returns_ok hw).2 _ _ _ _ hreturns
  exact ⟨_, _, rfl, rfl, hreturns, h.1, h.2 _ rfl⟩

end Bench

end InsertBench
