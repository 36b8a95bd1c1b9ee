import InsertBench.Proofs.Batch.Transcript

/-! # How often a batch is tried

Whatever is replied to it, a batch makes attempts that were each rolled back on a conflict, and one last
attempt. How it ends is read off the number of the first ones and off the last one. No plan is left out:
one whose keys overflow lets go of its transaction in its last attempt.
-/
namespace InsertBench

/-- What a batch says it was doing when a call failed. Nobody hears of a failed drop. -/
def Request.activity : Request → Option Activity
  | .beginTxn => some .beginTxn
  | .insert key _ => some (.insertKey key)
  | .abort => some .abortTxn
  | .prepare _ => some .prepareTxn
  | .commit => some .commitTxn
  | _ => none

namespace Batch

def beginCalls (log : List Exchange) : Nat := (log.map Prod.fst).count .beginTxn

def Short (p : Plan) (attempt : List Exchange) : Prop :=
  beginCalls attempt ≤ 1 ∧ attempt.length ≤ p.workload.width + 3

def AllBackedOut (p : Plan) (attempts : List (List Exchange)) : Prop :=
  ∀ attempt ∈ attempts, ∃ key, BackedOut p key attempt

/-- An attempt that inserts all rows of its batch and commits them. -/
inductive Commits (p : Plan) : List Exchange → Prop
  | mk {begun verdict : Verdict} {prepared : List Exchange} (ready : Prepared p prepared) :
      Commits p (inserting begun p.rows ++ prepared ++ [(.commit, .ok verdict)])

def GivesUp (p : Plan) (total : Nat) (key : Int64) (result : Except Stop UInt64) : Prop :=
  ∃ conflicts : UInt64, conflicts.toNat = total ∧
    result = .error (.failed (.gaveUp p.thread p.round conflicts key)) ∧
    (Failure.gaveUp p.thread p.round conflicts key).message =
      s!"thread {p.thread} iteration {p.round}: gave up after {total} conflicts (last on key {key})"

/-- How a batch of this plan is tried again, and how it ends. -/
structure Persists (p : Plan) : Prop where
  attempts {log : List Exchange} {progress : Progress} : Runs p .start log progress →
    ∃ redone last, AllBackedOut p redone ∧ Short p last ∧ log = redone.flatten ++ last
  begins {log : List Exchange} {progress : Progress} {most : UInt64} : Runs p .start log progress →
    p.workload.retry = .bounded most → beginCalls log ≤ most.toNat + 1
  committed {log : List Exchange} {result : Except Stop UInt64} (count : UInt64) :
    Runs p .start log (.over result) →
      (result = .ok count ↔ (∀ most, p.workload.retry = .bounded most → count ≤ most) ∧
        ∃ redone last, redone.length = count.toNat ∧ AllBackedOut p redone ∧ Commits p last ∧
          log = redone.flatten ++ last)
  gaveUp {log : List Exchange} {result : Except Stop UInt64} {most : UInt64} (key : Int64) :
    Runs p .start log (.over result) → p.workload.retry = .bounded most → most.toNat + 1 < UInt64.size →
      (GivesUp p (most.toNat + 1) key result ↔
        ∃ redone last, redone.length = most.toNat ∧ AllBackedOut p redone ∧ BackedOut p key last ∧
          log = redone.flatten ++ last)
  patient {log : List Exchange} {thread round conflicts : UInt64} {key : Int64} :
    Runs p .start log (.over (.error (.failed (.gaveUp thread round conflicts key)))) →
      thread = p.thread ∧ round = p.round ∧
        ∃ most, p.workload.retry = .bounded most ∧ conflicts.toNat = most.toNat + 1
  final {log : List Exchange} {progress : Progress} {redone : List (List Exchange)} {last : List Exchange} :
    Runs p .start log progress → AllBackedOut p redone → redone.flatten ++ last <+: log →
      (Commits p last ∨
        ∃ key most, BackedOut p key last ∧ p.workload.retry = .bounded most ∧ redone.length = most.toNat) →
      log = redone.flatten ++ last ∧ ∃ result, progress = .over result
  failed {log : List Exchange} {result : Except Stop UInt64} {request : Request} {stop : Stop} :
    Runs p .start log (.over result) → (request, .error stop) ∈ log → request ≠ .dropTxn →
      (∃ activity, request.activity = some activity ∧ result = .error (stop.during activity)) ∧
        ∃ before after, log = before ++ (request, .error stop) :: after ∧
          (after = [] ∨ ∃ dropped, after = [(.dropTxn, dropped)])
  returns {σ : Type} {store : Store σ} {seat : Nat} {buffer : Bytes} {s : σ} :
    (∀ {log b t}, store.Serves seat s log t → Runs p .start log (.more b) →
      store.call t seat (b.next p) ≠ none) →
    ∃ result kept t log, run store seat p buffer .start s = some (result, kept, t) ∧
      store.Serves seat s log t ∧ Runs p .start log (.over result)

variable {p : Plan} {log more attempt : List Exchange} {attempts : List (List Exchange)} {progress : Progress}
  {result : Except Stop UInt64} {conflicts : UInt64} {key : Int64} {verdict : Verdict}

theorem beginCalls_append (log more : List Exchange) :
    beginCalls (log ++ more) = beginCalls log + beginCalls more := by
  rw [beginCalls, List.map_append, List.count_append]
  rfl

theorem beginCalls_inserting (begun : Verdict) (rows : List (Int64 × Bytes)) :
    beginCalls (inserting begun rows) = 1 := by
  rw [beginCalls, map_fst_inserting, List.count_cons_self, List.count_eq_zero.mpr (by simp)]

theorem length_inserting (begun : Verdict) (rows : List (Int64 × Bytes)) :
    (inserting begun rows).length = rows.length + 1 := by simp [inserting]

theorem BackedOut.beginCalls_eq (h : BackedOut p key attempt) : beginCalls attempt = 1 := by
  cases h with
  | mk here =>
    rw [beginCalls_append, beginCalls_inserting]
    rfl

theorem AllBackedOut.counts (h : AllBackedOut p attempts) :
    beginCalls attempts.flatten = attempts.length ∧ conflictsIn attempts.flatten = attempts.length := by
  induction attempts with
  | nil => exact ⟨rfl, rfl⟩
  | cons attempt attempts ih =>
    obtain ⟨key, hback⟩ := h attempt List.mem_cons_self
    obtain ⟨hbegins, hconflicts⟩ := ih fun later hmem => h later (List.mem_cons_of_mem _ hmem)
    rw [List.flatten_cons, beginCalls_append, conflictsIn_append, hback.beginCalls_eq, hback.tells.1, hbegins,
      hconflicts, List.length_cons, Nat.add_comm]
    exact ⟨rfl, rfl⟩

theorem Redone.split (h : Redone p log conflicts) :
    (∃ attempts, attempts.length = conflicts.toNat ∧ AllBackedOut p attempts ∧ log = attempts.flatten) ∧
      ∀ most, p.workload.retry = .bounded most → conflicts ≤ most := by
  induction h with
  | none => exact ⟨⟨[], rfl, by simp [AllBackedOut], rfl⟩, fun _ _ => UInt64.zero_le⟩
  | @again log attempt key conflicts total before backedOut count allowed ih =>
    obtain ⟨⟨attempts, hlength, hall, rfl⟩, _⟩ := ih
    constructor
    · refine ⟨attempts ++ [attempt], by simp [hlength, count], ?_, by simp⟩
      intro a hmem
      rcases List.mem_append.mp hmem with hmem | hmem
      · exact hall a hmem
      · obtain rfl := List.mem_singleton.mp hmem
        exact ⟨key, backedOut⟩
    · intro most hbounded
      simpa [hbounded, Retry.allows] using allowed

theorem short_inserting (begun : Verdict) {rows : List (Int64 × Bytes)} {rest : List Exchange}
    (hrows : rows.length ≤ p.workload.width) (hrest : rest.length ≤ 2) (hnone : beginCalls rest = 0) :
    Short p (inserting begun rows ++ rest) := by
  refine ⟨by rw [beginCalls_append, beginCalls_inserting, hnone], ?_⟩
  rw [List.length_append, length_inserting]
  omega

theorem length_take_rows (p : Plan) (offset : Nat) : (p.rows.take offset).length ≤ p.workload.width := by
  rw [List.length_take, Plan.length_rows]
  exact Nat.min_le_right _ _

theorem Ongoing.short {phase : Phase} (h : Ongoing p phase attempt) : Short p attempt := by
  have hall := (Plan.length_rows (p := p)).le
  cases h with
  | starting => exact ⟨Nat.zero_le _, Nat.zero_le _⟩
  | writing here =>
    rw [← List.append_nil (inserting _ _)]
    exact short_inserting _ (length_take_rows _ _) (by simp) rfl
  | preparing two =>
    rw [← List.append_nil (inserting _ _)]
    exact short_inserting _ hall (by simp) rfl
  | backingOut here | insertFailed here => exact short_inserting _ (length_take_rows _ _) (by simp) rfl
  | prepareFailed two => exact short_inserting _ hall (by simp) rfl
  | committing ready => cases ready <;> exact short_inserting _ hall (by simp) rfl

theorem BackedOut.short (h : BackedOut p key attempt) : Short p attempt := by
  cases h with
  | mk here => exact short_inserting _ (length_take_rows _ _) (by simp) rfl

theorem Last.short (h : Last p conflicts attempt result) : Short p attempt := by
  have hall := (Plan.length_rows (p := p)).le
  cases h with
  | beginFailed => exact ⟨Nat.le_refl _, Nat.le_add_left _ _⟩
  | insertFailed here | abortFailed here => exact short_inserting _ (length_take_rows _ _) (by simp) rfl
  | gaveUp backedOut _ _ | uncounted backedOut _ => exact backedOut.short
  | prepareFailed two => exact short_inserting _ hall (by simp) rfl
  | commitFailed ready | committed ready =>
    rw [List.append_assoc]
    cases ready <;> exact short_inserting _ hall (by simp) rfl

/-- The calls of a batch are redone attempts and one more, however far it has come. -/
theorem Runs.splits (hr : Runs p .start log progress) :
    ∃ redone conflicts last, Redone p redone conflicts ∧ log = redone ++ last ∧ Short p last := by
  rcases hr.stands_or_wrecked with hstands | hwrecked
  · rcases progress with b | result
    · obtain ⟨redone, attempt, hredone, hongoing, rfl⟩ := hstands
      exact ⟨_, _, _, hredone, rfl, hongoing.short⟩
    · obtain ⟨redone, conflicts, last, hredone, hlast, rfl⟩ := hstands
      exact ⟨_, _, _, hredone, rfl, hlast.short⟩
  · cases hwrecked with
    | holding before spoilt =>
      cases spoilt with
      | mk unkeyed =>
        refine ⟨_, _, _, before, rfl, ?_⟩
        rw [← List.append_nil (inserting _ _)]
        exact short_inserting _ (length_take_rows _ _) (by simp) rfl
    | dropped before spoilt reply =>
      cases spoilt with
      | mk unkeyed => exact ⟨_, _, _, before, rfl, short_inserting _ (length_take_rows _ _) (by simp) rfl⟩

def Unfailing (log : List Exchange) : Prop := ∀ request stop, (request, .error stop) ∉ log

def FailsLast (log : List Exchange) (request : Request) (stop : Stop) : Prop :=
  ∃ before after, Unfailing before ∧ log = before ++ (request, .error stop) :: after ∧
    (after = [] ∨ ∃ dropped, after = [(.dropTxn, dropped)])

theorem Unfailing.append (h : Unfailing log) (k : Unfailing more) : Unfailing (log ++ more) := by
  intro request stop hmem
  exact (List.mem_append.mp hmem).elim (h request stop) (k request stop)

theorem unfailing_inserting (begun : Verdict) (rows : List (Int64 × Bytes)) :
    Unfailing (inserting begun rows) := by
  simp [Unfailing, inserting]

theorem Prepared.unfailing (h : Prepared p log) : Unfailing log := by
  cases h <;> simp [Unfailing]

theorem BackedOut.unfailing (h : BackedOut p key attempt) : Unfailing attempt := by
  cases h with
  | mk here => exact (unfailing_inserting _ _).append (by simp [Unfailing])

theorem Redone.unfailing (h : Redone p log conflicts) : Unfailing log := by
  induction h with
  | none => simp [Unfailing]
  | again _ backedOut _ _ ih => exact ih.append backedOut.unfailing

theorem FailsLast.unique {request first : Request} {stop cause : Stop} (h : FailsLast log first cause)
    (hmem : (request, .error stop) ∈ log) (hdrop : request ≠ .dropTxn) : request = first ∧ stop = cause := by
  obtain ⟨before, after, hbefore, rfl, hafter⟩ := h
  rcases List.mem_append.mp hmem with hmem | hmem
  · exact (hbefore _ _ hmem).elim
  rcases List.mem_cons.mp hmem with heq | hmem
  · cases heq
    exact ⟨rfl, rfl⟩
  · rcases hafter with rfl | ⟨dropped, rfl⟩
    · cases hmem
    · cases List.mem_singleton.mp hmem
      exact (hdrop rfl).elim

theorem Last.failing (h : Last p conflicts attempt result) : Unfailing attempt ∨
    ∃ request stop activity, FailsLast attempt request stop ∧ request.activity = some activity ∧
      result = .error (stop.during activity) := by
  cases h with
  | gaveUp backedOut _ _ | uncounted backedOut _ => exact .inl backedOut.unfailing
  | committed ready =>
    exact .inl (((unfailing_inserting _ _).append ready.unfailing).append (by simp [Unfailing]))
  | beginFailed => exact .inr ⟨_, _, _, ⟨[], [], by simp [Unfailing], rfl, .inl rfl⟩, rfl, rfl⟩
  | insertFailed _ | prepareFailed _ =>
    exact .inr ⟨_, _, _, ⟨_, _, unfailing_inserting _ _, rfl, .inr ⟨_, rfl⟩⟩, rfl, rfl⟩
  | @abortFailed offset row begun stop here =>
    refine .inr ⟨.abort, stop, .abortTxn, ⟨_, [], ?_, List.append_cons .., .inl rfl⟩, rfl, rfl⟩
    exact (unfailing_inserting _ _).append (by simp [Unfailing])
  | commitFailed ready =>
    exact .inr ⟨_, _, _, ⟨_, _, (unfailing_inserting _ _).append ready.unfailing, rfl, .inl rfl⟩, rfl, rfl⟩

theorem Last.ne_nil (h : Last p conflicts attempt result) : attempt ≠ [] := by
  cases h with
  | gaveUp backedOut _ _ | uncounted backedOut _ => cases backedOut with | mk here => simp
  | beginFailed => simp
  | insertFailed _ | abortFailed _ | prepareFailed _ | commitFailed _ | committed _ => simp

theorem Last.commits (h : Last p conflicts attempt result)
    (hlast : attempt.getLast? = some (.commit, .ok verdict)) : result = .ok conflicts := by
  cases h with
  | committed ready => rfl
  | gaveUp backedOut _ _ | uncounted backedOut _ => cases backedOut with | mk here => simp at hlast
  | beginFailed => simp at hlast
  | insertFailed _ | abortFailed _ | prepareFailed _ | commitFailed _ => simp at hlast

/-- The last attempt of a batch is one too many if its last call rolls it back. -/
theorem Last.backsOut (h : Last p conflicts attempt result)
    (hlast : attempt.getLast? = some (.abort, .ok verdict)) :
    ∃ key, BackedOut p key attempt ∧ (conflicts.toNat + 1 = UInt64.size ∨
      ∃ total : UInt64, total.toNat = conflicts.toNat + 1 ∧
        result = .error (.failed (.gaveUp p.thread p.round total key))) := by
  cases h with
  | gaveUp backedOut count refused => exact ⟨_, backedOut, .inr ⟨_, count, rfl⟩⟩
  | uncounted backedOut full => exact ⟨_, backedOut, .inl full⟩
  | beginFailed => simp at hlast
  | insertFailed _ | abortFailed _ | prepareFailed _ | commitFailed _ | committed _ => simp at hlast

/-- How a batch ended shows in its last call. -/
theorem Runs.last_of_getLast {request : Request} (hr : Runs p .start log (.over result))
    (hlast : log.getLast? = some (request, .ok verdict)) (hdrop : request ≠ .dropTxn) :
    ∃ redone conflicts last, Redone p redone conflicts ∧ Last p conflicts last result ∧ log = redone ++ last ∧
      last.getLast? = some (request, .ok verdict) := by
  rcases hr.stands_or_wrecked with ⟨redone, conflicts, last, hredone, hends, rfl⟩ | hwrecked
  · rw [List.getLast?_append_of_ne_nil _ hends.ne_nil] at hlast
    exact ⟨_, _, _, hredone, hends, rfl, hlast⟩
  · cases hwrecked with
    | dropped before spoilt reply =>
      simp only [← List.append_assoc, List.getLast?_concat, Option.some.injEq, Prod.mk.injEq] at hlast
      exact (hdrop hlast.1.symm).elim

theorem Last.gaveUp_cases {thread round total : UInt64} (h : Last p conflicts attempt result)
    (hresult : result = .error (.failed (.gaveUp thread round total key))) :
    (thread = p.thread ∧ round = p.round) ∧ BackedOut p key attempt ∧ total.toNat = conflicts.toNat + 1 ∧
      p.workload.retry.allows total = false := by
  have hduring (stop : Stop) (activity : Activity) :
      (.error (stop.during activity) : Except Stop UInt64) ≠
        .error (.failed (.gaveUp thread round total key)) := by
    cases stop <;> simp [Stop.during]
  cases h with
  | gaveUp backedOut count refused =>
    cases hresult
    exact ⟨⟨rfl, rfl⟩, backedOut, count, refused⟩
  | uncounted _ _ | committed _ => cases hresult
  | beginFailed => exact (hduring _ _ hresult).elim
  | insertFailed _ | abortFailed _ | prepareFailed _ | commitFailed _ => exact (hduring _ _ hresult).elim

/-- A batch gives up with the first conflict that its policy does not allow. -/
theorem Runs.gaveUp_cases {thread round total : UInt64}
    (hr : Runs p .start log (.over (.error (.failed (.gaveUp thread round total key))))) :
    (thread = p.thread ∧ round = p.round) ∧ ∃ redone last most, p.workload.retry = .bounded most ∧
      total.toNat = most.toNat + 1 ∧ redone.length = most.toNat ∧ AllBackedOut p redone ∧
      BackedOut p key last ∧ log = redone.flatten ++ last := by
  rcases hr.stands_or_wrecked with ⟨redone, conflicts, last, hredone, hends, rfl⟩ | hwrecked
  · obtain ⟨hplace, hback, hcount, hrefused⟩ := hends.gaveUp_cases rfl
    obtain ⟨⟨attempts, hlength, hall, rfl⟩, hallowed⟩ := hredone.split
    refine ⟨hplace, attempts, last, ?_⟩
    cases hretry : p.workload.retry with
    | unbounded => simp [hretry, Retry.allows] at hrefused
    | bounded most =>
      have hle := UInt64.le_iff_toNat_le.mp (hallowed most hretry)
      simp only [hretry, Retry.allows, decide_eq_false_iff_not, UInt64.le_iff_toNat_le] at hrefused
      exact ⟨most, rfl, by omega, by omega, hall, hback, rfl⟩
  · cases hwrecked

theorem Commits.getLast?_eq (h : Commits p attempt) (log : List Exchange) :
    ∃ verdict, (log ++ attempt).getLast? = some (.commit, .ok verdict) := by
  cases h with
  | @mk _ verdict _ ready => exact ⟨verdict, by simp⟩

theorem BackedOut.getLast?_eq (h : BackedOut p key attempt) (log : List Exchange) :
    ∃ verdict, (log ++ attempt).getLast? = some (.abort, .ok verdict) := by
  cases h with
  | @mk _ _ _ aborted here => exact ⟨aborted, by simp⟩

theorem Commits.conflictsIn_eq (h : Commits p attempt) : conflictsIn attempt = 0 := by
  cases h with
  | mk ready =>
    rw [conflictsIn_append, conflictsIn_append, conflictsIn_inserting]
    cases ready <;> rfl

theorem BackedOut.key_eq {last : List Exchange} {refused : Int64} (h : BackedOut p key attempt)
    (k : BackedOut p refused last) (heq : log ++ attempt = more ++ last) : key = refused := by
  cases h with
  | mk here =>
    cases k with
    | mk there =>
      rw [← List.append_assoc, ← List.append_assoc] at heq
      have hends := List.append_inj_right' heq rfl
      simp only [List.cons.injEq, Prod.mk.injEq, Request.insert.injEq] at hends
      exact hends.1.1.1

theorem Runs.committed_iff (hr : Runs p .start log (.over result)) (count : UInt64) :
    result = .ok count ↔ (∀ most, p.workload.retry = .bounded most → count ≤ most) ∧
      ∃ redone last, redone.length = count.toNat ∧ AllBackedOut p redone ∧ Commits p last ∧
        log = redone.flatten ++ last := by
  constructor
  · rintro rfl
    rcases hr.stands_or_wrecked with ⟨redone, conflicts, last, hredone, hends, rfl⟩ | hwrecked
    · obtain ⟨⟨attempts, hlength, hall, rfl⟩, hallowed⟩ := hredone.split
      cases hends with
      | committed ready => exact ⟨hallowed, attempts, _, hlength, hall, .mk ready, rfl⟩
    · cases hwrecked
  · rintro ⟨_, redone, last, hlength, hall, hcommits, rfl⟩
    have hcount : conflictsIn (redone.flatten ++ last) = count.toNat := by
      rw [conflictsIn_append, hall.counts.2, hcommits.conflictsIn_eq, hlength, Nat.add_zero]
    obtain ⟨verdict, hverdict⟩ := hcommits.getLast?_eq redone.flatten
    obtain ⟨before, conflicts, _, hredone, hends, heq, hlast⟩ := hr.last_of_getLast hverdict nofun
    obtain rfl := hends.commits hlast
    have hsaid : Says p _ (.ok conflicts) := ⟨before, conflicts, _, hredone, hends, heq⟩
    rw [hsaid.tells.1] at hcount
    rw [UInt64.toNat_inj.mp hcount]

theorem Runs.gaveUp_iff (hr : Runs p .start log (.over result)) {count : Nat}
    (hcount : count + 1 < UInt64.size) (key : Int64) :
    GivesUp p (count + 1) key result ↔
      ∃ redone last, redone.length = count ∧ AllBackedOut p redone ∧ BackedOut p key last ∧
        log = redone.flatten ++ last := by
  constructor
  · rintro ⟨conflicts, hconflicts, rfl, _⟩
    obtain ⟨_, redone, last, _, _, htotal, hlength, hall, hback, hlog⟩ := hr.gaveUp_cases
    exact ⟨redone, last, by omega, hall, hback, hlog⟩
  · rintro ⟨redone, last, hlength, hall, hback, rfl⟩
    obtain ⟨verdict, hverdict⟩ := hback.getLast?_eq redone.flatten
    obtain ⟨before, conflicts, ending, hredone, hends, heq, hlast⟩ := hr.last_of_getLast hverdict nofun
    obtain ⟨refused, hrefused, hresult⟩ := hends.backsOut hlast
    obtain rfl := hback.key_eq hrefused heq
    have hmet := congrArg conflictsIn heq
    rw [conflictsIn_append, hall.counts.2, hback.tells.1, hlength, conflictsIn_append, hredone.tells.1,
      hrefused.tells.1] at hmet
    rcases hresult with hfull | ⟨total, htotal, hresult⟩
    · omega
    · exact ⟨total, by omega, hresult, by rw [hmet, ← htotal]; rfl⟩

/-- The calls up to some point of a run are a run, and the batch is not over there if more follow. -/
theorem Runs.front {b : Batch} (hr : Runs p b log progress) {front rest : List Exchange}
    (heq : log = front ++ rest) : rest = [] ∨ ∃ c, Runs p b front (.more c) := by
  induction hr generalizing rest with
  | start => exact .inl (List.append_eq_nil_iff.mp heq.symm).2
  | @call log c before reply ih =>
    rcases List.eq_nil_or_concat rest with hnil | ⟨rest, last, rfl⟩
    · exact .inl hnil
    · rw [List.concat_eq_append, ← List.append_assoc] at heq
      have hlog := List.append_inj_left' heq rfl
      rcases ih hlog with rfl | hmore
      · rw [List.append_nil] at hlog
        exact .inr ⟨c, hlog ▸ before⟩
      · exact .inr hmore

def EndsTxn (request : Request) : Prop := request = .commit ∨ request = .abort

theorem ends_inserting (begun : Verdict) (rows : List (Int64 × Bytes)) :
    ∀ exchange ∈ inserting begun rows, ¬ EndsTxn exchange.1 := by
  intro exchange hmem
  rcases List.mem_cons.mp hmem with rfl | hmem
  · simp [EndsTxn]
  · obtain ⟨row, _, rfl⟩ := List.mem_map.mp hmem
    simp [EndsTxn]

theorem Runs.ongoing {b : Batch} (hr : Runs p .start log (.more b)) :
    ∃ redone conflicts attempt, Redone p redone conflicts ∧ log = redone ++ attempt ∧
      ∀ exchange ∈ attempt, ¬ EndsTxn exchange.1 := by
  have happend {begun : Verdict} {rows : List (Int64 × Bytes)} {rest : List Exchange}
      (hrest : ∀ exchange ∈ rest, ¬ EndsTxn exchange.1) :
      ∀ exchange ∈ inserting begun rows ++ rest, ¬ EndsTxn exchange.1 := by
    intro exchange hmem
    exact (List.mem_append.mp hmem).elim (ends_inserting begun rows exchange) (hrest exchange)
  rcases hr.stands_or_wrecked with ⟨redone, attempt, hredone, hongoing, rfl⟩ | hwrecked
  · refine ⟨redone, _, attempt, hredone, rfl, ?_⟩
    generalize b.phase = phase at hongoing
    cases hongoing with
    | starting => simp
    | writing _ | preparing _ => exact ends_inserting _ _
    | backingOut _ | insertFailed _ | prepareFailed _ => exact happend (by simp [EndsTxn])
    | committing ready => cases ready <;> exact happend (by simp [EndsTxn])
  · cases hwrecked with
    | holding before spoilt =>
      cases spoilt with
      | mk unkeyed => exact ⟨_, _, _, before, rfl, ends_inserting _ _⟩

theorem Runs.redone_of_getLast {b : Batch} {exchange : Exchange} (hr : Runs p .start log (.more b))
    (hlast : log.getLast? = some exchange) (hends : EndsTxn exchange.1) :
    ∃ conflicts, Redone p log conflicts := by
  obtain ⟨redone, conflicts, attempt, hredone, rfl, hongoing⟩ := hr.ongoing
  rcases eq_or_ne attempt [] with rfl | hne
  · exact ⟨conflicts, by rwa [List.append_nil]⟩
  · rw [List.getLast?_append_of_ne_nil _ hne] at hlast
    exact (hongoing _ (List.mem_of_getLast? hlast) hends).elim

/-- Nothing follows an attempt that commits, nor one that is refused to be redone. -/
theorem Runs.final (hr : Runs p .start log progress) {redone : List (List Exchange)} {last : List Exchange}
    (hall : AllBackedOut p redone) (hfront : redone.flatten ++ last <+: log)
    (hlast : Commits p last ∨
      ∃ key most, BackedOut p key last ∧ p.workload.retry = .bounded most ∧ redone.length = most.toNat) :
    log = redone.flatten ++ last ∧ ∃ result, progress = .over result := by
  have hends {b : Batch} (hmore : Runs p .start (redone.flatten ++ last) (.more b)) : False := by
    rcases hlast with hcommits | ⟨key, most, hback, hretry, hlength⟩
    · obtain ⟨verdict, hverdict⟩ := hcommits.getLast?_eq redone.flatten
      obtain ⟨conflicts, hredone⟩ := hmore.redone_of_getLast hverdict (.inl rfl)
      have hnone := List.count_eq_zero.mp hredone.balanced.2
      exact hnone (List.mem_map_of_mem (List.mem_of_getLast? hverdict))
    · obtain ⟨verdict, hverdict⟩ := hback.getLast?_eq redone.flatten
      obtain ⟨conflicts, hredone⟩ := hmore.redone_of_getLast hverdict (.inr rfl)
      have hle := UInt64.le_iff_toNat_le.mp (hredone.split.2 most hretry)
      have hmet := hredone.tells.1
      rw [conflictsIn_append, hall.counts.2, hback.tells.1] at hmet
      omega
  obtain ⟨rest, rfl⟩ := hfront
  rcases hr.front rfl with rfl | ⟨b, hmore⟩
  · refine ⟨List.append_nil _, ?_⟩
    rw [List.append_nil] at hr
    rcases progress with b | result
    · exact (hends hr).elim
    · exact ⟨result, rfl⟩
  · exact (hends hmore).elim

theorem Runs.failed_of_mem {request : Request} {stop : Stop} (hr : Runs p .start log (.over result))
    (hmem : (request, .error stop) ∈ log) (hdrop : request ≠ .dropTxn) :
    (∃ activity, request.activity = some activity ∧ result = .error (stop.during activity)) ∧
      ∃ before after, log = before ++ (request, .error stop) :: after ∧
        (after = [] ∨ ∃ dropped, after = [(.dropTxn, dropped)]) := by
  rcases hr.stands_or_wrecked with ⟨redone, conflicts, last, hredone, hends, rfl⟩ | hwrecked
  · have hlast := (List.mem_append.mp hmem).resolve_left (hredone.unfailing _ _)
    rcases hends.failing with hnone | ⟨first, cause, activity, hfails, hactivity, hresult⟩
    · exact (hnone _ _ hlast).elim
    · obtain ⟨rfl, rfl⟩ := hfails.unique hlast hdrop
      obtain ⟨before, after, _, rfl, hafter⟩ := hfails
      exact ⟨⟨activity, hactivity, hresult⟩, redone ++ before, after, (List.append_assoc ..).symm, hafter⟩
  · cases hwrecked with
    | dropped before spoilt reply =>
      cases spoilt with
      | mk unkeyed =>
        rcases List.mem_append.mp
          ((List.mem_append.mp hmem).resolve_left (before.unfailing _ _)) with hmem | hmem
        · exact (unfailing_inserting _ _ _ _ hmem).elim
        · cases List.mem_singleton.mp hmem
          exact (hdrop rfl).elim

/-- Whatever its plan is, and whatever is replied to it. -/
theorem persists (p : Plan) : Persists p where
  attempts hr := by
    obtain ⟨redone, conflicts, last, hredone, rfl, hshort⟩ := hr.splits
    obtain ⟨⟨attempts, _, hall, rfl⟩, _⟩ := hredone.split
    exact ⟨attempts, last, hall, hshort, rfl⟩
  begins {log progress most} hr hretry := by
    obtain ⟨redone, conflicts, last, hredone, rfl, hbegins, _⟩ := hr.splits
    obtain ⟨⟨attempts, hlength, hall, rfl⟩, hallowed⟩ := hredone.split
    have hle := UInt64.le_iff_toNat_le.mp (hallowed most hretry)
    rw [beginCalls_append, hall.counts.1]
    omega
  committed count hr := hr.committed_iff count
  gaveUp key hr _ hmost := hr.gaveUp_iff hmost key
  patient hr := by
    obtain ⟨⟨rfl, rfl⟩, _, _, most, hretry, hcount, _⟩ := hr.gaveUp_cases
    exact ⟨rfl, rfl, most, hretry, hcount⟩
  final hr hall hfront hlast := hr.final hall hfront hlast
  failed hr hmem hdrop := hr.failed_of_mem hmem hdrop
  returns {σ store seat buffer s} hanswered := by
    cases hrun : run store seat p buffer .start s with
    | none =>
      obtain ⟨log, b, t, hserves, hruns, hnone⟩ := unanswered_of_run hrun
      exact (hanswered hserves hruns hnone).elim
    | some outcome =>
      obtain ⟨log, hserves, hruns⟩ := runs_of_run hrun
      exact ⟨outcome.1, outcome.2.1, outcome.2.2, log, rfl, hserves, hruns⟩

end Batch
end InsertBench
