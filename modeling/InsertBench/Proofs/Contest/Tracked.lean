import InsertBench.Proofs.Contest.Holds

/-! # Batches at once, kept track of

What is true of batches at once on one table before and after every operation of any of them: the store is
sound, each batch holds what it should, and the table has gained the rows of those batches that have made
them visible. Locks keep these rows new and apart.
-/
namespace InsertBench.Contest

open RowLocks (Session Txn Operation Event Effect Becomes Table Sound Quiescent withWrites)

/-- How often rows were made visible through the session of a seat. -/
def applies (log : List Event) (seat : Nat) : Nat :=
  log.countP fun event => event.seat = seat ∧ event.op = .applyWrites

/-- A table holds its old rows, and all rows of the batches that have won, which are new and apart. -/
structure Shows (old : Rows) (plans : List Batch.Plan) (won : Nat → Prop) (rows : Rows) : Prop where
  rows {key : Int64} {value : Bytes} : rows[key]? = some value ↔ old[key]? = some value ∨
    ∃ place p, plans[place]? = some p ∧ won place ∧ (key, value) ∈ p.rows
  apart {place other : Nat} {p q : Batch.Plan} {key : Int64} : plans[place]? = some p →
    plans[other]? = some q → won place → won other → key ∈ p.rows.map Prod.fst →
      key ∈ q.rows.map Prod.fst → place = other

/-- What holds of batches at once on one table at any time, with all that happened so far. -/
structure Tracked (name : String) (base : Nat) (plans : List Batch.Plan) (old : Rows) (log : List Event)
    (c : Contest) : Prop where
  lineup : c.contenders.map Contender.plan = plans
  sound : Sound c.store
  holds {place : Nat} {x : Contender} : c.contenders[place]? = some x →
    Holds name x.plan c.store.sessions[base + place]? x.todo x.progress (applies log (base + place))
  others {seat : Nat} {txn : Txn} : c.store.sessions[seat]? = some ⟨name, some txn⟩ →
    (∃ place < plans.length, seat = base + place) ∨ txn.keys = []
  shows : Shows old plans (fun place => applies log (base + place) = 1) (c.store.table name).rows

variable {name : String} {base place : Nat} {plans : List Batch.Plan} {old rows : Rows} {log : List Event}
  {c d : Contest} {x : Contender} {p : Batch.Plan} {before after : Batch.Progress}
  {todo rest : List Operation}
  {reply : Reply} {s : RowLocks} {session : Option Session} {table : Table}
  {won won' : Nat → Prop} {key : Int64}

theorem Shows.congr (h : Shows old plans won rows) (hwon : ∀ place, won place ↔ won' place) :
    Shows old plans won' rows := by
  obtain rfl : won = won' := funext fun place => propext (hwon place)
  exact h

theorem Shows.mem_of_won (h : Shows old plans won rows) (hp : plans[place]? = some p) (hwon : won place)
    (hkey : key ∈ p.rows.map Prod.fst) : key ∈ rows := by
  obtain ⟨row, hrow, rfl⟩ := List.mem_map.mp hkey
  exact RowLocks.mem_rows_iff.mpr ⟨row.2, h.rows.mpr (.inr ⟨place, p, hp, hwon, hrow⟩)⟩

theorem Shows.wins (h : Shows old plans won rows) (hp : plans[place]? = some p)
    (hdistinct : (p.rows.map Prod.fst).Nodup) (hfresh : ∀ key ∈ p.rows.map Prod.fst, key ∉ rows) :
    Shows old plans (fun other => other = place ∨ won other) (withWrites rows p.rows.reverse) := by
  constructor
  · intro key value
    rw [RowLocks.getElem?_withWrites_iff (by rwa [List.map_reverse, List.nodup_reverse])
      (by simpa only [List.map_reverse, List.mem_reverse] using hfresh), List.mem_reverse, h.rows]
    constructor
    · rintro ((hold | ⟨other, q, hq, hwon, hrow⟩) | hrow)
      · exact .inl hold
      · exact .inr ⟨other, q, hq, .inr hwon, hrow⟩
      · exact .inr ⟨place, p, hp, .inl rfl, hrow⟩
    · rintro (hold | ⟨other, q, hq, rfl | hwon, hrow⟩)
      · exact .inl (.inl hold)
      · rw [hp] at hq
        cases hq
        exact .inr hrow
      · exact .inl (.inr ⟨other, q, hq, hwon, hrow⟩)
  · intro one other q r key hq hr hone hother hkey hkey'
    rcases hone with rfl | hone <;> rcases hother with rfl | hother
    · rfl
    · rw [hp] at hq
      cases hq
      exact absurd (h.mem_of_won hr hother hkey') (hfresh key hkey)
    · rw [hp] at hr
      cases hr
      exact absurd (h.mem_of_won hq hone hkey) (hfresh key hkey')
    · exact h.apart hq hr hone hother hkey hkey'

theorem applies_concat (log : List Event) (event : Event) (seat : Nat) :
    applies (log ++ [event]) seat =
      applies log seat + if event.seat = seat ∧ event.op = .applyWrites then 1 else 0 := by
  simp [applies, List.countP_append, List.countP_singleton]

theorem Tracked.plan (h : Tracked name base plans old log c) (hx : c.contenders[place]? = some x) :
    plans[place]? = some x.plan := by
  rw [← h.lineup, List.getElem?_map, hx]
  rfl

/-- One operation of one batch, of which everything about its own seat and the rows is known. -/
theorem Tracked.turn (h : Tracked name base plans old log c)
    (hx : c.contenders[place]? = some ⟨p, before, todo⟩) {op : Operation}
    (hs : c.store.step (base + place) op = some (reply, s))
    (hb : Becomes c.store (base + place) session name table s)
    (hholds : Holds name p session rest after
      (applies (log ++ [⟨base + place, op, reply⟩]) (base + place)))
    (hshows : Shows old plans (fun other => applies (log ++ [⟨base + place, op, reply⟩]) (base + other) = 1)
      table.rows) :
    Tracked name base plans old (log ++ [⟨base + place, op, reply⟩])
      ⟨s, c.contenders.set place ⟨p, after, rest⟩⟩ := by
  have hlt := (List.getElem?_eq_some_iff.mp hx).1
  constructor
  case lineup =>
    have hp := h.plan hx
    rw [← h.lineup] at hp ⊢
    obtain ⟨hlt, hp⟩ := List.getElem?_eq_some_iff.mp hp
    rw [List.map_set, show Contender.plan ⟨p, after, rest⟩ = _ from hp.symm, List.set_getElem_self]
  case sound => exact h.sound.step hs
  case holds =>
    intro other z hz
    rw [hb.sessions]
    by_cases he : place = other
    · subst he
      rw [List.getElem?_set_self hlt] at hz
      cases hz
      rw [if_pos rfl]
      exact hholds
    · rw [List.getElem?_set_ne he] at hz
      rw [if_neg (by omega), applies_concat, if_neg (by simp; omega)]
      exact h.holds hz
  case others =>
    intro seat txn hf
    rw [hb.sessions] at hf
    split at hf
    · rename_i he
      refine .inl ⟨place, ?_, he.symm⟩
      rwa [← h.lineup, List.length_map]
    · exact h.others hf
  case shows =>
    rw [hb.table_here]
    exact hshows

theorem Tracked.quiet (h : Tracked name base plans old log c)
    (hx : c.contenders[place]? = some ⟨p, before, todo⟩) {op : Operation}
    (hs : c.store.step (base + place) op = some (reply, s))
    (hb : Becomes c.store (base + place) session name table s) (hop : op ≠ .applyWrites)
    (hrows : table.rows = (c.store.table name).rows)
    (hholds : Holds name p session rest after (applies log (base + place))) :
    Tracked name base plans old (log ++ [⟨base + place, op, reply⟩])
      ⟨s, c.contenders.set place ⟨p, after, rest⟩⟩ := by
  have hsame (seat : Nat) : applies (log ++ [⟨base + place, op, reply⟩]) seat = applies log seat := by
    simp [applies_concat, hop]
  apply h.turn hx hs hb
  · rwa [hsame]
  · rw [hrows]
    refine h.shows.congr fun other => ?_
    rw [hsame]

/-- A batch wins: its rows were locked all the time, so they are new. -/
theorem Tracked.applied (h : Tracked name base plans old log c)
    (hx : c.contenders[place]? = some ⟨p, before, todo⟩)
    (hs : c.store.step (base + place) .applyWrites = some (reply, s))
    (hb : Becomes c.store (base + place) session name table s) (hnone : applies log (base + place) = 0)
    {id : UInt64} {prepared : Bool}
    (here : c.store.sessions[base + place]? = some ⟨name, some ⟨id, p.rows.reverse, prepared, .live⟩⟩)
    (hrows : table.rows = withWrites (c.store.table name).rows p.rows.reverse)
    (hholds : Holds name p session rest after 1) :
    Tracked name base plans old (log ++ [⟨base + place, .applyWrites, reply⟩])
      ⟨s, c.contenders.set place ⟨p, after, rest⟩⟩ := by
  have hdistinct := h.sound.distinct here
  have hfresh (key : Int64) (hkey : key ∈ p.rows.map Prod.fst) : key ∉ (c.store.table name).rows :=
    h.sound.fresh here rfl (by simpa only [Txn.keys, List.map_reverse, List.mem_reverse] using hkey)
  simp only [Txn.keys, List.map_reverse, List.nodup_reverse] at hdistinct
  apply h.turn hx hs hb
  · simpa [applies_concat, hnone] using hholds
  · rw [hrows]
    refine (h.shows.wins (h.plan hx) hdistinct hfresh).congr fun other => ?_
    by_cases he : other = place
    · simp [applies_concat, he, hnone]
    · simp [applies_concat, he, Ne.symm he]

theorem Tracked.step (h : Tracked name base plans old log c) {event : Event} (hs : Step base c event d) :
    Tracked name base plans old (log ++ [event]) d := by
  cases hs with
  | last here left performs =>
    obtain ⟨session, other, table, heffect, hb⟩ := RowLocks.step_effect performs
    obtain ⟨rfl, hop, hrows, hholds⟩ := (h.holds here).last left heffect
    exact h.quiet here performs hb hop hrows hholds
  | part here left performs =>
    obtain ⟨session, other, table, heffect, hb⟩ := RowLocks.step_effect performs
    have hholds := h.holds here
    generalize hcount : applies log _ = count at hholds
    obtain ⟨rfl, hhalf⟩ := hholds.part left heffect
    cases hhalf with
    | apply seated hrows hafter => exact h.applied here performs hb hcount seated hrows hafter
    | release hrows hafter => exact h.quiet here performs hb (by simp) hrows (hcount ▸ hafter)

theorem Runs.tracked {more : List Event} (hr : Runs base c more d) (h : Tracked name base plans old log c) :
    Tracked name base plans old (log ++ more) d := by
  induction hr with
  | start => rwa [List.append_nil]
  | step _ last ih =>
    rw [← List.append_assoc]
    exact ih.step last

end InsertBench.Contest
