import InsertBench.Proofs.Bench.Returns
import InsertBench.Proofs.RowLocks.History
import InsertBench.Proofs.Stepwise.Seated

/-! # Crews in step with their table

While a crew is at work on a table with row locks, the table holds the rows of old and of each worker
the rows of some first batches. No two workers ever want the same lock, so an insert can only fail by a
key of old. Every step keeps a crew in step.
-/
namespace InsertBench.Stepwise

open RowLocks (Session Txn Operation Effect Becomes Sound withWrites)
open Crew (Event)
open Function (update)

/-- A table holds its old rows, and of each thread the rows of some first batches, which are new. -/
structure Shows (old : Rows) (b : Bench) (createdAt : Int64) (batches : Nat → Nat) (rows : Rows) : Prop where
  rows {key : Int64} {value : Bytes} : rows[key]? = some value ↔
    old[key]? = some value ∨ key ∈ b.workload.firstKeys batches ∧ value = (Row.generate createdAt key).encode
  fresh {key : Int64} : key ∈ b.workload.firstKeys batches → key ∉ old

def visibleAt (c : Stepwise) (place : Nat) : Nat :=
  match c.crew.workers[place]? with
  | some w => visible w.tally (c.todo place) w.stage
  | none => 0

structure AtWork (b : Bench) (createdAt : Int64) (place : Nat) (w : Worker) : Prop where
  post : w.post = b.post createdAt place
  onTrack : w.OnTrack
  calm : w.tally.conflicts = 0

structure InStep (b : Bench) (createdAt : Int64) (base : Nat) (old : Rows) (c : Stepwise) : Prop where
  accepted : b.workload.Accepted
  sound : Sound c.crew.store
  length : c.crew.workers.length = b.workload.crewSize
  workers {place : Nat} {w : Worker} : c.crew.workers[place]? = some w → AtWork b createdAt place w
  seated {place : Nat} {w : Worker} : c.crew.workers[place]? = some w →
    Seated old w.post c.crew.store.sessions[base + place]? (c.todo place) w.stage
  others {seat : Nat} {session : Session} : c.crew.store.sessions[seat]? = some session →
    ∃ place < b.workload.crewSize, seat = base + place
  shows : Shows old b createdAt c.visibleAt (c.crew.store.table b.table).rows

variable {b : Bench} {createdAt : Int64} {base : Nat} {old rows : Rows} {batches : Nat → Nat}
  {c d : Stepwise} {place round : Nat} {w v : Worker} {key : Int64} {value : Bytes}

theorem Shows.mem_iff (h : Shows old b createdAt batches rows) :
    key ∈ rows ↔ key ∈ old ∨ key ∈ b.workload.firstKeys batches := by
  rw [RowLocks.mem_rows_iff, RowLocks.mem_rows_iff]
  constructor
  · rintro ⟨value, hvalue⟩
    rcases h.rows.mp hvalue with hold | ⟨hnew, _⟩
    · exact .inl ⟨value, hold⟩
    · exact .inr hnew
  · rintro (⟨value, hold⟩ | hnew)
    · exact ⟨value, h.rows.mpr (.inl hold)⟩
    · exact ⟨_, h.rows.mpr (.inr ⟨hnew, rfl⟩)⟩

theorem mem_firstKeys_update (hp : place < b.workload.crewSize) (hbatches : batches place = round) :
    key ∈ b.workload.firstKeys (update batches place (round + 1)) ↔
      key ∈ b.workload.firstKeys batches ∨ ∃ o < b.workload.width, b.workload.keyAt place round o = key := by
  simp only [Workload.mem_firstKeys]
  constructor
  · rintro ⟨thread, ht, r, hr, o, ho, rfl⟩
    by_cases he : thread = place
    · subst he
      rw [Function.update_self] at hr
      rcases Nat.lt_succ_iff_lt_or_eq.mp hr with hlt | rfl
      · exact .inl ⟨thread, ht, r, hbatches ▸ hlt, o, ho, rfl⟩
      · exact .inr ⟨o, ho, rfl⟩
    · rw [Function.update_of_ne he] at hr
      exact .inl ⟨thread, ht, r, hr, o, ho, rfl⟩
  · rintro (⟨thread, ht, r, hr, o, ho, rfl⟩ | ⟨o, ho, rfl⟩)
    · refine ⟨thread, ht, r, ?_, o, ho, rfl⟩
      by_cases he : thread = place
      · subst he
        rw [Function.update_self]
        omega
      · rwa [Function.update_of_ne he]
    · exact ⟨place, hp, round, by rw [Function.update_self]; omega, o, ho, rfl⟩

theorem Shows.apply (h : Shows old b createdAt batches rows) {p : Post} (hpost : p = b.post createdAt place)
    (hp : place < b.workload.crewSize) (hbatches : batches place = round)
    (hdistinct : ((p.written round b.workload.width).map Prod.fst).Nodup)
    (hfresh : ∀ key ∈ (p.written round b.workload.width).map Prod.fst, key ∉ rows) :
    Shows old b createdAt (update batches place (round + 1))
      (withWrites rows (p.written round b.workload.width)) := by
  have hid : p.id.toNat = place := by
    rw [hpost]
    exact Word.toNat_toUInt64 (hp.trans b.workload.threads.toNat_lt_size)
  have hload : p.workload = b.workload := by rw [hpost]; rfl
  have hrow (key : Int64) : p.row key = (Row.generate createdAt key).encode := by rw [hpost]; rfl
  constructor
  · intro key value
    rw [RowLocks.getElem?_withWrites_iff hdistinct hfresh, Post.mem_written, h.rows,
      mem_firstKeys_update hp hbatches, hid, hload, hrow]
    constructor
    · rintro ((hold | ⟨hseen, rfl⟩) | ⟨hnew, rfl⟩)
      · exact .inl hold
      · exact .inr ⟨.inl hseen, rfl⟩
      · exact .inr ⟨.inr hnew, rfl⟩
    · rintro (hold | ⟨hseen | hnew, rfl⟩)
      · exact .inl (.inl hold)
      · exact .inl (.inr ⟨hseen, rfl⟩)
      · exact .inr ⟨hnew, rfl⟩
  · intro key hkey hold
    rcases (mem_firstKeys_update hp hbatches).mp hkey with hseen | ⟨o, ho, rfl⟩
    · exact h.fresh hseen hold
    · refine hfresh _ (Post.mem_keys_written.mpr ⟨o, ho, ?_⟩) (h.mem_iff.mpr (.inl hold))
      rw [hid, hload]

theorem InStep.place_lt (h : InStep b createdAt base old c) (hw : c.crew.workers[place]? = some w) :
    place < b.workload.crewSize := by
  rw [← h.length]
  exact (List.getElem?_eq_some_iff.mp hw).1

theorem InStep.toNat_id (h : InStep b createdAt base old c) (hw : c.crew.workers[place]? = some w) :
    w.post.id.toNat = place := by
  rw [(h.workers hw).post]
  exact Word.toNat_toUInt64 ((h.place_lt hw).trans b.workload.threads.toNat_lt_size)

theorem InStep.workload (h : InStep b createdAt base old c) (hw : c.crew.workers[place]? = some w) :
    w.post.workload = b.workload := by
  rw [(h.workers hw).post]
  rfl

theorem visibleAt_eq (hw : c.crew.workers[place]? = some w) :
    c.visibleAt place = visible w.tally (c.todo place) w.stage := by
  rw [visibleAt, hw]

theorem InStep.visible_le (h : InStep b createdAt base old c) (place : Nat) :
    c.visibleAt place ≤ b.workload.roundCount := by
  cases hw : c.crew.workers[place]? with
  | none =>
    rw [visibleAt, hw]
    exact Nat.zero_le _
  | some w =>
    have hseated := h.seated hw
    have hon := (h.workers hw).onTrack
    have hstage := hon.stage
    have hle := hon.batches_le
    rw [visibleAt_eq hw, ← h.workload hw]
    generalize hs : c.crew.store.sessions[base + place]? = session at hseated
    generalize htodo : c.todo place = todo at hseated
    generalize w.stage = stage at hseated hstage
    cases hseated with
    | stopping =>
      obtain ⟨hr, hbatches⟩ := hstage
      rw [← hbatches] at hr
      exact hr
    | applied =>
      obtain ⟨hr, hbatches, _⟩ := hstage
      rw [← hbatches] at hr
      exact hr
    | released =>
      obtain ⟨hr, hbatches, _⟩ := hstage
      rw [← hbatches] at hr
      exact hr
    | _ => exact hle

/-- A key that is dealt to a worker is locked by this worker only. -/
theorem InStep.holder (h : InStep b createdAt base old c) (hp : place < b.workload.crewSize)
    (hdeals : b.workload.Deals place key) {id : UInt64}
    (hlock : (c.crew.store.table b.table).locks[key]? = some id) :
    ∃ txn, c.crew.store.sessions[base + place]? = some ⟨b.table, some txn⟩ ∧ key ∈ txn.keys := by
  obtain ⟨seat, txn, hsession, _, hkey⟩ := h.sound.write_of_lock hlock
  obtain ⟨other, hother, rfl⟩ := h.others hsession
  have hlt : other < c.crew.workers.length := by rwa [h.length]
  have hw := List.getElem?_eq_getElem hlt
  obtain ⟨r', hr', o', ho', he'⟩ := (h.seated hw).deals (h.workers hw).onTrack hsession hkey
  obtain ⟨r, hr, o, ho, he⟩ := hdeals
  rw [h.workload hw, h.toNat_id hw] at he'
  rw [h.workload hw] at hr' ho'
  obtain ⟨rfl, _⟩ := Workload.keyAt_inj h.accepted hother hp hr' hr ho' ho (he'.trans he.symm)
  exact ⟨txn, hsession, hkey⟩

theorem InStep.writing (h : InStep b createdAt base old c) (hw : c.crew.workers[place]? = some w)
    {offset : Nat} {since conflicts : UInt64}
    (stage : w.stage = .running round since ⟨conflicts, .writing offset key⟩) :
    (∃ id, c.crew.store.sessions[base + place]? =
        inTxn w.post ⟨id, w.post.written round offset, false, .live⟩) ∧
      round < b.workload.roundCount ∧ offset < b.workload.width ∧
      key = b.workload.keyAt place round offset ∧ c.visibleAt place = round := by
  have hseated := h.seated hw
  have hstage := (h.workers hw).onTrack.stage
  rw [stage] at hseated hstage
  obtain ⟨hr, hbatches, ho, hkey⟩ := hstage
  rw [Worker.plan_keyAt hr, h.workload hw, h.toNat_id hw] at hkey
  have hvisible := visibleAt_eq hw
  rw [stage] at hvisible
  rw [h.workload hw] at hr
  change offset < w.post.workload.width at ho
  rw [h.workload hw] at ho
  generalize hs : c.crew.store.sessions[base + place]? = session at hseated
  generalize c.todo place = todo at hseated hvisible
  cases hseated
  exact ⟨⟨_, rfl⟩, hr, ho, hkey, hvisible.trans hbatches⟩

/-- A key of old that is dealt before the next one of a worker would have stopped it already. -/
theorem InStep.clear (h : InStep b createdAt base old c) (hw : c.crew.workers[place]? = some w) :
    Clear old w.post (c.crew.store.table w.post.table) w.stage := by
  intro round offset since conflicts key stage
  obtain ⟨⟨id, hs⟩, hr, ho, rfl, hvisible⟩ := h.writing hw stage
  have hp := h.place_lt hw
  have hload := h.workload hw
  have hid := h.toNat_id hw
  have htable : w.post.table = b.table := by rw [(h.workers hw).post]; rfl
  rw [inTxn, htable] at hs
  have hown {o : Nat} (hlt : o < offset) :
      b.workload.keyAt place round o ∉ (c.crew.store.table b.table).rows := by
    refine h.sound.fresh hs rfl (Post.mem_keys_written.mpr ⟨o, hlt, ?_⟩)
    rw [hload, hid]
  rw [htable]
  constructor
  · cases hlock : (c.crew.store.table b.table).locks[b.workload.keyAt place round offset]? with
    | none => rfl
    | some holder =>
      obtain ⟨txn, hsession, hkey⟩ := h.holder hp ⟨round, hr, offset, ho, rfl⟩ hlock
      rw [hs] at hsession
      cases hsession
      obtain ⟨o, hlt, he⟩ := Post.mem_keys_written.mp hkey
      rw [hload, hid] at he
      have := (Workload.keyAt_inj h.accepted hp hp hr hr (hlt.trans ho) ho he).2.2
      omega
  · intro hrow
    constructor
    · rw [hload, hid]
      exact ⟨round, hr, offset, ho, rfl⟩
    · rcases h.shows.mem_iff.mp hrow with hold | hseen
      · exact hold
      · obtain ⟨thread, ht, r, hlt, o, ho', he⟩ := Workload.mem_firstKeys.mp hseen
        obtain ⟨rfl, rfl, _⟩ :=
          Workload.keyAt_inj h.accepted ht hp (hlt.trans_le (h.visible_le _)) hr ho' ho he
        omega
    · intro other hdeals hold
      rw [hload, hid] at hdeals
      obtain ⟨r, hr', o, ho', rfl⟩ := hdeals
      -- an earlier key is visible if its round is over, and else this batch wrote it
      apply Workload.Accepted.keyAt_le h.accepted hp hr' ho ho'
      by_contra hnot
      rw [not_or, not_and_or] at hnot
      rcases Nat.lt_or_ge r round with hlt | hge
      · refine h.shows.fresh (Workload.mem_firstKeys.mpr ⟨place, hp, r, ?_, o, ho', rfl⟩) hold
        rwa [hvisible]
      · obtain rfl : round = r := by omega
        exact hown (by omega) (h.shows.mem_iff.mpr (.inl hold))

/-- One worker has gone on at its seat, and the others are where they were. -/
theorem InStep.turn (h : InStep b createdAt base old c) (hw : c.crew.workers[place]? = some w)
    {session : Option Session} {table : RowLocks.Table} {left : List Operation}
    (hworkers : d.crew.workers = c.crew.workers.set place v) (htodo : d.todo = update c.todo place left)
    (hsound : Sound d.crew.store)
    (hb : Becomes c.crew.store (base + place) session b.table table d.crew.store)
    (hv : AtWork b createdAt place v) (hseated : Seated old v.post session left v.stage)
    (hshows : Shows old b createdAt (update c.visibleAt place (visible v.tally left v.stage)) table.rows) :
    InStep b createdAt base old d := by
  have hlt := (List.getElem?_eq_some_iff.mp hw).1
  have hself : d.crew.workers[place]? = some v := by rw [hworkers, List.getElem?_set_self hlt]
  have hother {other : Nat} (hne : place ≠ other) :
      d.crew.workers[other]? = c.crew.workers[other]? := by rw [hworkers, List.getElem?_set_ne hne]
  constructor
  case accepted => exact h.accepted
  case sound => exact hsound
  case length => rw [hworkers, List.length_set, h.length]
  case workers =>
    intro other u hu
    by_cases he : place = other
    · subst he
      rw [hself] at hu
      cases hu
      exact hv
    · rw [hother he] at hu
      exact h.workers hu
  case seated =>
    intro other u hu
    rw [hb.sessions, htodo]
    by_cases he : place = other
    · subst he
      rw [hself] at hu
      cases hu
      rw [if_pos rfl, Function.update_self]
      exact hseated
    · rw [hother he] at hu
      rw [if_neg (by omega), Function.update_of_ne (Ne.symm he)]
      exact h.seated hu
  case others =>
    intro seat found hfound
    rw [hb.sessions] at hfound
    split at hfound
    · rename_i he
      exact ⟨place, h.place_lt hw, he.symm⟩
    · exact h.others hfound
  case shows =>
    have hvisible : d.visibleAt = update c.visibleAt place (visible v.tally left v.stage) := by
      funext other
      by_cases he : place = other
      · subst he
        rw [visibleAt_eq hself, htodo, Function.update_self, Function.update_self]
      · rw [Function.update_of_ne (Ne.symm he), visibleAt, visibleAt, hother he, htodo,
          Function.update_of_ne (Ne.symm he)]
    rw [hvisible, hb.table_here]
    exact hshows

theorem AtWork.moves (h : AtWork b createdAt place w) {event : Event} (hm : Worker.Moves w event v)
    (hcalm : v.tally.conflicts = w.tally.conflicts) : AtWork b createdAt place v where
  post := by rw [hm.post, h.post]
  onTrack := h.onTrack.moves hm
  calm := by rw [hcalm, h.calm]

theorem set_of_getElem? {workers : List Worker} (hw : workers[place]? = some w) :
    workers = workers.set place w := by
  obtain ⟨_, he⟩ := List.getElem?_eq_some_iff.mp hw
  rw [← he, List.set_getElem_self]

theorem InStep.last (h : InStep b createdAt base old c) (hw : c.crew.workers[place]? = some w)
    {request : Request} (calls : w.next = some (.call request)) {op : Operation}
    (hleft : ahead (c.todo place) request = [op]) {reply : Reply} {s : RowLocks}
    (performs : c.crew.store.step (base + place) op = some (reply, s)) :
    InStep b createdAt base old
      ⟨{ c.crew with store := s }.setWorker place (w.answer reply), update c.todo place []⟩ := by
  have hat := h.workers hw
  have hm : Worker.Moves w (.call place request reply) (w.answer reply) := Worker.moves_of_next calls
  obtain ⟨session, name, table, heffect, hb⟩ := RowLocks.step_effect performs
  obtain ⟨rfl, hrows, hseated, hcalm, hvisible⟩ :=
    (h.seated hw).last hat.onTrack (h.clear hw) hm hleft heffect
  have htable : w.post.table = b.table := by rw [hat.post]; rfl
  rw [htable] at hb hrows
  refine h.turn hw rfl rfl (h.sound.step performs) hb (hat.moves hm hcalm) (by rwa [hm.post]) ?_
  rw [hvisible, ← visibleAt_eq hw, Function.update_eq_self, hrows]
  exact h.shows

theorem InStep.part (h : InStep b createdAt base old c) (hw : c.crew.workers[place]? = some w)
    {request : Request} (calls : w.next = some (.call request)) {op next : Operation} {rest : List Operation}
    (hleft : ahead (c.todo place) request = op :: next :: rest) {reply : Reply} {s : RowLocks}
    (performs : c.crew.store.step (base + place) op = some (reply, s)) :
    InStep b createdAt base old ⟨{ c.crew with store := s }, update c.todo place (next :: rest)⟩ := by
  have hat := h.workers hw
  have hp := h.place_lt hw
  obtain ⟨session, name, table, heffect, hb⟩ := RowLocks.step_effect performs
  have hvisible := visibleAt_eq hw
  have hseated := h.seated hw
  have htable : w.post.table = b.table := by rw [hat.post]; rfl
  have hwidth : w.post.workload.width = b.workload.width := by rw [h.workload hw]
  generalize hleftover : next :: rest = left at *
  generalize c.todo place = todo at hvisible hseated hleft
  rw [← hleftover] at hleft
  obtain ⟨rfl, hhalf⟩ := hseated.part hat.onTrack calls hleft heffect
  rw [htable] at hb
  rw [hleftover] at hhalf
  cases hhalf with
  | apply here hrows seated before after =>
    rw [before] at hvisible
    rw [htable, hwidth] at hrows
    rw [inTxn, htable, hwidth] at here
    refine h.turn hw (set_of_getElem? hw) rfl (h.sound.step performs) hb hat seated ?_
    rw [after, hrows]
    exact h.shows.apply hat.post hp hvisible (h.sound.distinct here) fun key hkey =>
      h.sound.fresh here rfl hkey
  | release hrows seated visible =>
    rw [htable] at hrows
    refine h.turn hw (set_of_getElem? hw) rfl (h.sound.step performs) hb hat seated ?_
    rw [visible, ← hvisible, Function.update_eq_self, hrows]
    exact h.shows

theorem InStep.other (h : InStep b createdAt base old c) {now : UInt64} {event : Event}
    {e : Crew RowLocks} (acts : c.crew.act RowLocks.store base place now = some (event, e))
    (quiet : ∀ request, event.action ≠ .call request) : InStep b createdAt base old ⟨e, c.todo⟩ := by
  obtain ⟨w, hacted⟩ := Crew.acted_of_act acts
  have hw : c.crew.workers[place]? = some w := by
    rw [← hacted.turn]
    exact hacted.here
  have hat := h.workers hw
  have hm := Worker.moves_of_next hacted.next
  obtain ⟨hseated, hcalm, hvisible⟩ := (h.seated hw).other hat.onTrack hat.calm hm quiet
  have hstore : e.store = c.crew.store := hacted.kept quiet
  have hworkers := hacted.workers
  rw [hacted.turn] at hworkers
  have hb : Becomes c.crew.store (base + place) c.crew.store.sessions[base + place]? b.table
      (c.crew.store.table b.table) e.store := by
    rw [hstore]
    exact RowLocks.becomes_refl c.crew.store (base + place) b.table
  refine h.turn hw hworkers (Function.update_eq_self ..).symm (hstore ▸ h.sound) hb
    (hat.moves hm (hcalm.trans hat.calm.symm)) (by rw [hm.post]; exact hseated) ?_
  rw [hvisible, ← visibleAt_eq hw, Function.update_eq_self]
  exact h.shows

theorem InStep.step {events : List Event} (h : InStep b createdAt base old c) (hs : Step base c events d) :
    InStep b createdAt base old d := by
  cases hs with
  | part here calls left performs => exact h.part here calls left performs
  | last here calls left performs => exact h.last here calls left performs
  | other acts quiet => exact h.other acts quiet

theorem Runs.inStep {log : List Event} (hr : Runs base c log d) (h : InStep b createdAt base old c) :
    InStep b createdAt base old d :=
  hr.keeps (fun _ _ _ h hs => h.step hs) h

end InsertBench.Stepwise
