import InsertBench.Proofs.Crew.Holding
import InsertBench.Proofs.Crew.Mapped

/-! # What a crew holds

From its hiring on, a crew leaves open at each seat what the worker on it needs, and nothing else. So
nothing is open any more when all workers have ended, or when one could not be hired.
-/
namespace InsertBench

variable {σ : Type}

/-- A store that keeps a record of the calls to it. -/
def Store.recorded (store : Store σ) : Store (σ × List Call) where
  name s := store.name s.1
  call s seat request :=
    (store.call s.1 seat request).map fun answer => (answer.1, answer.2, s.2 ++ [⟨seat, request, answer.1⟩])
  rowCount s table := ((store.rowCount s.1 table).1, (store.rowCount s.1 table).2, s.2)
  shut s := store.shut s.1

variable {store : Store σ} {base : Nat} {post : Nat → Post} {s t : σ} {calls more : List Call}

theorem Store.recorded_call {seat : Nat} {request : Request} {reply : Reply}
    (h : store.recorded.call (s, calls) seat request = some (reply, t, more)) :
    store.call s seat request = some (reply, t) ∧ more = calls ++ [⟨seat, request, reply⟩] := by
  obtain ⟨⟨reply', t'⟩, hcall, he⟩ := Option.map_eq_some_iff.mp h
  cases he
  exact ⟨hcall, rfl⟩

theorem Store.recorded_maps (store : Store σ) : store.recorded.Maps store Prod.fst where
  name _ := rfl
  call s seat request := by
    change _ = Option.map _ (Option.map _ (store.call s.1 seat request))
    rw [Option.map_map]
    exact (congrFun Option.map_id _).symm
  rowCount _ _ := rfl
  shut _ := rfl

namespace Crew

theorem dismiss_keeps {P : σ → Prop} {seats : List Nat} (h : dismiss store seats s = some t) (hs : P s)
    (hdrop : ∀ s seat reply t, seat ∈ seats → P s → store.call s seat .dropSession = some (reply, t) → P t) :
    P t := by
  induction seats generalizing s with
  | nil =>
    cases h
    exact hs
  | cons seat seats ih =>
    unfold dismiss at h
    split at h
    · rename_i hcall
      exact ih h (hdrop _ _ _ _ List.mem_cons_self hs hcall)
        fun s other reply t hmem => hdrop s other reply t (List.mem_cons_of_mem _ hmem)
    · cases h

theorem lt_of_mem_eagerBefore {i place : Nat} (h : i ∈ eagerBefore post place) : i < place :=
  List.mem_range.mp (List.mem_filter.mp h).1

theorem hire_keeps {P : σ → Prop} {size left place : Nat} {outcome : Except Stop (List Worker)}
    (h : hire store base post left place s = some (outcome, t)) (hs : P s) (hsize : place + left ≤ size)
    (hopen : ∀ s i reply t, i < size → P s →
      store.call s (base + i) (.openSession (post i).table) = some (reply, t) → P t)
    (hdrop : ∀ s i reply t, i < size → P s → store.call s (base + i) .dropSession = some (reply, t) → P t) :
    P t := by
  induction left generalizing place s outcome with
  | zero =>
    cases h
    exact hs
  | succ left ih =>
    have hjoin {first : Worker} {u : σ} (h : Joins store (base + place) (post place) s first u) : P u := by
      cases h with
      | lazy _ => exact hs
      | eager _ opened => exact hopen _ _ _ _ (by omega) hs opened
    cases hires_of_hire h with
    | joined joins rest | inVain joins rest => exact ih rest (hjoin joins) (by omega)
    | refused _ failed dismissed =>
      apply dismiss_keeps dismissed (hopen _ _ _ _ (by omega) hs failed)
      rintro s seat reply t hmem
      obtain ⟨i, hi, rfl⟩ := List.mem_map.mp hmem
      have := lt_of_mem_eagerBefore hi
      exact hdrop s i reply t (by omega)

def hired (p : Post) : Worker :=
  match p.workload.sessionStart with
  | .lazy => .new p
  | .eager => (Worker.new p).goOn 0

theorem Joins.eq_hired {seat : Nat} {p : Post} {w : Worker} (h : Joins store seat p s w t) : w = hired p := by
  cases h with
  | lazy mode => rw [hired, mode]
  | eager mode _ =>
    rw [hired, mode]
    rfl

theorem hire_hired {left place : Nat} {workers : List Worker}
    (h : hire store base post left place s = some (.ok workers, t)) :
    workers = (List.range' place left).map fun i => hired (post i) := by
  induction left generalizing place s workers with
  | zero =>
    cases h
    rfl
  | succ left ih =>
    cases hires_of_hire h with
    | joined joins rest => rw [List.range'_succ, List.map_cons, joins.eq_hired, ih rest]

/-- The seats of these places hold a session each, and the others nothing. -/
def HeldAt (base : Nat) (places : List Nat) (calls : List Call) : Prop :=
  ∀ seat, Holding.nothing.afterAll (callsAt calls seat) =
    some (if seat ∈ places.map (base + ·) then .session else .nothing)

theorem HeldAt.call {places next : List Nat} (h : HeldAt base places calls) {call : Call}
    (hother : ∀ seat, call.seat ≠ seat → (seat ∈ next.map (base + ·) ↔ seat ∈ places.map (base + ·)))
    (hhere : (if call.seat ∈ places.map (base + ·) then Holding.session else .nothing).after
      (call.request, call.reply) = some (if call.seat ∈ next.map (base + ·) then .session else .nothing)) :
    HeldAt base next (calls ++ [call]) := by
  intro seat
  rw [callsAt_append, Holding.afterAll_append (h seat), callsAt_singleton]
  by_cases he : call.seat = seat
  · subst he
    rw [if_pos rfl, Holding.afterAll_singleton, hhere]
  · rw [if_neg he]
    simp only [hother seat he]
    rfl

theorem dismiss_held {places : List Nat} (hnodup : places.Nodup) (hcalls : HeldAt base places calls)
    (h : dismiss store.recorded (places.map (base + ·)) (s, calls) = some (t, more)) :
      HeldAt base [] more := by
  induction places generalizing s calls with
  | nil =>
    cases h
    exact hcalls
  | cons i places ih =>
    obtain ⟨hi, hplaces⟩ := List.nodup_cons.mp hnodup
    rw [List.map_cons, dismiss] at h
    split at h
    · rename_i reply u hcall
      obtain ⟨_, hrecord⟩ := Store.recorded_call hcall
      obtain ⟨u, calls'⟩ := u
      dsimp only at hrecord
      subst hrecord
      refine ih hplaces (hcalls.call ?_ ?_) h
      · intro seat hne
        simp only [List.map_cons, List.mem_cons, Ne.symm hne, false_or]
      · have hnot : base + i ∉ places.map (base + ·) := by
          intro hmem
          obtain ⟨j, hj, he⟩ := List.mem_map.mp hmem
          obtain rfl : j = i := Nat.add_left_cancel he
          exact hi hj
        simp only [List.map_cons, List.mem_cons, true_or, ↓reduceIte, hnot]
        rfl
    · cases h

theorem eagerBefore_succ (post : Nat → Post) (place : Nat) : eagerBefore post (place + 1) =
    eagerBefore post place ++ if (post place).workload.sessionStart = .eager then [place] else [] := by
  rw [eagerBefore, List.range_succ, List.filter_append, eagerBefore]
  split <;> simp_all

theorem nodup_eagerBefore (post : Nat → Post) (place : Nat) : (eagerBefore post place).Nodup :=
  List.nodup_range.filter _

/-- The places whose sessions are open after a hiring. -/
def openAfter (post : Nat → Post) (size : Nat) : Except Stop (List Worker) → List Nat
  | .ok _ => eagerBefore post size
  | .error _ => []

/-- Hiring leaves the sessions of all eager workers open, or else none. -/
theorem hire_held {left place : Nat} {outcome : Except Stop (List Worker)}
    (hcalls : HeldAt base (eagerBefore post place) calls)
    (h : hire store.recorded base post left place (s, calls) = some (outcome, t, more)) :
    HeldAt base (openAfter post (place + left) outcome) more := by
  induction left generalizing place s calls outcome with
  | zero =>
    cases h
    exact hcalls
  | succ left ih =>
    have hshift : place + (left + 1) = place + 1 + left := by omega
    have hnot : base + place ∉ (eagerBefore post place).map (base + ·) := by
      intro hmem
      obtain ⟨i, hi, he⟩ := List.mem_map.mp hmem
      have := lt_of_mem_eagerBefore hi
      omega
    have hjoin {first : Worker} {u : σ × List Call}
        (h : Joins store.recorded (base + place) (post place) (s, calls) first u) :
        HeldAt base (eagerBefore post (place + 1)) u.2 := by
      cases h with
      | lazy mode => rwa [eagerBefore_succ, mode, if_neg (by decide), List.append_nil]
      | eager mode opened =>
        obtain ⟨_, hrecord⟩ := Store.recorded_call opened
        rw [hrecord, eagerBefore_succ, mode, if_pos rfl]
        refine hcalls.call ?_ ?_
        · intro seat hne
          simp [Ne.symm hne]
        · simp only [if_neg hnot, List.map_append, List.mem_append, List.map_cons, List.mem_cons, true_or,
            or_true, ↓reduceIte]
          rfl
    rw [hshift]
    cases hires_of_hire h with
    | joined joins rest =>
      have hheld := ih (hjoin joins) rest
      exact hheld
    | inVain joins rest => exact ih (hjoin joins) rest
    | @refused _ _ _ _ u _ _ failed dismissed =>
      obtain ⟨_, hrecord⟩ := Store.recorded_call failed
      obtain ⟨u, calls'⟩ := u
      dsimp only at hrecord
      subst hrecord
      refine dismiss_held (nodup_eagerBefore post place) (hcalls.call (fun _ _ => Iff.rfl) ?_) dismissed
      simp only [if_neg hnot]
      rfl

/-- Hiring on a store that is recorded is hiring on the store. -/
theorem hire_recorded (left place : Nat) (s : σ) (calls : List Call) :
    (hire store.recorded base post left place (s, calls)).map (fun result => (result.1, result.2.1)) =
      hire store base post left place s :=
  (hire_maps store.recorded_maps base post left place (s, calls)).symm

/-- A worker holds what its own calls leave open, from what it was hired with. -/
def HeldSince (post : Nat → Post) (place : Nat) (log : List Event) (w : Worker) : Prop :=
  (hired (post place)).stage.holding.afterAll (log.flatMap Event.exchanged) = some w.stage.holding

theorem heldSince_keeps (post : Nat → Post) : EachKeeps (HeldSince post) := by
  intro place log w event h _ hn
  rw [HeldSince, List.flatMap_append, Holding.afterAll_append h, List.flatMap_singleton]
  exact (Worker.moves_of_next hn).holding

theorem holding_hired (post : Nat → Post) {place size : Nat} (h : place < size) :
    (hired (post place)).stage.holding = if place ∈ eagerBefore post size then .session else .nothing := by
  have hmem : place ∈ eagerBefore post size ↔ (post place).workload.sessionStart = .eager := by
    simp [eagerBefore, h]
  unfold hired
  split
  · rename_i hlazy
    rw [if_neg (by rw [hmem, hlazy]; decide)]
    rfl
  · rename_i heager
    rw [if_pos (hmem.mpr heager), Worker.holding_goOn]

theorem holding_strand (p : Post) (why : Failure) :
    ((hired p).strand why).stage.holding = (hired p).stage.holding := by
  unfold hired
  split
  · rename_i hlazy
    simp [Worker.strand, Worker.new, Worker.moveTo, hlazy, Worker.Stage.holding]
  · rename_i heager
    rw [Worker.holding_goOn, Worker.strand, Worker.goOn_post, Worker.new, heager]
    rfl

theorem holding_standDown (p : Post) : (hired p).standDown.stage.holding = (hired p).stage.holding := by
  unfold hired
  split
  · rename_i hlazy
    simp [Worker.standDown, Worker.new, Worker.moveTo, hlazy, Worker.Stage.holding]
  · rename_i heager
    rw [Worker.holding_goOn, Worker.standDown, Worker.goOn_post, Worker.new, heager]
    rfl

/-- A worker that lets go of its session instead of working holds it first, as any other does. -/
theorem holding_muster {size : Nat} {workers : List Worker}
    (h : hire store base post size 0 s = some (.ok workers, t)) (short : Option Shortage)
    {i : Nat} {w : Worker}
    (hw : (muster short workers)[i]? = some w) : w.stage.holding = (hired (post i)).stage.holding := by
  have hhired {v : Worker} (hv : workers[i]? = some v) : v = hired (post i) := by
    rw [hire_hired h, List.getElem?_map] at hv
    obtain ⟨j, hj, rfl⟩ := Option.map_eq_some_iff.mp hv
    obtain ⟨_, rfl⟩ := List.getElem?_eq_some_iff.mp hj
    simp
  cases short with
  | none => rw [hhired hw]
  | some found =>
    rw [muster, List.getElem?_mapIdx] at hw
    obtain ⟨v, hv, rfl⟩ := Option.map_eq_some_iff.mp hw
    rw [hhired hv]
    split
    · rfl
    · split
      · exact holding_strand _ _
      · exact holding_standDown _

theorem mem_seats {base place : Nat} {places : List Nat} :
    base + place ∈ places.map (base + ·) ↔ place ∈ places := by simp

/-- At any time each seat holds what its worker needs, by all calls from the hiring on. -/
theorem Follows.held {size : Nat} {c d : Crew σ} {log : List Event} (h : Follows c log d)
    (hlength : c.workers.length = size)
    (hheld : ∀ i w, c.workers[i]? = some w → w.stage.holding = (hired (post i)).stage.holding)
    (hcalls : HeldAt base (eagerBefore post size) calls) (seat : Nat) :
    (∃ place w, seat = base + place ∧ d.workers[place]? = some w ∧
      Holding.nothing.afterAll (callsAt (calls ++ callsOf base log) seat) = some w.stage.holding) ∨
    Holding.nothing.afterAll (callsAt (calls ++ callsOf base log) seat) = some .nothing := by
  have hmanned := h.manned
  rw [hlength] at hmanned
  rw [callsAt_append, Holding.afterAll_append (hcalls seat)]
  by_cases hseat : ∃ place < size, base + place = seat
  · obtain ⟨place, hplace, rfl⟩ := hseat
    have heach := h.each (heldSince_keeps post) fun i w hw => congrArg some (hheld i w hw).symm
    have hlt : place < d.workers.length := by rwa [hmanned.length]
    have hw := List.getElem?_eq_getElem hlt
    refine .inl ⟨place, _, rfl, hw, ?_⟩
    rw [callsAt_callsOf]
    simp only [mem_seats, ← holding_hired post hplace]
    exact heach place _ hw
  · have hfree : seat ∉ (eagerBefore post size).map (base + ·) := by
      intro hmem
      obtain ⟨place, hplace, rfl⟩ := List.mem_map.mp hmem
      exact hseat ⟨place, lt_of_mem_eagerBefore hplace, rfl⟩
    rw [if_neg hfree, callsAt_callsOf_eq_nil fun event hevent he => hseat ⟨_, hmanned.acts hevent, he⟩]
    exact .inr rfl

end Crew

end InsertBench
