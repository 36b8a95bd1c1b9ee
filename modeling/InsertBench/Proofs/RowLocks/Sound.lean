import InsertBench.Proofs.RowLocks.Effect

/-! # The lock table and the writes of open transactions

In a sound store the locks of a table are exactly the keys that its open transactions have written
and not let go of, no two of them share a key, and a key that is still to be committed is in no row.
Every operation keeps a store sound, whoever performs it.
-/
namespace InsertBench.RowLocks

structure Sound (s : RowLocks) : Prop where
  lock_of_write {seat : Nat} {name : String} {txn : Txn} {key : Int64} :
    s.sessions[seat]? = some ⟨name, some txn⟩ → key ∈ txn.keys →
      (s.table name).locks[key]? = some txn.id
  write_of_lock {name : String} {key : Int64} {id : UInt64} :
    (s.table name).locks[key]? = some id →
      ∃ (seat : Nat) (txn : Txn), s.sessions[seat]? = some ⟨name, some txn⟩ ∧ txn.id = id ∧ key ∈ txn.keys
  apart {seat other : Nat} {name : String} {txn otherTxn : Txn} {key : Int64} :
    s.sessions[seat]? = some ⟨name, some txn⟩ → s.sessions[other]? = some ⟨name, some otherTxn⟩ →
      key ∈ txn.keys → key ∈ otherTxn.keys → seat = other
  distinct {seat : Nat} {name : String} {txn : Txn} :
    s.sessions[seat]? = some ⟨name, some txn⟩ → txn.keys.Nodup
  fresh {seat : Nat} {name : String} {txn : Txn} {key : Int64} :
    s.sessions[seat]? = some ⟨name, some txn⟩ → txn.phase = .live → key ∈ txn.keys →
      key ∉ (s.table name).rows
  emptied {seat : Nat} {name : String} {txn : Txn} :
    s.sessions[seat]? = some ⟨name, some txn⟩ → txn.phase = .released → txn.writes = []

/-- In sound stores the locks of a table are determined by the transactions on it. -/
theorem Sound.locks_eq {s t : RowLocks} (hs : Sound s) (ht : Sound t) {name : String}
    (h : ∀ (seat : Nat) (txn : Txn),
      t.sessions[seat]? = some ⟨name, some txn⟩ ↔ s.sessions[seat]? = some ⟨name, some txn⟩) :
    (t.table name).locks = (s.table name).locks := by
  apply Std.ExtTreeMap.ext_getElem?
  intro key
  apply Option.ext
  intro id
  constructor
  · intro hlock
    obtain ⟨seat, txn, hf, rfl, hkey⟩ := ht.write_of_lock hlock
    exact hs.lock_of_write ((h seat txn).mp hf) hkey
  · intro hlock
    obtain ⟨seat, txn, hf, rfl, hkey⟩ := hs.write_of_lock hlock
    exact ht.lock_of_write ((h seat txn).mpr hf) hkey

/-- The keys that are written through a session and not let go of. -/
def heldKeys : Option Session → List Int64
  | some ⟨_, some txn⟩ => txn.keys
  | _ => []

theorem mem_heldKeys {session : Option Session} {key : Int64} : key ∈ heldKeys session ↔
    ∃ (name : String) (txn : Txn), session = some ⟨name, some txn⟩ ∧ key ∈ txn.keys := by
  constructor
  · intro hkey
    cases session with
    | none => simp [heldKeys] at hkey
    | some found =>
      obtain ⟨name, open?⟩ := found
      cases open? with
      | none => simp [heldKeys] at hkey
      | some txn => exact ⟨name, txn, rfl, hkey⟩
  · rintro ⟨name, txn, rfl, hkey⟩
    exact hkey

/-- What the session and the table that an operation leaves behind have to do with those it found. -/
structure Keeps (before : Option Session) (old : Table) (name : String) (after : Option Session)
    (new : Table) : Prop where
  sameTable {session : Session} : before = some session ∨ after = some session → session.table = name
  locked {txn : Txn} {key : Int64} :
    after = some ⟨name, some txn⟩ → key ∈ txn.keys → new.locks[key]? = some txn.id
  unlocked {key : Int64} : key ∈ heldKeys before → key ∉ heldKeys after → new.locks[key]? = none
  otherLocks {key : Int64} :
    key ∉ heldKeys before → key ∉ heldKeys after → new.locks[key]? = old.locks[key]?
  taken {key : Int64} : key ∈ heldKeys after → key ∈ heldKeys before ∨ old.locks[key]? = none
  distinct : (heldKeys after).Nodup
  fresh {txn : Txn} {key : Int64} :
    after = some ⟨name, some txn⟩ → txn.phase = .live → key ∈ txn.keys → key ∉ new.rows
  grown {key : Int64} : key ∈ new.rows → key ∈ old.rows ∨ key ∈ heldKeys before
  emptied {txn : Txn} : after = some ⟨name, some txn⟩ → txn.phase = .released → txn.writes = []

variable {s t : RowLocks} {seat : Nat} {name : String} {session : Option Session} {table : Table}

theorem Sound.not_held (h : Sound s)
    (hk : Keeps s.sessions[seat]? (s.table name) name session table) {other : Nat} {txn : Txn}
    {key : Int64} (hne : seat ≠ other) (hother : s.sessions[other]? = some ⟨name, some txn⟩)
    (hkey : key ∈ txn.keys) : key ∉ heldKeys s.sessions[seat]? ∧ key ∉ heldKeys session := by
  have hbefore : key ∉ heldKeys s.sessions[seat]? := by
    intro hheld
    obtain ⟨other', mine, hs, hmine⟩ := mem_heldKeys.mp hheld
    obtain rfl : other' = name := hk.sameTable (.inl hs)
    exact hne (h.apart hs hother hmine hkey)
  refine ⟨hbefore, ?_⟩
  intro hheld
  rcases hk.taken hheld with h' | h'
  · exact hbefore h'
  · rw [h.lock_of_write hother hkey] at h'
    cases h'

theorem Sound.holder_of_keeps (h : Sound s) (hb : Becomes s seat session name table t)
    (hk : Keeps s.sessions[seat]? (s.table name) name session table) {name' : String} {key : Int64}
    {id : UInt64} (hlock : (t.table name').locks[key]? = some id) :
    ∃ (other : Nat) (txn : Txn), t.sessions[other]? = some ⟨name', some txn⟩ ∧ txn.id = id ∧
      key ∈ txn.keys := by
  rw [hb.tables] at hlock
  split at hlock
  · rename_i he
    subst he
    by_cases hafter : key ∈ heldKeys session
    · obtain ⟨other, txn, hs, hkey⟩ := mem_heldKeys.mp hafter
      obtain rfl : other = name := hk.sameTable (.inr hs)
      refine ⟨seat, txn, hb.here.trans hs, ?_, hkey⟩
      rw [hk.locked hs hkey] at hlock
      exact Option.some.inj hlock
    · by_cases hbefore : key ∈ heldKeys s.sessions[seat]?
      · rw [hk.unlocked hbefore hafter] at hlock
        cases hlock
      · rw [hk.otherLocks hbefore hafter] at hlock
        obtain ⟨other, txn, hf, hid, hkey⟩ := h.write_of_lock hlock
        have hne : seat ≠ other := by
          rintro rfl
          exact hbefore (mem_heldKeys.mpr ⟨_, txn, hf, hkey⟩)
        exact ⟨other, txn, by rw [hb.sessions, if_neg hne, hf], hid, hkey⟩
  · rename_i hne
    obtain ⟨other, txn, hf, hid, hkey⟩ := h.write_of_lock hlock
    have hother : seat ≠ other := by
      rintro rfl
      exact hne (hk.sameTable (.inl hf)).symm
    exact ⟨other, txn, by rw [hb.sessions, if_neg hother, hf], hid, hkey⟩

theorem Sound.of_keeps (h : Sound s) (hb : Becomes s seat session name table t)
    (hk : Keeps s.sessions[seat]? (s.table name) name session table) : Sound t := by
  -- a session of `t` is the one left behind at the seat, or an old one at another seat
  have hsession {other : Nat} {found : Session} (hf : t.sessions[other]? = some found) :
      other = seat ∧ session = some found ∧ found.table = name ∨
        seat ≠ other ∧ s.sessions[other]? = some found := by
    rw [hb.sessions] at hf
    split at hf
    · rename_i he
      exact .inl ⟨he.symm, hf, hk.sameTable (.inr hf)⟩
    · rename_i hne
      exact .inr ⟨hne, hf⟩
  constructor
  case lock_of_write =>
    intro other name' txn key hf hkey
    rw [hb.tables]
    rcases hsession hf with ⟨rfl, hf, rfl⟩ | ⟨hne, hf⟩
    · rw [if_pos rfl]
      exact hk.locked hf hkey
    · split
      · rename_i he
        subst he
        have hnot := h.not_held hk hne hf hkey
        rw [hk.otherLocks hnot.1 hnot.2]
        exact h.lock_of_write hf hkey
      · exact h.lock_of_write hf hkey
  case write_of_lock => exact h.holder_of_keeps hb hk
  case apart =>
    intro one other name' txn otherTxn key hf hf' hkey hkey'
    rcases hsession hf with ⟨rfl, hf, rfl⟩ | ⟨hne, hf⟩ <;>
      rcases hsession hf' with ⟨rfl, hf', hname⟩ | ⟨hne', hf'⟩
    · rfl
    · exact absurd (mem_heldKeys.mpr ⟨_, txn, hf, hkey⟩) (h.not_held hk hne' hf' hkey').2
    · subst hname
      exact absurd (mem_heldKeys.mpr ⟨_, otherTxn, hf', hkey'⟩) (h.not_held hk hne hf hkey).2
    · exact h.apart hf hf' hkey hkey'
  case distinct =>
    intro other name' txn hf
    rcases hsession hf with ⟨_, hf, _⟩ | ⟨_, hf⟩
    · simpa only [hf, heldKeys] using hk.distinct
    · exact h.distinct hf
  case fresh =>
    intro other name' txn key hf hlive hkey
    rw [hb.tables]
    rcases hsession hf with ⟨_, hf, rfl⟩ | ⟨hne, hf⟩
    · rw [if_pos rfl]
      exact hk.fresh hf hlive hkey
    · split
      · rename_i he
        subst he
        intro hrow
        rcases hk.grown hrow with hold | hheld
        · exact h.fresh hf hlive hkey hold
        · exact (h.not_held hk hne hf hkey).1 hheld
      · exact h.fresh hf hlive hkey
  case emptied =>
    intro other name' txn hf hphase
    rcases hsession hf with ⟨_, hf, rfl⟩ | ⟨_, hf⟩
    · exact hk.emptied hf hphase
    · exact h.emptied hf hphase

theorem table_of_here {before after : Option Txn} {session : Session}
    (hs : s.sessions[seat]? = some ⟨name, before⟩)
    (hf : s.sessions[seat]? = some session ∨ some ⟨name, after⟩ = some session) : session.table = name := by
  rw [hs] at hf
  rcases hf with hf | hf <;> cases hf <;> rfl

theorem keeps_idle {before after : Option Session}
    (hname : ∀ session, before = some session ∨ after = some session → session.table = name)
    (hbefore : heldKeys before = []) (hafter : heldKeys after = [])
    (hlive : ∀ txn, after = some ⟨name, some txn⟩ → txn.phase = .live) :
    Keeps before table name after table where
  sameTable := hname _
  locked {txn key} h hkey := by
    rw [h] at hafter
    exact absurd hkey (List.eq_nil_iff_forall_not_mem.mp hafter key)
  unlocked h _ := by simp [hbefore] at h
  otherLocks _ _ := rfl
  taken h := by simp [hafter] at h
  distinct := by simp [hafter]
  fresh {txn key} h _ hkey := by
    rw [h] at hafter
    exact absurd hkey (List.eq_nil_iff_forall_not_mem.mp hafter key)
  grown h := .inl h
  emptied {txn} h hphase := by
    rw [hlive txn h] at hphase
    cases hphase

theorem Sound.keeps_writes (h : Sound s) {txn next : Txn} {rows : Rows}
    (hs : s.sessions[seat]? = some ⟨name, some txn⟩) (hid : next.id = txn.id)
    (hwrites : next.writes = txn.writes) (hphase : next.phase ≠ .released)
    (hrows : ∀ key ∈ rows, key ∈ (s.table name).rows ∨ key ∈ txn.keys)
    (hfresh : next.phase = .live → ∀ key ∈ txn.keys, key ∉ rows) :
    Keeps s.sessions[seat]? (s.table name) name (some ⟨name, some next⟩)
      { s.table name with rows := rows } where
  sameTable := table_of_here hs
  locked {later key} hf hkey := by
    cases hf
    rw [hid]
    exact h.lock_of_write hs (by simpa only [Txn.keys, hwrites] using hkey)
  unlocked {key} hbefore hafter := by
    simp only [hs, heldKeys, Txn.keys, hwrites] at hbefore hafter
    exact absurd hbefore hafter
  otherLocks _ _ := rfl
  taken {key} hafter := by
    simp only [heldKeys, Txn.keys, hwrites] at hafter
    exact .inl (by simpa only [hs, heldKeys, Txn.keys] using hafter)
  distinct := by simpa only [heldKeys, Txn.keys, hwrites] using h.distinct hs
  fresh {later key} hf hlive hkey := by
    cases hf
    exact hfresh hlive key (by simpa only [Txn.keys, hwrites] using hkey)
  grown {key} hkey := by simpa only [hs, heldKeys] using hrows key hkey
  emptied {later} hf hreleased := by
    cases hf
    exact absurd hreleased hphase

theorem Sound.keeps_release (h : Sound s) {txn : Txn} {after : Option Txn}
    (hs : s.sessions[seat]? = some ⟨name, some txn⟩)
    (hafter : ∀ next, after = some next → next.writes = [] ∧ next.phase = .released) :
    Keeps s.sessions[seat]? (s.table name) name (some ⟨name, after⟩)
      { s.table name with locks := unlock (s.table name).locks txn } := by
  have hheld : heldKeys (some ⟨name, after⟩) = [] := by
    cases after with
    | none => rfl
    | some next => simp [heldKeys, Txn.keys, (hafter next rfl).1]
  constructor
  case sameTable => exact table_of_here hs
  case locked =>
    intro next key hf hkey
    rw [hf] at hheld
    exact absurd hkey (List.eq_nil_iff_forall_not_mem.mp hheld key)
  case unlocked =>
    intro key hbefore _
    simp only [hs, heldKeys] at hbefore
    simp only [getElem?_unlock, hbefore, h.lock_of_write hs hbefore, and_self, ↓reduceIte]
  case otherLocks =>
    intro key hbefore _
    simp only [hs, heldKeys] at hbefore
    simp only [getElem?_unlock, hbefore, false_and, ↓reduceIte]
  case taken =>
    intro key hkey
    simp [hheld] at hkey
  case distinct => simp [hheld]
  case fresh =>
    intro next key hf hlive hkey
    rw [hf] at hheld
    exact absurd hkey (List.eq_nil_iff_forall_not_mem.mp hheld key)
  case grown => exact .inl
  case emptied =>
    intro next hf _
    exact (hafter next (congrArg Session.txn (Option.some.inj hf))).1

theorem Sound.keeps_insert (h : Sound s) {txn : Txn} {key : Int64} {value : Bytes}
    (hs : s.sessions[seat]? = some ⟨name, some txn⟩) (hlive : txn.phase = .live)
    (hlock : (s.table name).locks[key]? = none) (hrow : key ∉ (s.table name).rows) :
    Keeps s.sessions[seat]? (s.table name) name
      (some ⟨name, some { txn with writes := (key, value) :: txn.writes }⟩)
      { s.table name with locks := (s.table name).locks.insert key txn.id } := by
  have hnew : key ∉ txn.keys := by
    intro hkey
    rw [h.lock_of_write hs hkey] at hlock
    cases hlock
  constructor
  case sameTable => exact table_of_here hs
  case locked =>
    intro next other hf hkey
    cases hf
    simp only [Std.ExtTreeMap.getElem?_insert, Std.LawfulEqCmp.compare_eq_iff_eq]
    split
    · rfl
    · rename_i hne
      rcases List.mem_cons.mp hkey with rfl | hkey
      · exact absurd rfl hne
      · exact h.lock_of_write hs hkey
  case unlocked =>
    intro other hbefore hafter
    simp only [hs, heldKeys] at hbefore hafter
    exact absurd (List.mem_cons_of_mem _ hbefore) hafter
  case otherLocks =>
    intro other _ hafter
    have hne : key ≠ other := by
      rintro rfl
      exact hafter (List.mem_cons_self ..)
    simp only [Std.ExtTreeMap.getElem?_insert, Std.LawfulEqCmp.compare_eq_iff_eq, hne, ↓reduceIte]
  case taken =>
    intro other hafter
    rcases List.mem_cons.mp hafter with rfl | hkey
    · exact .inr hlock
    · apply Or.inl
      rw [hs]
      exact hkey
  case distinct => exact List.nodup_cons.mpr ⟨hnew, h.distinct hs⟩
  case fresh =>
    intro next other hf _ hkey
    cases hf
    rcases List.mem_cons.mp hkey with rfl | hkey
    · exact hrow
    · exact h.fresh hs hlive hkey
  case grown => exact .inl
  case emptied =>
    intro next hf hphase
    cases hf
    rw [hlive] at hphase
    cases hphase

theorem mem_withWrites {rows : Rows} {writes : List (Int64 × Bytes)} {key : Int64} :
    key ∈ withWrites rows writes ↔ key ∈ rows ∨ key ∈ writes.map Prod.fst := by
  rw [Std.ExtTreeMap.mem_iff_isSome_getElem?, Std.ExtTreeMap.mem_iff_isSome_getElem?,
    getElem?_withWrites, Option.isSome_or, Bool.or_eq_true, or_comm]
  apply or_congr_right
  induction writes with
  | nil => simp
  | cons entry writes ih =>
    rw [List.lookup_cons]
    by_cases hkey : key = entry.1
    · simp [hkey]
    · simp [hkey, ih, beq_false_of_ne]

theorem Sound.effect (h : Sound s) {op : Operation} {reply : Reply}
    (he : Effect s seat op reply session name table) :
    Keeps s.sessions[seat]? (s.table name) name session table := by
  have hopen {txn : Txn} (hs : s.sessions[seat]? = some ⟨name, some txn⟩) (hlive : txn.phase = .live) :
      Keeps s.sessions[seat]? (s.table name) name (some ⟨name, some txn⟩) (s.table name) :=
    h.keeps_writes hs rfl rfl (by rw [hlive]; decide) (fun _ => .inl) (fun _ _ => h.fresh hs hlive)
  cases he with
  | opened free =>
    rw [free]
    refine keeps_idle ?_ rfl rfl (fun txn h => by cases h)
    rintro _ (hf | hf) <;> cases hf
    rfl
  | begun idle =>
    rw [idle]
    refine keeps_idle ?_ rfl rfl (fun txn h => by cases h; rfl)
    rintro _ (hf | hf) <;> cases hf <;> rfl
  | inserted here live _ unlocked absent => exact h.keeps_insert here live unlocked absent
  | declined here live _ => exact hopen here live
  | prepared here live _ =>
    exact h.keeps_writes here rfl rfl (by simp [live]) (fun _ => .inl) (fun _ _ => h.fresh here live)
  | preparedBefore here live _ => exact hopen here live
  | applied here live =>
    exact h.keeps_writes here rfl rfl (by simp) (fun key hkey => mem_withWrites.mp hkey)
      (fun hphase => by cases hphase)
  | released here _ => exact h.keeps_release here (fun next hn => by cases hn; exact ⟨rfl, rfl⟩)
  | dropped here _ => exact h.keeps_release here (fun next hn => by cases hn)
  | closed idle =>
    rw [idle]
    refine keeps_idle ?_ rfl rfl (fun txn h => by cases h)
    rintro _ (hf | hf) <;> cases hf
    rfl

theorem Sound.step (h : Sound s) {op : Operation} {reply : Reply}
    (hs : s.step seat op = some (reply, t)) : Sound t := by
  obtain ⟨session, name, table, heffect, hbecomes⟩ := step_effect hs
  exact h.of_keeps hbecomes (h.effect heffect)

theorem Sound.performs (hsound : Sound s) (seat : Nat) (op : Operation)
    (hs : (s.step seat op).isSome = true) :
    ∃ reply t session name table, s.step seat op = some (reply, t) ∧ Sound t ∧
      Effect s seat op reply session name table ∧ Becomes s seat session name table t := by
  obtain ⟨⟨reply, t⟩, hs⟩ := Option.isSome_iff_exists.mp hs
  obtain ⟨session, name, table, heffect, hbecomes⟩ := step_effect hs
  exact ⟨reply, t, session, name, table, hs, hsound.step hs, heffect, hbecomes⟩

theorem exists_dropped (hsound : Sound s) {own : Txn} (hown : s.sessions[seat]? = some ⟨name, some own⟩)
    (hphase : own.phase ≠ .applied) :
    ∃ t, s.step seat .dropTxn = some (.ok .accepted, t) ∧ Sound t ∧
      Becomes s seat (some ⟨name, none⟩) name
        { s.table name with locks := unlock (s.table name).locks own } t := by
  obtain ⟨_, t, _, _, _, hs, ht, heffect, hbecomes⟩ := hsound.performs seat .dropTxn
    (by simp [step, dropTxn, txn?_eq_some hown, hphase])
  cases heffect with
  | dropped hmine _ =>
    cases hown.symm.trans hmine
    exact ⟨t, hs, ht, hbecomes⟩

theorem exists_unlocked (hsound : Sound s) {own : Txn} (hown : s.sessions[seat]? = some ⟨name, some own⟩)
    (hphase : own.phase ≠ .released) :
    ∃ t, s.step seat .releaseLocks = some (.ok .accepted, t) ∧ Sound t ∧
      Becomes s seat (some ⟨name, some { own with writes := [], phase := .released }⟩) name
        { s.table name with locks := unlock (s.table name).locks own } t := by
  obtain ⟨_, t, _, _, _, hs, ht, heffect, hbecomes⟩ := hsound.performs seat .releaseLocks
    (by simp [step, releaseLocks, txn?_eq_some hown, hphase])
  cases heffect with
  | released hmine _ =>
    cases hown.symm.trans hmine
    exact ⟨t, hs, ht, hbecomes⟩

/-- The last two operations of a commit, which are all there is to an abort: the second one finds no
locks to release. -/
theorem exists_released (hsound : Sound s) {own : Txn} (hown : s.sessions[seat]? = some ⟨name, some own⟩)
    (hphase : own.phase ≠ .released) (reply : Reply) :
    ∃ t, s.steps seat reply [.releaseLocks, .dropTxn] = some (.ok .accepted, t) ∧ Sound t ∧
      Becomes s seat (some ⟨name, none⟩) name
        { s.table name with locks := unlock (s.table name).locks own } t := by
  obtain ⟨a, hs, ha, hunlocked⟩ := exists_unlocked hsound hown hphase
  obtain ⟨t, hdrop, ht, hdropped⟩ := exists_dropped ha hunlocked.here (by simp)
  rw [hunlocked.table_here] at hdropped
  exact ⟨t, by simp [steps, hs, hdrop], ht, hunlocked.trans hdropped⟩

/-- A committed row is never replaced or removed. -/
theorem Sound.rows_kept (h : Sound s) {op : Operation} {reply : Reply}
    (hs : s.step seat op = some (reply, t)) {other : String} {key : Int64} {value : Bytes}
    (hrow : (s.table other).rows[key]? = some value) : (t.table other).rows[key]? = some value := by
  obtain ⟨session, name, table, heffect, hb⟩ := step_effect hs
  rw [hb.tables]
  split
  · rename_i he
    subst he
    cases heffect with
    | @applied _ txn here live =>
      have hkey : key ∉ txn.writes.map Prod.fst := by
        intro hkey
        apply h.fresh here live hkey
        exact mem_rows_iff.mpr ⟨_, hrow⟩
      rw [getElem?_withWrites, lookup_eq_none_iff.mpr hkey, hrow]
      rfl
    | _ => exact hrow
  · exact hrow

/-- Nobody is at work on the store: no session is open and no key is locked. -/
structure Quiescent (s : RowLocks) : Prop where
  sessions (seat : Nat) : s.sessions[seat]? = none
  locks (name : String) (key : Int64) : (s.table name).locks[key]? = none

theorem quiescent_empty : Quiescent empty where
  sessions _ := rfl
  locks _ _ := by simp [RowLocks.table, empty, Table.empty]

def holding (name : String) (rows : Rows) : RowLocks := empty.setTable name ⟨rows, {}⟩

theorem quiescent_holding (name : String) (rows : Rows) : Quiescent (holding name rows) where
  sessions _ := rfl
  locks other key := by
    rw [holding, table_setTable]
    split
    · simp
    · exact quiescent_empty.locks other key

theorem Quiescent.sound (h : Quiescent s) : Sound s where
  lock_of_write hf := by simp [h.sessions] at hf
  write_of_lock hlock := by simp [h.locks] at hlock
  apart hf := by simp [h.sessions] at hf
  distinct hf := by simp [h.sessions] at hf
  fresh hf := by simp [h.sessions] at hf
  emptied hf := by simp [h.sessions] at hf

end InsertBench.RowLocks
