import Mathlib.Data.Multiset.Count
import Mathlib.Data.Multiset.Replicate
import InsertBench.Proofs.Latency.Samples
import InsertBench.Proofs.Latency.Slots

/-! # What a histogram holds

A histogram is known from the multiset of latencies that went into it: each slot counts the latencies that
belong to it, and a count that has no word is the greatest word. Recording adds to the multiset and merging
adds up two of them, saturated or not, so neither the order nor the grouping can be told afterwards.
-/
namespace InsertBench.Histogram

/-- A latency, and how often it was measured. -/
abbrev Sample := UInt64 × UInt64

/-- All latencies of some samples, each as often as it was measured. -/
def latencies (samples : List Sample) : Multiset UInt64 :=
  ↑(samples.flatMap fun sample => List.replicate sample.2.toNat sample.1)

def ofSamples (samples : List Sample) : Histogram :=
  samples.foldl (fun h sample => h.record sample.1 sample.2) .empty

def mergeAll (others : List Histogram) : Histogram := others.foldl .merge .empty

def addAll (h : Histogram) (entries : List (UInt64 × UInt64)) : Histogram :=
  entries.foldl (fun h entry => h.addTo entry.1 entry.2) h

theorem merge_eq_addAll (h other : Histogram) : h.merge other = h.addAll other.counts.toList := rfl

def weight (entries : List (UInt64 × UInt64)) (slot : UInt64) : Nat :=
  Word.total ((entries.filter fun entry => entry.1 = slot).map (·.2))

variable {h other : Histogram} {measured more : Multiset UInt64}

theorem total_addTo (h : Histogram) (slot n : UInt64) :
    (h.addTo slot n).total = Word.addSaturating h.total n := by
  unfold addTo
  split
  · rename_i hzero
    rw [hzero, Word.addSaturating_zero]
  · rfl

theorem toNat_count_addAll (h : Histogram) (entries : List (UInt64 × UInt64)) (slot : UInt64) :
    ((h.addAll entries).count slot).toNat =
      min ((h.count slot).toNat + weight entries slot) (UInt64.size - 1) := by
  induction entries generalizing h with
  | nil =>
    have hlt := (h.count slot).toNat_lt_size
    change (h.count slot).toNat = min ((h.count slot).toNat + 0) _
    omega
  | cons entry entries ih =>
    rw [addAll, List.foldl_cons, ← addAll, ih, count_addTo, weight, weight, List.filter_cons]
    by_cases hslot : entry.1 = slot
    · rw [if_pos hslot, if_pos (by simpa using hslot), List.map_cons, Word.total, Word.toNat_addSaturating]
      omega
    · rw [if_neg hslot, if_neg (by simpa using hslot)]

theorem toNat_total_addAll (h : Histogram) (entries : List (UInt64 × UInt64)) :
    (h.addAll entries).total.toNat =
      min (h.total.toNat + Word.total (entries.map (·.2))) (UInt64.size - 1) := by
  induction entries generalizing h with
  | nil =>
    have hlt := h.total.toNat_lt_size
    change h.total.toNat = min (h.total.toNat + 0) _
    omega
  | cons entry entries ih =>
    rw [addAll, List.foldl_cons, ← addAll, ih, total_addTo, Word.toNat_addSaturating,
      List.map_cons, Word.total]
    omega

theorem weight_toList (h : Histogram) (slot : UInt64) :
    weight h.counts.toList slot = (h.count slot).toNat := by
  have hothers : (others h.counts slot).filter (fun entry => entry.1 = slot) = [] := by
    rw [List.filter_eq_nil_iff]
    intro entry hmem
    have hne := (List.mem_filter.mp hmem).2
    simpa using hne
  rw [weight, Word.total_perm (((toList_perm h.counts slot).filter _).map _), List.filter_append,
    hothers, count]
  cases h.counts[slot]? with
  | none => rfl
  | some n => simp [Word.total]

/-- No slot is kept without a count, and the total is that of all counts, as far as it has a word. -/
structure Sound (h : Histogram) : Prop where
  counted (slot : UInt64) : h.counts[slot]? ≠ some 0
  capped : h.total.toNat = min h.recorded (UInt64.size - 1)

theorem sound_empty : Sound empty where
  counted slot := by simp [empty]
  capped := by
    have hrecorded : empty.recorded = 0 := faithful_empty
    rw [hrecorded]
    rfl

theorem Sound.addTo (hs : h.Sound) (slot n : UInt64) : (h.addTo slot n).Sound := by
  unfold Histogram.addTo
  split
  · exact hs
  · rename_i hn
    have hword : 0 < n.toNat := Nat.pos_of_ne_zero fun he => hn (UInt64.toNat_inj.mp he)
    have hadd := Word.toNat_addSaturating (h.count slot) n
    constructor
    · intro other
      rw [Std.ExtTreeMap.getElem?_insert]
      split
      · intro he
        rw [Option.some.inj he, UInt64.toNat_zero, UInt64.size] at hadd
        omega
      · exact hs.counted other
    · -- the slot's count saturates only if the sum of all counts has no word either
      have hsum : Word.total ((h.counts.insert slot (Word.addSaturating (h.count slot) n)).toList.map (·.2)) +
          (h.count slot).toNat = h.recorded + (Word.addSaturating (h.count slot) n).toNat :=
        total_insert h.counts slot _
      have hle := h.count_le_recorded slot
      have hlt := (h.count slot).toNat_lt_size
      have hcapped := hs.capped
      dsimp only [recorded]
      rw [Word.toNat_addSaturating, hcapped]
      omega

theorem Sound.addAll (hs : h.Sound) (entries : List (UInt64 × UInt64)) : (h.addAll entries).Sound := by
  induction entries generalizing h with
  | nil => exact hs
  | cons entry entries ih => exact ih (hs.addTo entry.1 entry.2)

/-- A histogram of certain latencies: so many of them as belong to a slot are counted there. -/
structure Holds (h : Histogram) (measured : Multiset UInt64) : Prop where
  sound : h.Sound
  count (slot : UInt64) :
    (h.count slot).toNat = min (measured.countP fun value => slotOf value = slot) (UInt64.size - 1)
  total : h.total.toNat = min measured.card (UInt64.size - 1)

theorem Holds.unique (hh : h.Holds measured) (ho : other.Holds measured) : h = other := by
  have htotal : h.total = other.total := UInt64.toNat_inj.mp (hh.total.trans ho.total.symm)
  have hcounts : h.counts = other.counts := by
    apply Std.ExtTreeMap.ext_getElem?
    intro slot
    have hcount : h.counts[slot]?.getD 0 = other.counts[slot]?.getD 0 :=
      UInt64.toNat_inj.mp ((hh.count slot).trans (ho.count slot).symm)
    have hnonzero := hh.sound.counted slot
    have hnonzero' := ho.sound.counted slot
    cases hfound : h.counts[slot]? <;> cases hfound' : other.counts[slot]? <;> simp_all
  cases h
  cases other
  cases htotal
  cases hcounts
  rfl

/-- All histograms have the same slots. One that counts in no other place can be merged into any of them. -/
def Mergeable (other : Histogram) : Prop := ∀ slot, other.count slot ≠ 0 → IsSlot slot

theorem Holds.mergeable (hh : h.Holds measured) : h.Mergeable := by
  intro slot hcounted
  have hpos : 0 < (h.count slot).toNat := Nat.pos_of_ne_zero fun he => hcounted (UInt64.toNat_inj.mp he)
  rw [hh.count] at hpos
  obtain ⟨value, -, rfl⟩ := Multiset.countP_pos.mp (hpos.trans_le (Nat.min_le_left ..))
  exact isSlot_slotOf value

theorem holds_empty : empty.Holds 0 where
  sound := sound_empty
  count slot := by simp [count, empty]
  total := rfl

theorem Holds.record (hh : h.Holds measured) (value n : UInt64) :
    (h.record value n).Holds (measured + Multiset.replicate n.toNat value) where
  sound := hh.sound.addTo _ _
  count slot := by
    rw [Histogram.record, count_addTo, Multiset.countP_add, ← Multiset.coe_replicate, Multiset.coe_countP,
      List.countP_replicate]
    have hcount := hh.count slot
    by_cases hslot : slotOf value = slot
    · rw [if_pos hslot, if_pos (by simpa using hslot), Word.toNat_addSaturating, hcount]
      omega
    · rw [if_neg hslot, if_neg (by simpa using hslot), hcount, Nat.add_zero]
  total := by
    rw [Histogram.record, total_addTo, Word.toNat_addSaturating, hh.total, Multiset.card_add,
      Multiset.card_replicate]
    omega

theorem Holds.merge (hh : h.Holds measured) (ho : other.Holds more) :
    (h.merge other).Holds (measured + more) where
  sound := hh.sound.addAll _
  count slot := by
    rw [merge_eq_addAll, toNat_count_addAll, weight_toList, hh.count, ho.count, Multiset.countP_add]
    omega
  total := by
    -- the counts that are merged may be saturated: their sum has no word then, like the number of latencies
    have hcapped := ho.sound.capped
    rw [ho.total] at hcapped
    rw [merge_eq_addAll, toNat_total_addAll, hh.total, Multiset.card_add]
    change min (_ + other.recorded) _ = _
    omega

theorem latencies_cons (sample : Sample) (samples : List Sample) :
    latencies (sample :: samples) = Multiset.replicate sample.2.toNat sample.1 + latencies samples := by
  rw [latencies, List.flatMap_cons, ← Multiset.coe_add, Multiset.coe_replicate]
  rfl

theorem latencies_append (samples more : List Sample) :
    latencies (samples ++ more) = latencies samples + latencies more := by
  rw [latencies, List.flatMap_append, ← Multiset.coe_add]
  rfl

theorem Holds.records (hh : h.Holds measured) (samples : List Sample) :
    (samples.foldl (fun h sample => h.record sample.1 sample.2) h).Holds (measured + latencies samples) := by
  induction samples generalizing h measured with
  | nil => exact (Multiset.add_zero measured).symm ▸ hh
  | cons sample samples ih =>
    have hrest := ih (hh.record sample.1 sample.2)
    rwa [Multiset.add_assoc, ← latencies_cons] at hrest

theorem holds_ofSamples (samples : List Sample) : (ofSamples samples).Holds (latencies samples) := by
  have h := holds_empty.records samples
  rwa [Multiset.zero_add] at h

/-- Merging one histogram after another adds up the latencies of all. -/
theorem Holds.merges (hh : h.Holds measured) (shares : List (List Sample)) :
    ((shares.map ofSamples).foldl .merge h).Holds (measured + latencies shares.flatten) := by
  induction shares generalizing h measured with
  | nil => exact (Multiset.add_zero measured).symm ▸ hh
  | cons share shares ih =>
    have hrest := ih (hh.merge (holds_ofSamples share))
    rwa [Multiset.add_assoc, ← latencies_append] at hrest

theorem holds_mergeAll (shares : List (List Sample)) :
    (mergeAll (shares.map ofSamples)).Holds (latencies shares.flatten) := by
  have h := holds_empty.merges shares
  rwa [Multiset.zero_add] at h

/-- Shares that make up the same latencies merge to the histogram that records them all. -/
theorem mergeAll_eq_ofSamples {shares : List (List Sample)} {alone : List Sample}
    (h : latencies shares.flatten = latencies alone) : mergeAll (shares.map ofSamples) = ofSamples alone :=
  (holds_mergeAll shares).unique (h ▸ holds_ofSamples alone)

end InsertBench.Histogram
