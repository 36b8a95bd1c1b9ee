import Mathlib.Data.List.Perm.Basic
import Mathlib.Data.List.Nodup
import InsertBench.Latency.Quantile

/-! # How many values a histogram holds

As long as the number of values has a word, no count saturates: recording and merging add up exactly,
and the counts of all slots sum up to the total.
-/
namespace InsertBench

theorem Word.total_perm {xs ys : List UInt64} (h : xs.Perm ys) : Word.total xs = Word.total ys := by
  induction h with
  | nil => rfl
  | cons x _ ih => rw [Word.total, Word.total, ih]
  | swap x y rest =>
    simp only [Word.total]
    omega
  | trans _ _ ih ih' => exact ih.trans ih'

namespace Histogram

/-- The counts of all slots sum up to the total. -/
def Faithful (h : Histogram) : Prop := h.recorded = h.total.toNat

theorem nodup_toList (counts : Std.ExtTreeMap UInt64 UInt64) : counts.toList.Nodup := by
  apply counts.distinct_keys_toList.imp
  rintro a _ hne rfl
  exact hne (Std.ReflCmp.compare_self)

def others (counts : Std.ExtTreeMap UInt64 UInt64) (slot : UInt64) : List (UInt64 × UInt64) :=
  counts.toList.filter fun entry => entry.1 ≠ slot

theorem toList_insert_perm (counts : Std.ExtTreeMap UInt64 UInt64) (slot n : UInt64) :
    (counts.insert slot n).toList.Perm ((slot, n) :: others counts slot) := by
  rw [List.perm_ext_iff_of_nodup (nodup_toList _)]
  · rintro ⟨key, value⟩
    rw [Std.ExtTreeMap.mem_toList_iff_getElem?_eq_some, Std.ExtTreeMap.getElem?_insert]
    simp only [Std.LawfulEqCmp.compare_eq_iff_eq, others, List.mem_cons, Prod.mk.injEq, List.mem_filter,
      Std.ExtTreeMap.mem_toList_iff_getElem?_eq_some, decide_not, Bool.not_eq_true', decide_eq_false_iff_not]
    by_cases he : slot = key
    · subst he
      simp [eq_comm]
    · simp [he, Ne.symm he]
  · refine List.nodup_cons.mpr ⟨?_, (nodup_toList _).filter _⟩
    simp [others]

theorem toList_perm (counts : Std.ExtTreeMap UInt64 UInt64) (slot : UInt64) :
    counts.toList.Perm ((counts[slot]?.map (slot, ·)).toList ++ others counts slot) := by
  rw [List.perm_ext_iff_of_nodup (nodup_toList _)]
  · rintro ⟨key, value⟩
    simp only [others, List.mem_append, List.mem_filter, Std.ExtTreeMap.mem_toList_iff_getElem?_eq_some,
      Option.mem_toList, Option.map_eq_some_iff, Prod.mk.injEq, decide_not, Bool.not_eq_true',
      decide_eq_false_iff_not]
    by_cases he : key = slot
    · subst he
      simp
    · simp [he, Ne.symm he]
  · cases hs : counts[slot]? with
    | none => exact (nodup_toList _).filter _
    | some n =>
      refine List.nodup_cons.mpr ⟨?_, (nodup_toList _).filter _⟩
      simp [others]

theorem total_insert (counts : Std.ExtTreeMap UInt64 UInt64) (slot n : UInt64) :
    Word.total ((counts.insert slot n).toList.map (·.2)) + (counts[slot]?.getD (0 : UInt64)).toNat =
      Word.total (counts.toList.map (·.2)) + n.toNat := by
  rw [Word.total_perm ((toList_insert_perm counts slot n).map _),
    Word.total_perm ((toList_perm counts slot).map _)]
  cases counts[slot]? with
  | none =>
    simp only [List.map_cons, Word.total, Option.getD_none, UInt64.toNat_zero, Option.map_none,
      Option.toList_none, List.nil_append]
    omega
  | some m =>
    simp only [List.map_cons, Word.total, Option.getD_some, Option.map_some, Option.toList_some,
      List.cons_append, List.nil_append]
    omega

theorem count_le_recorded (h : Histogram) (slot : UInt64) : (h.count slot).toNat ≤ h.recorded := by
  rw [count, recorded, Word.total_perm ((toList_perm h.counts slot).map _), List.map_append,
    Word.total_append]
  cases h.counts[slot]? with
  | none => simp
  | some n =>
    simp only [Option.getD_some, Option.map_some, Option.toList_some, List.map_cons, Word.total]
    omega

theorem toNat_addSaturating_of_lt {a b : UInt64} (h : a.toNat + b.toNat < UInt64.size) :
    (Word.addSaturating a b).toNat = a.toNat + b.toNat := by
  rw [Word.toNat_addSaturating]
  omega

/-- Nothing saturates while the number of values has a word. -/
theorem Faithful.addTo {h : Histogram} (hf : h.Faithful) (slot : UInt64) {n : UInt64}
    (hn : h.total.toNat + n.toNat < UInt64.size) :
    (h.addTo slot n).Faithful ∧ (h.addTo slot n).total.toNat = h.total.toNat + n.toNat := by
  unfold Histogram.addTo
  split
  · rename_i hzero
    subst hzero
    exact ⟨hf, by simp⟩
  · have hcount := h.count_le_recorded slot
    rw [hf] at hcount
    have htotal := toNat_addSaturating_of_lt hn
    refine ⟨?_, htotal⟩
    have hslot : (Word.addSaturating (h.count slot) n).toNat = (h.count slot).toNat + n.toNat :=
      toNat_addSaturating_of_lt (by omega)
    have hsum : Word.total ((h.counts.insert slot (Word.addSaturating (h.count slot) n)).toList.map (·.2)) +
        (h.count slot).toNat = h.recorded + (Word.addSaturating (h.count slot) n).toNat :=
      total_insert h.counts slot _
    rw [hf, hslot] at hsum
    rw [Faithful, htotal, recorded]
    dsimp only
    omega

theorem faithful_empty : empty.Faithful := by
  rw [Faithful, recorded, empty, Std.ExtTreeMap.toList_eq_nil_iff.mpr rfl]
  rfl

theorem Faithful.addAll {h : Histogram} (hf : h.Faithful) (entries : List (UInt64 × UInt64))
    (hn : h.total.toNat + Word.total (entries.map (·.2)) < UInt64.size) :
    (entries.foldl (fun h entry => h.addTo entry.1 entry.2) h).Faithful ∧
      (entries.foldl (fun h entry => h.addTo entry.1 entry.2) h).total.toNat =
        h.total.toNat + Word.total (entries.map (·.2)) := by
  induction entries generalizing h with
  | nil => exact ⟨hf, rfl⟩
  | cons entry entries ih =>
    rw [List.map_cons, Word.total] at hn ⊢
    obtain ⟨hadd, htotal⟩ := @Faithful.addTo h hf entry.1 entry.2 (by omega)
    obtain ⟨hrest, hsum⟩ := ih hadd (by omega)
    exact ⟨hrest, by rw [List.foldl_cons, hsum, htotal, Nat.add_assoc]⟩

theorem Faithful.merge {h other : Histogram} (hf : h.Faithful) (ho : other.Faithful)
    (hn : h.total.toNat + other.total.toNat < UInt64.size) :
    (h.merge other).Faithful ∧ (h.merge other).total.toNat = h.total.toNat + other.total.toNat := by
  have htotal : Word.total (other.counts.toList.map (·.2)) = other.total.toNat := ho
  rw [← htotal] at hn ⊢
  exact hf.addAll _ hn

end Histogram

end InsertBench
