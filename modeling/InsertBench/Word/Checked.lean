import InsertBench.Fault

/-! # Checked arithmetic on words

Sums, products, differences and quotients of 64-bit words that fault where the exact result has no
word. Each operation is pinned down by the exact result on natural numbers.
-/
namespace InsertBench.Word

def add (a b : UInt64) : Except Fault UInt64 :=
  if a.toNat + b.toNat < UInt64.size then .ok (a + b) else .error .addOverflow

def sub (a b : UInt64) : Except Fault UInt64 :=
  if b ≤ a then .ok (a - b) else .error .subtractOverflow

def mul (a b : UInt64) : Except Fault UInt64 :=
  if a.toNat * b.toNat < UInt64.size then .ok (a * b) else .error .multiplyOverflow

def div (a b : UInt64) : Except Fault UInt64 :=
  if b = 0 then .error .divideByZero else .ok (a / b)

def sum (words : List UInt64) : Except Fault UInt64 := words.foldlM add 0

theorem add_eq_ok_iff {a b c : UInt64} : add a b = .ok c ↔ a.toNat + b.toNat = c.toNat := by
  have hc := c.toNat_lt_size
  unfold add
  split
  · rename_i h
    rw [Except.ok.injEq, ← UInt64.toNat_inj, UInt64.toNat_add, Nat.mod_eq_of_lt h]
  · simp only [reduceCtorEq, false_iff]
    omega

theorem mul_eq_ok_iff {a b c : UInt64} : mul a b = .ok c ↔ a.toNat * b.toNat = c.toNat := by
  have hc := c.toNat_lt_size
  unfold mul
  split
  · rename_i h
    rw [Except.ok.injEq, ← UInt64.toNat_inj, UInt64.toNat_mul, Nat.mod_eq_of_lt h]
  · simp only [reduceCtorEq, false_iff]
    omega

def total : List UInt64 → Nat
  | [] => 0
  | w :: rest => w.toNat + total rest

theorem total_append (xs ys : List UInt64) : total (xs ++ ys) = total xs + total ys := by
  induction xs with
  | nil => exact (Nat.zero_add _).symm
  | cons w rest ih => rw [List.cons_append, total, total, ih, Nat.add_assoc]

theorem foldlM_add_eq_ok_iff {a c : UInt64} {words : List UInt64} :
    words.foldlM add a = .ok c ↔ a.toNat + total words = c.toNat := by
  induction words generalizing a with
  | nil => simp [total, pure, Except.pure, UInt64.toNat_inj]
  | cons b rest ih =>
    rw [List.foldlM_cons, total, ← Nat.add_assoc]
    cases h : add a b with
    | ok d =>
      rw [add_eq_ok_iff.mp h]
      exact ih
    | error how =>
      have hc := c.toNat_lt_size
      have hab : ¬ a.toNat + b.toNat < UInt64.size := fun hlt => by simp [add, hlt] at h
      simp only [bind, Except.bind, reduceCtorEq, false_iff]
      omega

theorem sum_eq_ok_iff {c : UInt64} {words : List UInt64} : sum words = .ok c ↔ total words = c.toNat := by
  rw [sum, foldlM_add_eq_ok_iff, UInt64.toNat_zero, Nat.zero_add]

theorem sum_ok {words : List UInt64} (h : total words < UInt64.size) :
    ∃ c, sum words = .ok c ∧ c.toNat = total words := by
  have hc := UInt64.toNat_ofNat_of_lt' h
  exact ⟨_, sum_eq_ok_iff.mpr hc.symm, hc⟩

theorem div_eq_ok {a b : UInt64} (h : b ≠ 0) : div a b = .ok (a / b) := if_neg h

end InsertBench.Word
