import InsertBench.Run.Batch

/-! # Batches against any replies

A batch makes one call after another, and each reply decides how it goes on. `Runs` lets every reply be
anything; running a batch through a session is such a run, with the replies of a store.
-/
namespace InsertBench

abbrev Exchange := Request × Reply

/-- A store replies to calls through the session of a seat, one after another. -/
inductive Store.Serves {σ : Type} (store : Store σ) (seat : Nat) (s : σ) : List Exchange → σ → Prop
  | start : store.Serves seat s [] s
  | call {log : List Exchange} {t u : σ} {request : Request} {reply : Reply}
      (before : store.Serves seat s log t) (served : store.call t seat request = some (reply, u)) :
      store.Serves seat s (log ++ [(request, reply)]) u

/-- The calls of a batch up to some point, and how far they bring it, whatever is replied. -/
inductive Batch.Runs (p : Plan) (b : Batch) : List Exchange → Progress → Prop
  | start : Runs p b [] (.more b)
  | call {log : List Exchange} {c : Batch} (before : Runs p b log (.more c)) (reply : Reply) :
      Runs p b (log ++ [(c.next p, reply)]) (c.answer p reply)

variable {σ : Type} {store : Store σ} {seat : Nat} {s t u : σ} {log more : List Exchange}

theorem Store.Serves.trans (h : store.Serves seat s log t) (k : store.Serves seat t more u) :
    store.Serves seat s (log ++ more) u := by
  induction k with
  | start => rwa [List.append_nil]
  | call _ served ih =>
    rw [← List.append_assoc]
    exact .call ih served

theorem Store.serves_one {request : Request} {reply : Reply}
    (h : store.call s seat request = some (reply, t)) :
    store.Serves seat s [(request, reply)] t := .call .start h

namespace Batch

variable {p : Plan} {b c : Batch} {progress : Progress}

theorem Runs.trans (h : Runs p b log (.more c)) (k : Runs p c more progress) :
    Runs p b (log ++ more) progress := by
  induction k with
  | start => rwa [List.append_nil]
  | call _ reply ih =>
    rw [← List.append_assoc]
    exact .call ih reply

theorem runs_one (reply : Reply) (h : b.answer p reply = progress) :
    Runs p b [(b.next p, reply)] progress := by
  rw [← h]
  exact .call .start reply

/-- A batch that is run through a session makes the calls of a run, and the store replies to them. -/
theorem runs_of_run {buffer kept : Bytes} {result : Except Stop UInt64}
    (h : run store seat p buffer b s = some (result, kept, t)) :
    ∃ log, store.Serves seat s log t ∧ Runs p b log (.over result) := by
  fun_induction run store seat p buffer b s with
  | case1 buffer b s unanswered => cases h
  | case2 buffer b s reply s' served c answers ih =>
    rw [ask_fst] at served
    obtain ⟨log, hserves, hruns⟩ := ih h
    exact ⟨_, (Store.serves_one served).trans hserves, (runs_one reply answers).trans hruns⟩
  | case3 buffer b s reply s' served result' answers =>
    rw [ask_fst] at served
    cases h
    exact ⟨_, Store.serves_one served, runs_one reply answers⟩

/-- A batch that is run through a session ends, unless the store leaves one of its calls unanswered. -/
theorem unanswered_of_run {buffer : Bytes} (h : run store seat p buffer b s = none) :
    ∃ log c t, store.Serves seat s log t ∧ Runs p b log (.more c) ∧ store.call t seat (c.next p) = none := by
  fun_induction run store seat p buffer b s with
  | case1 buffer b s unanswered =>
    rw [ask_fst] at unanswered
    exact ⟨[], b, s, .start, .start, unanswered⟩
  | case2 buffer b s reply s' served c answers ih =>
    rw [ask_fst] at served
    obtain ⟨log, d, t, hserves, hruns, hnone⟩ := ih h
    exact ⟨_, d, t, (Store.serves_one served).trans hserves, (runs_one reply answers).trans hruns, hnone⟩
  | case3 buffer b s reply s' served result answers => cases h

end Batch

end InsertBench
