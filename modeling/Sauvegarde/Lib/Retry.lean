import Mathlib.Data.List.Basic

/-!
# Attempts

An action that is tried until an attempt ends in something else than a transient failure, or until a policy lets it not be tried
again. The attempts are a list, and each works on the state that the one before it left.
-/

namespace Retry

/-- How an attempt ended. -/
inductive Verdict where
  | success
  | transient
  | failure
deriving DecidableEq

variable {σ ρ α : Type*}

/-- What there is after the last attempt: the state, how it ended, the policy's own state, and the attempts that were not used. -/
structure Result (σ ρ α : Type*) where
  state : σ
  verdict : Verdict
  budget : ρ
  left : List α

/-- The loop: `none` when there are fewer attempts than it makes. -/
def run (verdict : α → Verdict) (step : σ → α → σ) (policy : ρ → Bool × ρ) : ρ → σ → List α → Option (Result σ ρ α)
  | _, _, [] => none
  | budget, state, attempt :: attempts =>
    if verdict attempt = .transient then
      let (again, budget) := policy budget
      if again then run verdict step policy budget (step state attempt) attempts
      else some ⟨step state attempt, .transient, budget, attempts⟩
    else some ⟨step state attempt, verdict attempt, budget, attempts⟩

variable {verdict : α → Verdict} {step : σ → α → σ} {policy : ρ → Bool × ρ} {budget : ρ} {state : σ}

/-- An attempt that is no transient failure is the last. -/
theorem run_cons_of_ne {attempt : α} (h : verdict attempt ≠ .transient) (attempts : List α) :
    run verdict step policy budget state (attempt :: attempts) =
      some ⟨step state attempt, verdict attempt, budget, attempts⟩ := by
  rw [run, if_neg h]

/-- What a run has done: attempts that failed, all of them transiently, and a last one that gave the verdict. -/
theorem exists_of_run {attempts : List α} {r : Result σ ρ α} (h : run verdict step policy budget state attempts = some r) :
    ∃ failed last, attempts = failed ++ last :: r.left ∧ (∀ attempt ∈ failed, verdict attempt = .transient) ∧
      verdict last = r.verdict ∧ r.state = step (failed.foldl step state) last := by
  induction attempts generalizing budget state with
  | nil => simp [run] at h
  | cons attempt attempts ih =>
    by_cases htransient : verdict attempt = .transient
    · rw [run, if_pos htransient] at h
      simp only at h
      split at h
      · -- tried again, from the state that this attempt has left
        obtain ⟨failed, last, rfl, hfailed, hlast, hstate⟩ := ih h
        refine ⟨attempt :: failed, last, rfl, ?_, hlast, hstate⟩
        intro a ha
        rcases List.mem_cons.mp ha with rfl | ha
        · exact htransient
        · exact hfailed a ha
      · obtain rfl := Option.some.inj h
        exact ⟨[], attempt, rfl, by simp, htransient, rfl⟩
    · rw [run_cons_of_ne htransient] at h
      obtain rfl := Option.some.inj h
      exact ⟨[], attempt, rfl, by simp, rfl, rfl⟩

end Retry
