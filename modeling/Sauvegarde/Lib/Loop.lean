import Mathlib.Data.Option.Basic
import Mathlib.Tactic.SplitIfs

/-!
# Loops that may not end

A `while` loop with a bound on the number of its turns: it has a result when it ends within the bound. A body may be such a loop
itself. A loop ends when there is a bound that it ends within.
-/

namespace Loop

variable {σ : Type}

/-- The loop, for a number of turns at most: none when it takes more, or when a turn does not end. -/
def run (cond : σ → Bool) (body : σ → Option σ) : Nat → σ → Option σ
  | 0, _ => none
  | fuel + 1, s => if cond s then (body s).bind (run cond body fuel) else some s

variable {cond : σ → Bool} {body : σ → Option σ}

/-- A loop whose condition does not hold ends where it is. -/
theorem run_of_false {s : σ} (h : cond s = false) (fuel : Nat) : run cond body (fuel + 1) s = some s := by
  rw [run, h, if_neg Bool.false_ne_true]

/-- A loop takes a turn while its condition holds. -/
theorem run_of_true {s s' : σ} (h : cond s = true) (hbody : body s = some s') (fuel : Nat) :
    run cond body (fuel + 1) s = run cond body fuel s' := by
  rw [run, if_pos h, hbody, Option.bind_some]

/-- A loop that ends within a bound ends within a greater one, also when its body has more time. -/
theorem run_mono {body' : σ → Option σ} (hbody : ∀ s s', body s = some s' → body' s = some s') {m : Nat} :
    ∀ {n : Nat} {s t : σ}, m ≤ n → run cond body m s = some t → run cond body' n s = some t := by
  induction m with
  | zero =>
    intro n s t _ h
    exact absurd h.symm (Option.some_ne_none t)
  | succ m ih =>
    intro n s t hle h
    obtain ⟨n, rfl⟩ : ∃ k, n = k + 1 := ⟨n - 1, by omega⟩
    rw [run] at h ⊢
    split_ifs at h ⊢ with hcond
    · obtain ⟨s', hs', hrest⟩ := Option.bind_eq_some_iff.mp h
      rw [hbody s s' hs', Option.bind_some]
      exact ih (by omega) hrest
    · exact h

/-- The rule of a loop: what every turn keeps holds when it ends, and then its condition does not. -/
theorem while_rule {inv : σ → Prop} (hbody : ∀ s s', inv s → cond s = true → body s = some s' → inv s') {fuel : Nat} :
    ∀ {s t : σ}, inv s → run cond body fuel s = some t → inv t ∧ cond t = false := by
  induction fuel with
  | zero =>
    intro s t _ h
    exact absurd h.symm (Option.some_ne_none t)
  | succ fuel ih =>
    intro s t hinv h
    rw [run] at h
    split_ifs at h with hcond
    · obtain ⟨s', hs', hrest⟩ := Option.bind_eq_some_iff.mp h
      exact ih (hbody s s' hinv hcond hs') hrest
    · obtain rfl := Option.some.inj h
      exact ⟨hinv, by simpa using hcond⟩

/-! ## Loops with the condition at the end -/

/-- `do … while`: a turn, and then the loop. -/
def doWhile (cond : σ → Bool) (body : σ → Option σ) (fuel : Nat) (s : σ) : Option σ := (body s).bind (run cond body fuel)

/-- A first turn after which the condition does not hold is the only one. -/
theorem doWhile_of_false {s s' : σ} (hbody : body s = some s') (h : cond s' = false) (fuel : Nat) :
    doWhile cond body (fuel + 1) s = some s' := by
  rw [doWhile, hbody, Option.bind_some, run_of_false h]

/-- A first turn after which the condition holds is followed by others. -/
theorem doWhile_of_true {s s' : σ} (hbody : body s = some s') (h : cond s' = true) (fuel : Nat) :
    doWhile cond body (fuel + 1) s = doWhile cond body fuel s' := by
  rw [doWhile, hbody, Option.bind_some, run, if_pos h, doWhile]

/-- More turns, and more time for each, do not change the result. -/
theorem doWhile_mono {body' : σ → Option σ} (hbody : ∀ s s', body s = some s' → body' s = some s') {m n : Nat} (h : m ≤ n)
    {s t : σ} (hrun : doWhile cond body m s = some t) : doWhile cond body' n s = some t := by
  obtain ⟨s', hs', hrest⟩ := Option.bind_eq_some_iff.mp hrun
  rw [doWhile, hbody s s' hs', Option.bind_some]
  exact run_mono hbody h hrest

/-- The rule of such a loop: what every turn keeps holds when it ends, and then its condition does not. -/
theorem doWhile_rule {inv : σ → Prop} (hbody : ∀ s s', inv s → body s = some s' → inv s') {fuel : Nat} {s t : σ} (hinv : inv s)
    (h : doWhile cond body fuel s = some t) : inv t ∧ cond t = false := by
  obtain ⟨s', hs', hrest⟩ := Option.bind_eq_some_iff.mp h
  exact while_rule (fun s s' hs _ => hbody s s' hs) (hbody s s' hinv hs') hrest

end Loop
