import Mathlib.Data.List.Basic

/-!
# Runs

A system that takes one step after the other, each leaving events behind: what holds at the start and is kept by every step
holds after every run.
-/

namespace Runs

variable {State Op Event : Type}

/-- The state after the steps that are taken, and the events they leave; none when a step is not possible. -/
def execute (step : State → Op → Option (State × List Event)) : State → List Op → Option (State × List Event)
  | s, [] => some (s, [])
  | s, op :: ops =>
    (step s op).bind fun (s', events) => (execute step s' ops).map fun (s'', more) => (s'', events ++ more)

/-- The condition holds of every step of the run, in the state the step is taken in. -/
def Along (step : State → Op → Option (State × List Event)) (condition : State → Op → Prop) : State → List Op → Prop
  | _, [] => True
  | s, op :: ops => condition s op ∧ ∀ s' events, step s op = some (s', events) → Along step condition s' ops

variable {step : State → Op → Option (State × List Event)}

/-- The first step of a run, and the rest. -/
theorem execute_cons {s t : State} {op : Op} {ops : List Op} {trace : List Event}
    (h : execute step s (op :: ops) = some (t, trace)) :
    ∃ s' events more, step s op = some (s', events) ∧ execute step s' ops = some (t, more) ∧ trace = events ++ more := by
  obtain ⟨⟨s', events⟩, hstep, hrest⟩ := Option.bind_eq_some_iff.mp h
  obtain ⟨⟨t', more⟩, hmore, heq⟩ := Option.map_eq_some_iff.mp hrest
  obtain ⟨rfl, rfl⟩ := Prod.mk.inj heq
  exact ⟨s', events, more, hstep, hmore, rfl⟩

/-- A run goes on where another one ended. -/
theorem execute_append {s t u : State} {ops more : List Op} {trace trace' : List Event}
    (h : execute step s ops = some (t, trace)) (h' : execute step t more = some (u, trace')) :
    execute step s (ops ++ more) = some (u, trace ++ trace') := by
  induction ops generalizing s trace with
  | nil =>
    obtain ⟨rfl, rfl⟩ := Prod.mk.inj (Option.some.inj h)
    exact h'
  | cons op ops ih =>
    obtain ⟨s', events, rest, hstep, hrest, rfl⟩ := execute_cons h
    simp only [List.cons_append, execute, hstep, Option.bind_some, ih hrest, Option.map_some, List.append_assoc]

/-- The condition holds along a run and one that goes on where it ended. -/
theorem along_append {condition : State → Op → Prop} {s t : State} {ops more : List Op} {trace : List Event}
    (halong : Along step condition s ops) (h : execute step s ops = some (t, trace)) (hmore : Along step condition t more) :
    Along step condition s (ops ++ more) := by
  induction ops generalizing s trace with
  | nil =>
    obtain ⟨rfl, -⟩ := Prod.mk.inj (Option.some.inj h)
    exact hmore
  | cons op ops ih =>
    obtain ⟨s', events, rest, hstep, hrest, -⟩ := execute_cons h
    refine ⟨halong.1, fun s'' events' hstep' => ?_⟩
    obtain ⟨rfl, rfl⟩ := Prod.mk.inj (Option.some.inj (hstep.symm.trans hstep'))
    exact ih (halong.2 s' events hstep) hrest

/-- The rule of invariants, over the events so far and the state: what every step that meets the condition keeps, a run whose
steps all meet it keeps. -/
theorem execute_invariant {inv : List Event → State → Prop} {condition : State → Op → Prop}
    (hstep : ∀ trace s op s' events, inv trace s → condition s op → step s op = some (s', events) →
      inv (trace ++ events) s') (ops : List Op) :
    ∀ {before trace : List Event} {s t : State}, inv before s → Along step condition s ops →
      execute step s ops = some (t, trace) → inv (before ++ trace) t := by
  induction ops with
  | nil =>
    intro before trace s t hinv _ h
    obtain ⟨rfl, rfl⟩ := Prod.mk.inj (Option.some.inj h)
    rwa [List.append_nil]
  | cons op ops ih =>
    intro before trace s t hinv halong h
    obtain ⟨s', events, more, hs, hmore, rfl⟩ := execute_cons h
    rw [← List.append_assoc]
    exact ih (hstep before s op s' events hinv halong.1 hs) (halong.2 s' events hs) hmore

/-- The rule of invariants over the steps so far and the state. -/
theorem execute_steps {inv : List Op → State → Prop} {condition : State → Op → Prop}
    (hstep : ∀ done s op s' events, inv done s → condition s op → step s op = some (s', events) → inv (done ++ [op]) s')
    (ops : List Op) :
    ∀ {done : List Op} {trace : List Event} {s t : State}, inv done s → Along step condition s ops →
      execute step s ops = some (t, trace) → inv (done ++ ops) t := by
  induction ops with
  | nil =>
    intro done trace s t hinv _ h
    obtain ⟨rfl, _⟩ := Prod.mk.inj (Option.some.inj h)
    rwa [List.append_nil]
  | cons op ops ih =>
    intro done trace s t hinv halong h
    obtain ⟨s', events, more, hs, hmore, _⟩ := execute_cons h
    have hrest := ih (hstep done s op s' events hinv halong.1 hs) (halong.2 s' events hs) hmore
    rwa [List.append_assoc, List.singleton_append] at hrest

/-- A condition that every step of a list meets is met along the run of the list. -/
theorem along_of_forall {condition : Op → Prop} {ops : List Op} (h : ∀ op ∈ ops, condition op) :
    ∀ s : State, Along step (fun _ op => condition op) s ops := by
  induction ops with
  | nil => exact fun _ => trivial
  | cons op ops ih =>
    obtain ⟨hop, hops⟩ := List.forall_mem_cons.mp h
    exact fun s => ⟨hop, fun s' _ _ => ih hops s'⟩

/-- A condition that every step of a list meets in any state is met along the run of the list. -/
theorem along_of_always {condition : State → Op → Prop} {ops : List Op} (h : ∀ op ∈ ops, ∀ s, condition s op) :
    ∀ s : State, Along step condition s ops := by
  induction ops with
  | nil => exact fun _ => trivial
  | cons op ops ih =>
    obtain ⟨hop, hops⟩ := List.forall_mem_cons.mp h
    exact fun s => ⟨hop s, fun s' _ _ => ih hops s'⟩

end Runs
