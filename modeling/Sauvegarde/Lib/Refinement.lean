import Sauvegarde.Lib.Runs

/-!
# Refinement

A system that takes one step after the other refines an abstract one when every step leaves events that the abstract one can leave
from any state related to it: then so does every run.
-/

namespace Refinement

variable {State Op Abstract Event : Type}

/-- The events that an abstract system leaves on its way from a state to another, given what one event does. -/
inductive Traces (next : Abstract → Event → Abstract → Prop) : Abstract → List Event → Abstract → Prop where
  | nil (a : Abstract) : Traces next a [] a
  | cons {a a' a'' : Abstract} {event : Event} {events : List Event} :
      next a event a' → Traces next a' events a'' → Traces next a (event :: events) a''

variable {next : Abstract → Event → Abstract → Prop} {a a' a'' : Abstract}

theorem Traces.single {event : Event} (h : next a event a') : Traces next a [event] a' := .cons h (.nil a')

theorem Traces.append {events more : List Event} (h : Traces next a events a') (h' : Traces next a' more a'') :
    Traces next a (events ++ more) a'' := by
  induction h with
  | nil => exact h'
  | cons hnext _ ih => exact .cons hnext (ih h')

/-- What every event keeps is kept on the way. -/
theorem Traces.invariant {inv : List Event → Abstract → Prop}
    (hnext : ∀ trace a event a', inv trace a → next a event a' → inv (trace ++ [event]) a') {events : List Event}
    (h : Traces next a events a') : ∀ {before : List Event}, inv before a → inv (before ++ events) a' := by
  induction h with
  | nil =>
    intro before hinv
    rwa [List.append_nil]
  | @cons a a' a'' event events hstep _ ih =>
    intro before hinv
    rw [← List.singleton_append, ← List.append_assoc]
    exact ih (hnext before a event a' hinv hstep)

/-- The rule of refinement: steps that are possible, and that the abstract system can follow, make a run that it can follow. -/
theorem execute_refines {step : State → Op → Option (State × List Event)} {condition : State → Op → Prop}
    {rel : State → Abstract → Prop}
    (hstep : ∀ s a op, rel s a → condition s op →
      ∃ s' events a', step s op = some (s', events) ∧ Traces next a events a' ∧ rel s' a')
    (ops : List Op) : ∀ {s : State} {a : Abstract}, rel s a → Runs.Along step condition s ops →
      ∃ t trace b, Runs.execute step s ops = some (t, trace) ∧ Traces next a trace b ∧ rel t b := by
  induction ops with
  | nil => exact fun {s a} hrel _ => ⟨s, [], a, rfl, .nil a, hrel⟩
  | cons op ops ih =>
    intro s a hrel halong
    obtain ⟨s', events, a', heq, hevents, hrel'⟩ := hstep s a op hrel halong.1
    obtain ⟨t, trace, b, hrun, htrace, hrel''⟩ := ih hrel' (halong.2 s' events heq)
    refine ⟨t, events ++ trace, b, ?_, hevents.append htrace, hrel''⟩
    simp only [Runs.execute, heq, Option.bind_some, hrun, Option.map_some]

end Refinement
