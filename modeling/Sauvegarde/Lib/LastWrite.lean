import Mathlib.Data.List.Basic

/-!
# The last write

A place in a state that every step of a run either writes or leaves as it is. After the run the last value that was written
stands there.
-/

namespace LastWrite

variable {State Op Value : Type}

/-- The value that the last step that writes one has written. -/
def last (written : Op → Option Value) (ops : List Op) : Option Value := ops.reverse.findSome? written

/-- One step before the others: what they have written, or else what it has. -/
theorem last_cons (written : Op → Option Value) (op : Op) (ops : List Op) :
    last written (op :: ops) = (last written ops).or (written op) := by
  unfold last
  rw [List.reverse_cons, List.findSome?_append]
  congr 1
  rcases h : written op with _ | value <;> simp [h]

/-- Steps and further steps: what the further ones have written counts. -/
theorem last_append (written : Op → Option Value) (ops ops' : List Op) :
    last written (ops ++ ops') = (last written ops').or (last written ops) := by
  rw [last, List.reverse_append, List.findSome?_append, last, last]

/-- At most one step. -/
theorem last_toList (written : Op → Option Value) (op : Option Op) : last written op.toList = op.bind written := by
  cases op with
  | none => rfl
  | some op => simp [last]

/-- Steps that all write: the last step counts. -/
theorem last_some (f : Op → Value) (ops : List Op) : last (fun op => some (f op)) ops = ops.getLast?.map f := by
  rw [last, ← List.head?_reverse]
  cases ops.reverse <;> rfl

/-- Steps of which some write: the last of those counts. -/
theorem last_ite (writes : Op → Bool) (f : Op → Value) (ops : List Op) :
    last (fun op => if writes op then some (f op) else none) ops = (ops.reverse.find? writes).map f := by
  unfold last
  induction ops.reverse with
  | nil => rfl
  | cons op ops ih =>
    rw [List.findSome?_cons, List.find?_cons]
    cases writes op with
    | false => exact ih
    | true => rfl

/-- What was written last was written by a step. -/
theorem exists_of_last {written : Op → Option Value} {ops : List Op} {value : Value} (h : last written ops = some value) :
    ∃ op ∈ ops, written op = some value := by
  obtain ⟨op, hmem, hop⟩ := List.exists_of_findSome?_eq_some h
  exact ⟨op, List.mem_reverse.mp hmem, hop⟩

/-- Something made of what is written is made of what was written last. -/
theorem last_map {Value' : Type} (f : Value → Value') (written : Op → Option Value) (ops : List Op) :
    last (fun op => (written op).map f) ops = (last written ops).map f := (List.map_findSome? ..).symm

/-- A run that comes to its end has taken each of its steps. -/
theorem exists_step {step : State → Op → Option State} {ops : List Op} {s s' : State} (hrun : ops.foldlM step s = some s')
    {op : Op} (hop : op ∈ ops) : ∃ before after, step before op = some after := by
  induction ops generalizing s with
  | nil => exact absurd hop List.not_mem_nil
  | cons first ops ih =>
    rw [List.foldlM_cons, Option.bind_eq_bind, Option.bind_eq_some_iff] at hrun
    obtain ⟨middle, hfirst, hops⟩ := hrun
    rcases List.mem_cons.mp hop with rfl | hop
    · exact ⟨s, middle, hfirst⟩
    · exact ih hops hop

/-- What stands at the place after a run. -/
theorem get_run {step : State → Op → Option State} (get : State → Option Value) {written : Op → Option Value} {ops : List Op}
    (hstep : ∀ op ∈ ops, ∀ s s', step s op = some s' → get s' = (written op).or (get s)) {s s' : State}
    (hrun : ops.foldlM step s = some s') : get s' = (last written ops).or (get s) := by
  induction ops generalizing s with
  | nil =>
    rw [List.foldlM_nil, Option.pure_def, Option.some.injEq] at hrun
    rw [hrun]
    exact Option.none_or.symm
  | cons op ops ih =>
    rw [List.foldlM_cons, Option.bind_eq_bind, Option.bind_eq_some_iff] at hrun
    obtain ⟨middle, hop, hops⟩ := hrun
    rw [ih (fun op' hmem => hstep op' (List.mem_cons_of_mem _ hmem)) hops, hstep op List.mem_cons_self _ _ hop, last_cons,
      Option.or_assoc]

end LastWrite
