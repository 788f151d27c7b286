import Mathlib.Data.List.Basic

/-!
# Programs that talk to an environment

A program is a tree: it returns, or it calls an operation of the environment and goes on with the answer it gets. The loops
and branches of the program are in the tree, the environment is not, so the same tree is run alone against chosen answers
(`Steps`) or as one thread among others. `wp` is the rule of pre- and postconditions: it follows the calls of a program with
a ghost state that the program itself never reads.
-/

/-- A program whose operations are `Op`, each answered in `Res op`. -/
inductive Prog (Op : Type) (Res : Op → Type) (α : Type) where
  | ret (a : α)
  | call (op : Op) (k : Res op → Prog Op Res α)

namespace Prog

variable {Op : Type} {Res : Op → Type} {α β γ : Type}

/-- Run a program, then the one its result selects. -/
def bind : Prog Op Res α → (α → Prog Op Res β) → Prog Op Res β
  | ret a, f => f a
  | call op k, f => call op fun r => (k r).bind f

/-- The program that calls one operation and returns its answer. -/
def perform (op : Op) : Prog Op Res (Res op) := call op ret

instance : Monad (Prog Op Res) where
  pure := ret
  bind := bind

@[simp] theorem pure_eq (a : α) : (pure a : Prog Op Res α) = ret a := rfl

@[simp] theorem bind_eq (p : Prog Op Res α) (f : α → Prog Op Res β) : p >>= f = p.bind f := rfl

@[simp] theorem ret_bind (a : α) (f : α → Prog Op Res β) : (ret a : Prog Op Res α).bind f = f a := rfl

@[simp] theorem call_bind (op : Op) (k : Res op → Prog Op Res α) (f : α → Prog Op Res β) :
    (call op k).bind f = call op fun r => (k r).bind f := rfl

/-- Sequencing is associative. -/
theorem bind_assoc (p : Prog Op Res α) (f : α → Prog Op Res β) (g : β → Prog Op Res γ) :
    (p.bind f).bind g = p.bind fun a => (f a).bind g := by
  induction p with
  | ret a => rfl
  | call op k ih => simp only [call_bind, ih]

/-! ## Runs -/

/-- One operation with the answer it got. -/
structure Event (Op : Type) (Res : Op → Type) where
  op : Op
  res : Res op

/-- `Steps p tr p'`: after the operations and answers of `tr`, what is left of `p` is `p'`. -/
inductive Steps : Prog Op Res α → List (Event Op Res) → Prog Op Res α → Prop where
  | refl (p : Prog Op Res α) : Steps p [] p
  | call {op : Op} {k : Res op → Prog Op Res α} {p : Prog Op Res α} {tr : List (Event Op Res)} (r : Res op) :
      Steps (k r) tr p → Steps (call op k) (⟨op, r⟩ :: tr) p

/-- A run followed by a run is a run. -/
theorem Steps.trans {p q t : Prog Op Res α} {tr tr' : List (Event Op Res)} (h : Steps p tr q) (h' : Steps q tr' t) :
    Steps p (tr ++ tr') t := by
  induction h with
  | refl => exact h'
  | call r _ ih => exact Steps.call r (ih h')

/-- A run of the first program is a run of the sequence. -/
theorem Steps.bind {p q : Prog Op Res α} {tr : List (Event Op Res)} (h : Steps p tr q) (f : α → Prog Op Res β) :
    Steps (p.bind f) tr (q.bind f) := by
  induction h with
  | refl => exact Steps.refl _
  | call r _ ih => exact Steps.call r ih

/-! ## Pre- and postconditions -/

/-- What the calls of a program are checked against: the answers an operation may get, the condition under which it may be
called, and what the call does to the ghost state. -/
structure Rules (Op : Type) (Res : Op → Type) (σ : Type) where
  ok : (op : Op) → Res op → Prop
  pre : σ → Op → Prop
  next : σ → (op : Op) → Res op → σ

variable {σ : Type}

/-- Every call of the program is allowed, whatever the answers, and the program ends in `Q`. -/
def wp (R : Rules Op Res σ) : Prog Op Res α → (α → σ → Prop) → σ → Prop
  | ret a, Q, s => Q a s
  | call op k, Q, s => R.pre s op ∧ ∀ r, R.ok op r → (k r).wp R Q (R.next s op r)

@[simp] theorem wp_ret (R : Rules Op Res σ) (a : α) (Q : α → σ → Prop) (s : σ) : (ret a).wp R Q s ↔ Q a s := Iff.rfl

@[simp] theorem wp_call (R : Rules Op Res σ) (op : Op) (k : Res op → Prog Op Res α) (Q : α → σ → Prop) (s : σ) :
    (call op k).wp R Q s ↔ R.pre s op ∧ ∀ r, R.ok op r → (k r).wp R Q (R.next s op r) := Iff.rfl

/-- The rule of consequence. -/
theorem wp_mono {R : Rules Op Res σ} {p : Prog Op Res α} {Q Q' : α → σ → Prop} {s : σ} (h : p.wp R Q s)
    (hQ : ∀ a s, Q a s → Q' a s) : p.wp R Q' s := by
  induction p generalizing s with
  | ret a => exact hQ a s h
  | call op k ih => exact ⟨h.1, fun r hr => ih r (h.2 r hr)⟩

/-- The rule of sequencing. -/
theorem wp_bind (R : Rules Op Res σ) (p : Prog Op Res α) (f : α → Prog Op Res β) (Q : β → σ → Prop) (s : σ) :
    (p.bind f).wp R Q s ↔ p.wp R (fun a s' => (f a).wp R Q s') s := by
  induction p generalizing s with
  | ret a => exact Iff.rfl
  | call op k ih => simp only [call_bind, wp_call, ih]

/-- A program checked up to a middle condition, then from it. -/
theorem wp_seq {R : Rules Op Res σ} {p : Prog Op Res α} {f : α → Prog Op Res β} {M : α → σ → Prop} {Q : β → σ → Prop}
    {s : σ} (h : p.wp R M s) (hf : ∀ a s', M a s' → (f a).wp R Q s') : (p.bind f).wp R Q s :=
  (wp_bind R p f Q s).mpr (wp_mono h hf)

/-- The ghost state after the events of a run. -/
def Rules.after (R : Rules Op Res σ) (s : σ) (tr : List (Event Op Res)) : σ :=
  tr.foldl (fun s e => R.next s e.op e.res) s

@[simp] theorem Rules.after_nil (R : Rules Op Res σ) (s : σ) : R.after s [] = s := rfl

@[simp] theorem Rules.after_cons (R : Rules Op Res σ) (s : σ) (e : Event Op Res) (tr : List (Event Op Res)) :
    R.after s (e :: tr) = R.after (R.next s e.op e.res) tr := rfl

/-- What is left of a checked program after a run is checked, in the ghost state after the run. -/
theorem Steps.wp {R : Rules Op Res σ} {p p' : Prog Op Res α} {tr : List (Event Op Res)} (h : Steps p tr p')
    (hok : ∀ e ∈ tr, R.ok e.op e.res) {Q : α → σ → Prop} {s : σ} (hp : p.wp R Q s) : p'.wp R Q (R.after s tr) := by
  induction h generalizing s with
  | refl => exact hp
  | call r _ ih =>
    rw [Rules.after_cons]
    exact ih (fun e he => hok e (List.mem_cons_of_mem _ he)) (hp.2 r (hok ⟨_, r⟩ List.mem_cons_self))

/-- Every operation of a run of a checked program was allowed in the ghost state it was called in. -/
theorem Steps.pre {R : Rules Op Res σ} {p p' : Prog Op Res α} {pre post : List (Event Op Res)} {e : Event Op Res}
    (h : Steps p (pre ++ e :: post) p') (hok : ∀ e' ∈ pre, R.ok e'.op e'.res) {Q : α → σ → Prop} {s : σ}
    (hp : p.wp R Q s) : R.pre (R.after s pre) e.op := by
  induction pre generalizing p s with
  | nil =>
    cases h with
    | call r _ => exact hp.1
  | cons d pre ih =>
    cases h with
    | call r h =>
      rw [Rules.after_cons]
      exact ih h (fun e' he' => hok e' (List.mem_cons_of_mem _ he')) (hp.2 r (hok ⟨_, r⟩ List.mem_cons_self))

/-- A checked program whose operations can all be answered has a run to its end. -/
theorem exists_run {R : Rules Op Res σ} (hanswer : ∀ s op, R.pre s op → ∃ r, R.ok op r) {p : Prog Op Res α}
    {Q : α → σ → Prop} :
    ∀ {s : σ}, p.wp R Q s → ∃ tr a, Steps p tr (ret a) ∧ (∀ e ∈ tr, R.ok e.op e.res) ∧ Q a (R.after s tr) := by
  induction p with
  | ret a =>
    intro s h
    exact ⟨[], a, Steps.refl _, fun _ he => absurd he List.not_mem_nil, h⟩
  | call op k ih =>
    intro s h
    obtain ⟨r, hr⟩ := hanswer s op h.1
    obtain ⟨tr, a, hsteps, hok, hQ⟩ := ih r (h.2 r hr)
    refine ⟨⟨op, r⟩ :: tr, a, Steps.call r hsteps, fun e he => ?_, hQ⟩
    rcases List.mem_cons.mp he with rfl | he
    · exact hr
    · exact hok e he

/-! ## Calls -/

/-- Every operation that the program may call satisfies a condition, whatever the answers. -/
def Calls (P : Op → Prop) : Prog Op Res α → Prop
  | ret _ => True
  | call op k => P op ∧ ∀ r, (k r).Calls P

theorem Calls.bind {P : Op → Prop} {p : Prog Op Res α} {f : α → Prog Op Res β} (h : p.Calls P) (hf : ∀ a, (f a).Calls P) :
    (p.bind f).Calls P := by
  induction p with
  | ret a => exact hf a
  | call op k ih => exact ⟨h.1, fun r => ih r (h.2 r)⟩

/-- Operations that are always allowed and leave the ghost state as it is leave it so in a whole program. -/
theorem Calls.wp {R : Rules Op Res σ} {P : Op → Prop} {p : Prog Op Res α} (h : p.Calls P) {s : σ}
    (hop : ∀ op, P op → R.pre s op ∧ ∀ r, R.next s op r = s) : p.wp R (fun _ s' => s' = s) s := by
  induction p with
  | ret a => rfl
  | call op k ih =>
    refine ⟨(hop op h.1).1, fun r _ => ?_⟩
    rw [(hop op h.1).2 r]
    exact ih r (h.2 r)

/-! ## All runs -/

/-- Every run of the program, whatever the answers, calls only operations that are allowed; and when it ends, its events and its
result satisfy `Q`. -/
def AllRuns (allowed : Op → Prop) (p : Prog Op Res α) (Q : List (Event Op Res) → α → Prop) : Prop :=
  ∀ tr p', Steps p tr p' → (∀ op k, p' = call op k → allowed op) ∧ ∀ a, p' = ret a → Q tr a

/-- A program that returns has one run. -/
theorem allRuns_ret {allowed : Op → Prop} {a : α} {Q : List (Event Op Res) → α → Prop} :
    (ret a).AllRuns allowed Q ↔ Q [] a := by
  refine ⟨fun h => (h [] _ (Steps.refl _)).2 a rfl, fun h tr p' hsteps => ?_⟩
  cases hsteps
  refine ⟨fun op k heq => ?_, fun b heq => ?_⟩
  · cases heq
  · cases heq
    exact h

/-- A call is allowed, and the runs go on with whatever the answer is. -/
theorem allRuns_call {allowed : Op → Prop} {op : Op} {k : Res op → Prog Op Res α} {Q : List (Event Op Res) → α → Prop} :
    (call op k).AllRuns allowed Q ↔ allowed op ∧ ∀ r, (k r).AllRuns allowed fun tr a => Q (⟨op, r⟩ :: tr) a := by
  constructor
  · intro h
    exact ⟨(h [] _ (Steps.refl _)).1 op k rfl, fun r tr p' hsteps => h _ p' (Steps.call r hsteps)⟩
  · rintro ⟨hop, hk⟩ tr p' hsteps
    cases hsteps with
    | refl =>
      refine ⟨fun op' k' heq => ?_, fun a heq => ?_⟩
      · cases heq
        exact hop
      · cases heq
    | call r hsteps => exact hk r _ p' hsteps

/-- What is weaker holds as well. -/
theorem AllRuns.mono {allowed : Op → Prop} {p : Prog Op Res α} {Q Q' : List (Event Op Res) → α → Prop}
    (h : p.AllRuns allowed Q) (hQ : ∀ tr a, Q tr a → Q' tr a) : p.AllRuns allowed Q' :=
  fun tr p' hsteps => ⟨(h tr p' hsteps).1, fun a heq => hQ tr a ((h tr p' hsteps).2 a heq)⟩

/-- Every program has runs. -/
theorem AllRuns.any (p : Prog Op Res α) : p.AllRuns (fun _ => True) fun _ _ => True :=
  fun _ _ _ => ⟨fun _ _ _ => trivial, fun _ _ => trivial⟩

/-- The rule of sequencing: the events of the second program come behind those of the first. -/
theorem AllRuns.bind {allowed : Op → Prop} {p : Prog Op Res α} {f : α → Prog Op Res β}
    {M : List (Event Op Res) → α → Prop} :
    ∀ {Q : List (Event Op Res) → β → Prop}, p.AllRuns allowed M →
      (∀ tr a, M tr a → (f a).AllRuns allowed fun tr' b => Q (tr ++ tr') b) → (p.bind f).AllRuns allowed Q := by
  induction p generalizing M with
  | ret a => exact fun h hf => hf [] a (allRuns_ret.mp h)
  | call op k ih =>
    intro Q h hf
    obtain ⟨hop, hk⟩ := allRuns_call.mp h
    refine allRuns_call.mpr ⟨hop, fun r => ih r (hk r) fun tr a hM => ?_⟩
    exact hf _ a hM

/-! ## Histories -/

/-- The rules whose ghost state is everything that happened. -/
def historyRules (ok : (op : Op) → Res op → Prop) (pre : List (Event Op Res) → Op → Prop) :
    Rules Op Res (List (Event Op Res)) where
  ok := ok
  pre := pre
  next := fun history op r => history ++ [⟨op, r⟩]

/-- After a run the history has the events of the run at its end. -/
theorem after_historyRules (ok : (op : Op) → Res op → Prop) (pre : List (Event Op Res) → Op → Prop)
    (tr : List (Event Op Res)) : ∀ history, (historyRules ok pre).after history tr = history ++ tr := by
  induction tr with
  | nil => exact fun history => (List.append_nil history).symm
  | cons e tr ih =>
    intro history
    rw [Rules.after_cons, ih]
    exact List.append_assoc history [e] tr

end Prog
