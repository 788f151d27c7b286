import Mathlib.Data.Multiset.Bind
import Mathlib.Logic.Relation
import Mathlib.Tactic.Abel

/-!
# Worklists

Jobs that are done in any order, by any number of parties. A job that is begun yields items, each of them is handed on once, and an
item that is handled may lead to another job. What a job comes to in the end is known when it is known of the jobs that its items lead
to: the items that were handed on and those that are still due make up the same bag all the time.
-/

namespace Worklist

/-- How far the work is: the jobs that wait, the items that were found and not handed on yet, those that were handed on and not
handled yet, and all that were handed on so far. -/
structure Stock (Job Item : Type) where
  waiting : Multiset Job
  found : Multiset Item
  inHand : Multiset Item
  handed : Multiset Item

/-- What a job yields, and the job that an item leads to. -/
structure Rules (Job Item : Type) where
  yields : Job → Multiset Item → Prop
  leads : Item → Option Job

variable {Job Item : Type}

/-- A job is begun, an item is handed on, or an item is handled. -/
inductive Step (rules : Rules Job Item) : Stock Job Item → Stock Job Item → Prop where
  | begin {s : Stock Job Item} {job : Job} {waiting : Multiset Job} {items : Multiset Item} :
      s.waiting = job ::ₘ waiting → rules.yields job items →
      Step rules s { s with waiting := waiting, found := items + s.found }
  | hand {s : Stock Job Item} {item : Item} {found : Multiset Item} : s.found = item ::ₘ found →
      Step rules s { s with found := found, inHand := item ::ₘ s.inHand, handed := item ::ₘ s.handed }
  | handle {s : Stock Job Item} {item : Item} {inHand : Multiset Item} : s.inHand = item ::ₘ inHand →
      Step rules s { s with waiting := (rules.leads item).elim 0 (fun job => {job}) + s.waiting, inHand := inHand }

/-- Any number of steps. -/
abbrev Steps (rules : Rules Job Item) : Stock Job Item → Stock Job Item → Prop := Relation.ReflTransGen (Step rules)

section

variable (rules : Rules Job Item) (total : Job → Multiset Item)

/-- What an item leads to in the end. -/
def Rules.below (item : Item) : Multiset Item := (rules.leads item).elim 0 total

/-- The items that jobs come to in the end: those they yield, and what these lead to. -/
def Rules.Totals : Prop := ∀ job items, rules.yields job items → total job = items + items.bind (rules.below total)

/-- What is still to be handed on. -/
def Stock.due (s : Stock Job Item) : Multiset Item :=
  s.waiting.bind total + s.found + (s.found + s.inHand).bind (rules.below total)

end

variable {rules : Rules Job Item} {total : Job → Multiset Item} {s s' : Stock Job Item}

/-- The job that an item leads to comes to what the item leads to. -/
theorem bind_leads (item : Item) :
    ((rules.leads item).elim 0 fun job => ({job} : Multiset Job)).bind total = rules.below total item := by
  unfold Rules.below
  cases rules.leads item with
  | none => exact Multiset.zero_bind total
  | some job => exact Multiset.singleton_bind job total

/-- A step keeps what was handed on and what is due together. -/
theorem Step.balance (htotal : rules.Totals total) (h : Step rules s s') :
    s'.handed + s'.due rules total = s.handed + s.due rules total := by
  cases h with
  | @begin job waiting items hjob hyields =>
    simp only [Stock.due, hjob, Multiset.cons_bind, Multiset.add_bind, htotal job items hyields]
    abel
  | @hand item found hitem =>
    simp only [Stock.due, hitem, Multiset.cons_bind, Multiset.add_bind, Multiset.cons_add, Multiset.add_cons]
  | @handle item inHand hitem =>
    simp only [Stock.due, hitem, Multiset.cons_bind, Multiset.add_bind, bind_leads]
    abel

/-- So does any number of steps. -/
theorem Steps.balance (htotal : rules.Totals total) (h : Steps rules s s') :
    s'.handed + s'.due rules total = s.handed + s.due rules total := by
  induction h with
  | refl => rfl
  | tail _ hstep ih => exact (hstep.balance htotal).trans ih

/-- When nothing is left to do, what was handed on is what the jobs at the start come to. -/
theorem Steps.handed_of_done {jobs : Multiset Job} (htotal : rules.Totals total) (h : Steps rules ⟨jobs, 0, 0, 0⟩ s)
    (hwaiting : s.waiting = 0) (hfound : s.found = 0) (hinHand : s.inHand = 0) : s.handed = jobs.bind total := by
  have hbalance := h.balance htotal
  simpa [Stock.due, hwaiting, hfound, hinHand] using hbalance

end Worklist
