import Mathlib.Data.List.Basic
import Mathlib.Logic.Function.Basic

/-!
# Linked lists

Doubly linked lists in a store of cells with addresses. An element is taken out of a list by linking its neighbours, and given back.
What looks at an address where no cell is has no result.
-/

namespace LinkedList

variable {α : Type}

/-- What stands at an address: what the element holds, and the addresses of the elements before and behind it. -/
structure Cell (α : Type) where
  data : α
  prev : Option Nat
  next : Option Nat
deriving DecidableEq

/-- A store. -/
abbrev Store (α : Type) := Nat → Option (Cell α)

/-- Another cell at an address. -/
def write (store : Store α) (address : Nat) (cell : Option (Cell α)) : Store α :=
  fun a => if a = address then cell else store a

/-- From an address on stand these elements: before the first is the element at `prev`, the last is at `last`, and `next` is the
address behind it. -/
def Segment (store : Store α) : Option Nat → Option Nat → List (Nat × α) → Option Nat → Option Nat → Prop
  | prev, first, [], last, next => first = next ∧ last = prev
  | prev, first, (a, x) :: elements, last, next =>
    first = some a ∧ ∃ behind, store a = some ⟨x, prev, behind⟩ ∧ Segment store (some a) behind elements last next

/-- A list: its elements have different addresses, and nothing is before the first and behind the last. -/
structure IsList (store : Store α) (head : Option Nat) (elements : List (Nat × α)) : Prop where
  nodup : (elements.map Prod.fst).Nodup
  segment : ∃ last, Segment store none head elements last none

/-! ## Taking out -/

/-- `link->prev->next = link->next`, when it was the link. -/
def setNext (store : Store α) (address : Option Nat) (link : Nat) (next : Option Nat) : Option (Store α) :=
  match address with
  | none => some store
  | some a => (store a).map fun cell => if cell.next = some link then write store a (some { cell with next := next }) else store

/-- `link->next->prev = link->prev`, when it was the link. -/
def setPrev (store : Store α) (address : Option Nat) (link : Nat) (prev : Option Nat) : Option (Store α) :=
  match address with
  | none => some store
  | some a => (store a).map fun cell => if cell.prev = some link then write store a (some { cell with prev := prev }) else store

/-- Take the element at `link` out of the list that begins at `list`: the store, and where the list begins. -/
def removeLink (store : Store α) (list link : Nat) : Option (Store α × Option Nat) :=
  (store link).bind fun cell =>
    (setNext store cell.prev link cell.next).bind fun store =>
      (setPrev store cell.next link cell.prev).bind fun store =>
        (if link = list then (store list).map Cell.next else some (some list)).map fun list =>
          (write store link (some ⟨cell.data, none, none⟩), list)

/-- Give back the list of one element at an address. -/
def free (store : Store α) (address : Nat) : Option (Store α) :=
  (store address).bind fun cell => if cell.next = none then some (write store address none) else none

/-! ## Writing -/

@[simp] theorem write_same (store : Store α) (a : Nat) (cell : Option (Cell α)) : write store a cell a = cell := if_pos rfl

theorem write_of_ne {store : Store α} {a b : Nat} (h : b ≠ a) (cell : Option (Cell α)) : write store a cell b = store b :=
  if_neg h

/-! ## Segments -/

variable {store store' : Store α}

/-- A segment is where its cells are. -/
theorem Segment.congr {elements : List (Nat × α)} : ∀ {prev first last next : Option Nat},
    Segment store prev first elements last next → (∀ a ∈ elements.map Prod.fst, store' a = store a) →
      Segment store' prev first elements last next := by
  induction elements with
  | nil => exact fun h _ => h
  | cons element elements ih =>
    obtain ⟨a, x⟩ := element
    rintro prev first last next ⟨hfirst, behind, hcell, hrest⟩ hsame
    rw [List.map_cons, List.forall_mem_cons] at hsame
    exact ⟨hfirst, behind, hsame.1.trans hcell, ih hrest hsame.2⟩

/-- Two segments behind one another. -/
theorem segment_append {before after : List (Nat × α)} : ∀ {prev first last next : Option Nat},
    Segment store prev first (before ++ after) last next ↔
      ∃ middle behind, Segment store prev first before middle behind ∧ Segment store middle behind after last next := by
  induction before with
  | nil =>
    intro prev first last next
    constructor
    · exact fun h => ⟨prev, first, ⟨rfl, rfl⟩, h⟩
    · rintro ⟨middle, behind, ⟨rfl, rfl⟩, h⟩
      exact h
  | cons element before ih =>
    obtain ⟨a, x⟩ := element
    intro prev first last next
    constructor
    · rintro ⟨hfirst, next', hcell, hrest⟩
      obtain ⟨middle, behind, hbefore, hafter⟩ := ih.mp hrest
      exact ⟨middle, behind, ⟨hfirst, next', hcell, hbefore⟩, hafter⟩
    · rintro ⟨middle, behind, ⟨hfirst, next', hcell, hbefore⟩, hafter⟩
      exact ⟨hfirst, next', hcell, ih.mpr ⟨middle, behind, hbefore, hafter⟩⟩

/-- Where a segment ends: nothing is in it, or its last element is there. -/
theorem Segment.last_cases {prev first last next : Option Nat} {elements : List (Nat × α)}
    (h : Segment store prev first elements last next) : (elements = [] ∧ last = prev ∧ first = next) ∨
      ∃ before a x, elements = before ++ [(a, x)] ∧ last = some a ∧
        ∃ p, Segment store prev first before p (some a) ∧ store a = some ⟨x, p, next⟩ := by
  rcases List.eq_nil_or_concat elements with rfl | ⟨before, ⟨a, x⟩, rfl⟩
  · exact Or.inl ⟨rfl, h.2, h.1⟩
  · rw [List.concat_eq_append] at h ⊢
    obtain ⟨p, behind, hbefore, hbehind, next', hcell, hnext, hlast⟩ := segment_append.mp h
    subst hbehind hnext hlast
    exact Or.inr ⟨before, a, x, rfl, rfl, p, hbefore, hcell⟩

/-- Where a segment begins: nothing is in it, or its first element is there. -/
theorem Segment.first_cases {prev first last next : Option Nat} {elements : List (Nat × α)}
    (h : Segment store prev first elements last next) : (elements = [] ∧ first = next) ∨
      ∃ a x rest, elements = (a, x) :: rest ∧ first = some a ∧
        ∃ behind, store a = some ⟨x, prev, behind⟩ ∧ Segment store (some a) behind rest last next := by
  rcases elements with _ | ⟨⟨a, x⟩, rest⟩
  · exact Or.inl ⟨rfl, h.1⟩
  · obtain ⟨hfirst, behind, hcell, hrest⟩ := h
    exact Or.inr ⟨a, x, rest, rfl, hfirst, behind, hcell, hrest⟩

/-! ## An element is taken out -/

/-- The address of the first element. -/
def firstAddress (elements : List (Nat × α)) : Option Nat := elements.head?.map Prod.fst

/-- Behind a segment the list goes on elsewhere; an empty one begins there. -/
theorem Segment.setNext {head last next : Option Nat} {link : Nat} {before : List (Nat × α)}
    (h : Segment store none head before last (some link)) (hnodup : (before.map Prod.fst).Nodup) :
    ∃ store', setNext store last link next = some store' ∧
      Segment store' none (if before = [] then next else head) before last next ∧
        ∀ c ∉ before.map Prod.fst, store' c = store c := by
  rcases h.last_cases with ⟨rfl, rfl, -⟩ | ⟨init, b, y, rfl, rfl, p, hinit, hcell⟩
  · exact ⟨store, rfl, ⟨if_pos rfl, rfl⟩, fun _ _ => rfl⟩
  · have hb : b ∉ init.map Prod.fst := fun hmem => by
      rw [List.map_append, List.nodup_append] at hnodup
      exact hnodup.2.2 b hmem b (by simp) rfl
    refine ⟨write store b (some ⟨y, p, next⟩), ?_, ?_, fun c hc => write_of_ne (fun heq => hc (by simp [heq])) _⟩
    · rw [LinkedList.setNext, hcell, Option.map_some, if_pos rfl]
    · rw [if_neg (by simp)]
      refine segment_append.mpr ⟨p, some b, hinit.congr fun c hc => ?_, rfl, next, write_same store b _, rfl, rfl⟩
      exact write_of_ne (fun heq : c = b => hb (heq ▸ hc)) _

/-- Before a segment the list comes from elsewhere. -/
theorem Segment.setPrev {prev first last : Option Nat} {link : Nat} {after : List (Nat × α)}
    (h : Segment store (some link) first after last none) (hnodup : (after.map Prod.fst).Nodup) :
    ∃ store' last', setPrev store first link prev = some store' ∧ Segment store' prev first after last' none ∧
      ∀ c ∉ after.map Prod.fst, store' c = store c := by
  rcases h.first_cases with ⟨rfl, rfl⟩ | ⟨b, y, rest, rfl, rfl, behind, hcell, hrest⟩
  · exact ⟨store, prev, rfl, ⟨rfl, rfl⟩, fun _ _ => rfl⟩
  · have hb : b ∉ rest.map Prod.fst := (List.nodup_cons.mp hnodup).1
    refine ⟨write store b (some ⟨y, prev, behind⟩), last, ?_, ?_, fun c hc => write_of_ne (fun heq => hc (by simp [heq])) _⟩
    · rw [LinkedList.setPrev, hcell, Option.map_some, if_pos rfl]
    · exact ⟨rfl, behind, write_same store b _, hrest.congr fun c hc => write_of_ne (fun heq : c = b => hb (heq ▸ hc)) _⟩

theorem Segment.first_eq {prev first last : Option Nat} {elements : List (Nat × α)}
    (h : Segment store prev first elements last none) : first = firstAddress elements := by
  rcases h.first_cases with ⟨rfl, rfl⟩ | ⟨a, x, rest, rfl, rfl, -⟩
  · rfl
  · rfl

/-- What is left of a list when an element was taken out of it and given back, wherever it stood. -/
theorem IsList.removeLink {head : Option Nat} {before after : List (Nat × α)} {link : Nat} {x : α}
    (h : IsList store head (before ++ (link, x) :: after)) (list : Nat) : ∃ taken store',
      LinkedList.removeLink store list link = some (taken, if link = list then firstAddress after else some list) ∧
        free taken link = some store' ∧
          IsList store' (if before = [] then firstAddress after else head) (before ++ after) := by
  obtain ⟨hnodup, last, hsegment⟩ := h
  obtain ⟨middle, address, hbefore, rfl, behind, hcell, hafter⟩ := segment_append.mp hsegment
  rw [List.map_append, List.map_cons, List.nodup_append] at hnodup
  obtain ⟨hnodupBefore, hnodupRest, hapart⟩ := hnodup
  obtain ⟨hlinkAfter, hnodupAfter⟩ := List.nodup_cons.mp hnodupRest
  have hlinkBefore : link ∉ before.map Prod.fst := fun hmem => hapart link hmem link List.mem_cons_self rfl
  have happart' : ∀ c ∈ before.map Prod.fst, c ∉ after.map Prod.fst := fun c hc hc' =>
    hapart c hc c (List.mem_cons_of_mem _ hc') rfl
  -- the element before is linked to the one behind, and that to the one before
  obtain ⟨store₁, hnext, hbefore₁, hsame₁⟩ := @Segment.setNext _ store head middle behind link before hbefore hnodupBefore
  have hafter₁ : Segment store₁ (some link) behind after last none :=
    hafter.congr fun c hc => hsame₁ c fun hc' => happart' c hc' hc
  obtain ⟨store₂, last', hprev, hafter₂, hsame₂⟩ := @Segment.setPrev _ store₁ middle behind last link after hafter₁ hnodupAfter
  have hbefore₂ := hbefore₁.congr fun c hc => hsame₂ c (happart' c hc)
  have hlink₂ : store₂ link = some ⟨x, middle, behind⟩ := by rw [hsame₂ link hlinkAfter, hsame₁ link hlinkBefore, hcell]
  have hbehind := hafter.first_eq
  refine ⟨write store₂ link (some ⟨x, none, none⟩), write (write store₂ link (some ⟨x, none, none⟩)) link none, ?_, ?_, ?_, ?_⟩
  · rw [LinkedList.removeLink, hcell, Option.bind_some]
    simp only
    rw [hnext, Option.bind_some, hprev, Option.bind_some]
    by_cases hlist : link = list
    · subst hlist
      rw [if_pos rfl, if_pos rfl, hlink₂, hbehind]
      rfl
    · rw [if_neg hlist, if_neg hlist]
      rfl
  · rw [free, write_same]
    rfl
  · rw [List.map_append, List.nodup_append]
    exact ⟨hnodupBefore, hnodupAfter, fun c hc d hd => hapart c hc d (List.mem_cons_of_mem _ hd)⟩
  · rw [hbehind] at hbefore₂ hafter₂
    refine ⟨last', segment_append.mpr ⟨middle, firstAddress after, hbefore₂.congr fun c hc => ?_, hafter₂.congr fun c hc => ?_⟩⟩
    · have hne : c ≠ link := fun heq => hlinkBefore (heq ▸ hc)
      rw [write_of_ne hne, write_of_ne hne]
    · have hne : c ≠ link := fun heq => hlinkAfter (heq ▸ hc)
      rw [write_of_ne hne, write_of_ne hne]

end LinkedList
