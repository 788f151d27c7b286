import Sauvegarde.Lib.LinkedList
import Sauvegarde.Lib.Loop

/-!
# Rings

Doubly linked lists that are closed: before the first element is the last, and behind the last the first. One pointer, to the first
element, is enough to put an element at the end and to take the first one out.
-/

namespace LinkedList

variable {α : Type}

/-- The address of the last element. -/
def lastAddress (elements : List (Nat × α)) : Option Nat := (elements.map Prod.fst).getLast?

/-- A ring: `head` is the first of its elements, which have different addresses and are the only ones in the store. -/
structure IsRing (store : Store α) (head : Option Nat) (elements : List (Nat × α)) : Prop where
  nodup : (elements.map Prod.fst).Nodup
  head : head = firstAddress elements
  segment : Segment store (lastAddress elements) (firstAddress elements) elements (lastAddress elements) (firstAddress elements)
  owned : ∀ a, store a ≠ none → a ∈ elements.map Prod.fst

/-! ## Operations -/

/-- Write to the element at an address. -/
def modify (store : Store α) (address : Nat) (f : Cell α → Cell α) : Option (Store α) :=
  (store address).map fun cell => write store address (some (f cell))

/-- Put an element at the end of the ring: between the one before the first, and the first. -/
def insertLast (store : Store α) (head : Option Nat) (address : Nat) (x : α) : Option (Store α × Option Nat) :=
  match head with
  | none => some (write store address (some ⟨x, some address, some address⟩), some address)
  | some first =>
    (store first).bind fun cell =>
      match cell.prev with
      | none => some (write store address (some ⟨x, some address, some address⟩), some address)
      | some last =>
        -- `(*gb)->prev->next = buf` and `(*gb)->prev = buf`
        (modify (write store address (some ⟨x, some last, some first⟩)) last fun c => { c with next := some address }).bind
          fun store => (modify store first fun c => { c with prev := some address }).map fun store => (store, some first)

/-- Take the first element out of the ring, and give it back. -/
def removeFirst (store : Store α) (first : Nat) : Option (Store α × Option Nat) :=
  (store first).bind fun cell =>
    if cell.next = some first then some (write store first none, none)
    else
      cell.prev.bind fun prev => cell.next.bind fun next =>
        (modify store prev fun c => { c with next := some next }).bind fun store =>
          (modify store next fun c => { c with prev := some prev }).map fun store => (write store first none, some next)

/-- Give back all elements, the one after the other, until the next is the one it began with. -/
def destroy (fuel : Nat) (store : Store α) (start : Option Nat) : Option (Store α × Option Nat) :=
  Loop.run (fun (_, gb) => gb.isSome)
    (fun (store, gb) => gb.bind fun a => (store a).map fun cell =>
      (write store a none, if cell.next = start then none else cell.next))
    fuel (store, start)

/-! ## The ends of a segment -/

variable {store : Store α}

theorem lastAddress_append_singleton (elements : List (Nat × α)) (a : Nat) (x : α) :
    lastAddress (elements ++ [(a, x)]) = some a := by
  simp [lastAddress]

theorem firstAddress_append_singleton (elements : List (Nat × α)) (a : Nat) (x : α) :
    firstAddress (elements ++ [(a, x)]) = some ((firstAddress elements).getD a) := by
  cases elements <;> rfl

/-- The last element of a segment is linked to another one behind it. -/
theorem Segment.modify_last {prev first next : Option Nat} {elements : List (Nat × α)} {last : Nat} (next' : Option Nat)
    (h : Segment store prev first elements (some last) next) (hne : elements ≠ []) (hnodup : (elements.map Prod.fst).Nodup) :
    ∃ store', modify store last (fun c => { c with next := next' }) = some store' ∧
      Segment store' prev first elements (some last) next' ∧ ∀ c, c ≠ last → store' c = store c := by
  rcases h.last_cases with ⟨rfl, -, -⟩ | ⟨before, a, x, rfl, hlast, p, hbefore, hcell⟩
  · exact absurd rfl hne
  · obtain rfl := Option.some.inj hlast
    have ha : last ∉ before.map Prod.fst := fun hmem => by
      rw [List.map_append, List.nodup_append] at hnodup
      exact hnodup.2.2 last hmem last (by simp) rfl
    refine ⟨write store last (some ⟨x, p, next'⟩), ?_, ?_, fun c hc => write_of_ne hc _⟩
    · rw [modify, hcell]
      rfl
    · refine segment_append.mpr ⟨p, some last, hbefore.congr fun c hc => ?_, rfl, next', write_same store last _, rfl, rfl⟩
      exact write_of_ne (fun heq : c = last => ha (heq ▸ hc)) _

/-- The first element of a segment is linked to another one before it. -/
theorem Segment.modify_first {prev last next : Option Nat} {elements : List (Nat × α)} {first : Nat} (prev' : Nat)
    (h : Segment store prev (some first) elements last next) (hne : elements ≠ []) (hnodup : (elements.map Prod.fst).Nodup) :
    ∃ store', modify store first (fun c => { c with prev := some prev' }) = some store' ∧
      Segment store' (some prev') (some first) elements last next ∧ ∀ c, c ≠ first → store' c = store c := by
  rcases h.first_cases with ⟨rfl, -⟩ | ⟨a, x, rest, rfl, hfirst, behind, hcell, hrest⟩
  · exact absurd rfl hne
  · obtain rfl := Option.some.inj hfirst
    have ha : first ∉ rest.map Prod.fst := (List.nodup_cons.mp hnodup).1
    refine ⟨write store first (some ⟨x, some prev', behind⟩), ?_, ?_, fun c hc => write_of_ne hc _⟩
    · rw [modify, hcell]
      rfl
    · exact ⟨rfl, behind, write_same store first _, hrest.congr fun c hc => write_of_ne (fun heq : c = first => ha (heq ▸ hc)) _⟩

/-- What an element holds is written, and it stays linked as it was. -/
theorem Segment.modify_data {before after : List (Nat × α)} {prev first last next : Option Nat} {a : Nat} {x : α}
    (h : Segment store prev first (before ++ (a, x) :: after) last next)
    (hnodup : ((before ++ (a, x) :: after).map Prod.fst).Nodup) (f : α → α) :
    ∃ store', modify store a (fun c => { c with data := f c.data }) = some store' ∧
      Segment store' prev first (before ++ (a, f x) :: after) last next ∧ ∀ c, c ≠ a → store' c = store c := by
  obtain ⟨middle, address, hbefore, rfl, behind, hcell, hafter⟩ := segment_append.mp h
  rw [List.map_append, List.map_cons, List.nodup_append] at hnodup
  have hbefore' : a ∉ before.map Prod.fst := fun hmem => hnodup.2.2 a hmem a List.mem_cons_self rfl
  have hafter' : a ∉ after.map Prod.fst := (List.nodup_cons.mp hnodup.2.1).1
  refine ⟨write store a (some ⟨f x, middle, behind⟩), ?_, ?_, fun c hc => write_of_ne hc _⟩
  · rw [modify, hcell]
    rfl
  · refine segment_append.mpr ⟨middle, some a, hbefore.congr fun c hc => ?_, rfl, behind, write_same store a _,
      hafter.congr fun c hc => ?_⟩
    · exact write_of_ne (fun heq : c = a => hbefore' (heq ▸ hc)) _
    · exact write_of_ne (fun heq : c = a => hafter' (heq ▸ hc)) _

/-! ## The operations keep the ring -/

/-- The store without elements is the empty ring. -/
theorem isRing_empty : IsRing (fun _ => none : Store α) none [] :=
  ⟨List.nodup_nil, rfl, ⟨rfl, rfl⟩, fun _ h => absurd rfl h⟩

/-- The pointer is to the first element, and the element before it is the last. -/
theorem IsRing.first_cell {head : Option Nat} {elements : List (Nat × α)} (h : IsRing store head elements) :
    (head = none ∧ elements = []) ∨ ∃ first x rest, elements = (first, x) :: rest ∧ head = some first ∧
      ∃ behind, store first = some ⟨x, lastAddress elements, behind⟩ := by
  obtain ⟨_, rfl, hsegment, _⟩ := h
  rcases hsegment.first_cases with ⟨rfl, -⟩ | ⟨first, x, rest, rfl, hfirst, behind, hcell, -⟩
  · exact Or.inl ⟨rfl, rfl⟩
  · exact Or.inr ⟨first, x, rest, rfl, hfirst, behind, hcell⟩

/-- What an element holds is written in the ring. -/
theorem IsRing.modify_data {head : Option Nat} {before after : List (Nat × α)} {a : Nat} {x : α}
    (h : IsRing store head (before ++ (a, x) :: after)) (f : α → α) :
    ∃ store', modify store a (fun c => { c with data := f c.data }) = some store' ∧
      IsRing store' head (before ++ (a, f x) :: after) := by
  obtain ⟨hnodup, rfl, hsegment, howned⟩ := h
  obtain ⟨store', hmodify, hsegment', hsame⟩ := hsegment.modify_data hnodup f
  have haddresses : (before ++ (a, f x) :: after).map Prod.fst = (before ++ (a, x) :: after).map Prod.fst := by simp
  have hfirst : firstAddress (before ++ (a, f x) :: after) = firstAddress (before ++ (a, x) :: after) := by
    cases before <;> rfl
  have hlast : lastAddress (before ++ (a, f x) :: after) = lastAddress (before ++ (a, x) :: after) := by
    rw [lastAddress, haddresses, lastAddress]
  refine ⟨store', hmodify, by rwa [haddresses], hfirst.symm, by rwa [hfirst, hlast], fun c hc => ?_⟩
  rw [haddresses]
  by_cases hca : c = a
  · simp [hca]
  · exact howned c (hsame c hca ▸ hc)

/-- An element that is put at the end of the ring is the last. -/
theorem IsRing.insertLast {head : Option Nat} {elements : List (Nat × α)} (h : IsRing store head elements) {a : Nat}
    (hfree : store a = none) (x : α) :
    ∃ store' head', LinkedList.insertLast store head a x = some (store', head') ∧ IsRing store' head' (elements ++ [(a, x)]) := by
  rcases h.first_cell with ⟨rfl, rfl⟩ | ⟨first, y, rest, rfl, rfl, behind, hfirst⟩
  · refine ⟨_, _, rfl, List.pairwise_singleton _ a, rfl, ⟨rfl, some a, write_same store a _, rfl, rfl⟩, fun c hc => ?_⟩
    by_cases hca : c = a
    · simp [hca]
    · rw [write_of_ne hca] at hc
      exact absurd (h.owned c hc) List.not_mem_nil
  · obtain ⟨hnodup, -, hsegment, howned⟩ := h
    obtain ⟨last, hlast⟩ : ∃ last, lastAddress ((first, y) :: rest) = some last :=
      Option.isSome_iff_exists.mp (by simp [lastAddress, List.getLast?_cons])
    rw [hlast] at hsegment hfirst
    have hfirstAddress : firstAddress ((first, y) :: rest) = some first := rfl
    rw [hfirstAddress] at hsegment
    have ha : a ∉ ((first, y) :: rest).map Prod.fst := fun hmem => by
      obtain ⟨element, helement, rfl⟩ := List.mem_map.mp hmem
      obtain ⟨before, after, heq⟩ := List.append_of_mem helement
      rw [heq] at hsegment
      obtain ⟨_, _, -, -, _, hcell, -⟩ := segment_append.mp hsegment
      rw [hfree] at hcell
      exact absurd hcell.symm (Option.some_ne_none _)
    -- the new element is linked to its neighbours, then the last to it, then the first
    obtain ⟨store₁, hnext, hsegment₁, hsame₁⟩ := Segment.modify_last (some a)
      (hsegment.congr fun c hc => write_of_ne (fun heq : c = a => ha (heq ▸ hc)) (some ⟨x, some last, some first⟩))
      (List.cons_ne_nil _ _) hnodup
    obtain ⟨store₂, hprev, hsegment₂, hsame₂⟩ := hsegment₁.modify_first a (List.cons_ne_nil _ _) hnodup
    have hlastMem : last ∈ ((first, y) :: rest).map Prod.fst := List.mem_of_getLast? hlast
    have hne : a ≠ last := fun heq => ha (heq ▸ hlastMem)
    have hne' : a ≠ first := fun heq => ha (heq ▸ List.mem_cons_self)
    refine ⟨store₂, some first, ?_, ?_, rfl, ?_, fun c hc => ?_⟩
    · rw [LinkedList.insertLast, hfirst, Option.bind_some]
      simp only
      rw [hnext, Option.bind_some, hprev, Option.map_some]
    · rw [List.map_append, List.nodup_append]
      exact ⟨hnodup, List.pairwise_singleton _ a, fun c hc d hd heq => ha (by simpa [heq ▸ List.mem_singleton.mp hd] using hc)⟩
    · rw [lastAddress_append_singleton, firstAddress_append_singleton]
      refine segment_append.mpr ⟨some last, some a, hsegment₂, rfl, some first, ?_, rfl, rfl⟩
      rw [hsame₂ a hne', hsame₁ a hne, write_same]
    · rw [List.map_append, List.mem_append]
      by_cases hca : c = a
      · exact Or.inr (by simp [hca])
      · refine Or.inl (by_contra fun hmem => ?_)
        have hcl : c ≠ last := fun heq => hmem (heq ▸ hlastMem)
        have hcf : c ≠ first := fun heq => hmem (heq ▸ List.mem_cons_self)
        rw [hsame₂ c hcf, hsame₁ c hcl, write_of_ne hca] at hc
        exact hmem (howned c hc)

/-- The first element of a ring is taken out and given back. -/
theorem IsRing.removeFirst {head : Option Nat} {rest : List (Nat × α)} {a : Nat} {x : α}
    (h : IsRing store head ((a, x) :: rest)) :
    ∃ store', LinkedList.removeFirst store a = some (store', firstAddress rest) ∧ IsRing store' (firstAddress rest) rest := by
  obtain ⟨hnodup, -, hsegment, howned⟩ := h
  obtain ⟨hmem, hnodupRest⟩ := List.nodup_cons.mp hnodup
  obtain ⟨-, behind, hcell, hrest⟩ := hsegment
  rcases rest with _ | ⟨⟨b, y⟩, rest⟩
  · obtain ⟨rfl, -⟩ := hrest
    refine ⟨write store a none, ?_, List.nodup_nil, rfl, ⟨rfl, rfl⟩, fun c hc => ?_⟩
    · rw [LinkedList.removeFirst, hcell, Option.bind_some]
      exact if_pos rfl
    · by_cases hca : c = a
      · exact absurd (hca ▸ write_same store a none) hc
      · rw [write_of_ne hca] at hc
        exact absurd (List.mem_singleton.mp (howned c hc)) hca
  · obtain ⟨last, hlast⟩ : ∃ last, lastAddress ((b, y) :: rest) = some last :=
      Option.isSome_iff_exists.mp (by simp [lastAddress, List.getLast?_cons])
    have hlast' : lastAddress ((a, x) :: (b, y) :: rest) = some last := by
      rw [← hlast, lastAddress, lastAddress, List.map_cons, List.map_cons, List.getLast?_cons_cons]
    have hbehind : behind = some b := hrest.1
    have hba : b ≠ a := fun heq => hmem (heq ▸ List.mem_cons_self)
    have hlastMem : last ∈ ((b, y) :: rest).map Prod.fst := List.mem_of_getLast? hlast
    have hla : last ≠ a := fun heq => hmem (heq ▸ hlastMem)
    rw [hlast'] at hcell hrest
    subst hbehind
    obtain ⟨store₁, hnext, hsegment₁, hsame₁⟩ := hrest.modify_last (some b) (List.cons_ne_nil _ _) hnodupRest
    obtain ⟨store₂, hprev, hsegment₂, hsame₂⟩ := hsegment₁.modify_first last (List.cons_ne_nil _ _) hnodupRest
    refine ⟨write store₂ a none, ?_, hnodupRest, rfl, ?_, fun c hc => ?_⟩
    · rw [LinkedList.removeFirst, hcell, Option.bind_some, if_neg (fun heq => hba (Option.some.inj heq))]
      simp only [Option.bind_some]
      rw [hnext, Option.bind_some, hprev]
      rfl
    · rw [hlast]
      exact hsegment₂.congr fun c hc => write_of_ne (fun heq : c = a => hmem (heq ▸ hc)) _
    · by_cases hca : c = a
      · exact absurd (hca ▸ write_same store₂ a none) hc
      · refine by_contra fun hcmem => ?_
        have hcl : c ≠ last := fun heq => hcmem (heq ▸ hlastMem)
        have hcb : c ≠ b := fun heq => hcmem (heq ▸ List.mem_cons_self)
        rw [write_of_ne hca, hsame₂ c hcb, hsame₁ c hcl] at hc
        exact (List.mem_cons.mp (howned c hc)).elim hca hcmem

/-- From an element on, the elements up to the one it began with are given back. -/
theorem Segment.destroy (rest : List (Nat × α)) : ∀ {store : Store α} {prev last : Option Nat} {a start : Nat} {x : α},
    Segment store prev (some a) ((a, x) :: rest) last (some start) → start ∉ rest.map Prod.fst →
      (((a, x) :: rest).map Prod.fst).Nodup → (∀ c, store c ≠ none → c ∈ ((a, x) :: rest).map Prod.fst) →
        Loop.run (fun (s : Store α × Option Nat) => s.2.isSome)
          (fun (store, gb) => gb.bind fun a => (store a).map fun cell =>
            (write store a none, if cell.next = some start then none else cell.next))
          (rest.length + 2) (store, some a) = some (fun _ => none, none) := by
  induction rest with
  | nil =>
    rintro store prev last a start x ⟨-, behind, hcell, rfl, -⟩ - - howned
    have hgone : write store a none = fun _ => none := funext fun c => by
      by_cases hca : c = a
      · rw [hca, write_same]
      · rw [write_of_ne hca]
        exact by_contra fun hc => hca (by simpa using howned c hc)
    rw [Loop.run_of_true rfl (by simp only [Option.bind_some, hcell, Option.map_some, if_true]; rfl), hgone]
    exact Loop.run_of_false rfl 0
  | cons element rest ih =>
    obtain ⟨b, y⟩ := element
    rintro store prev last a start x ⟨-, behind, hcell, hrest⟩ hstart hnodup howned
    obtain ⟨hmem, hnodupRest⟩ := List.nodup_cons.mp hnodup
    have hbehind : behind = some b := hrest.1
    have hne : some b ≠ some start := fun heq => hstart (Option.some.inj heq ▸ List.mem_cons_self)
    subst hbehind
    rw [Loop.run_of_true rfl (by simp only [Option.bind_some, hcell, Option.map_some, if_neg hne]; rfl)]
    refine ih (hrest.congr fun c hc => write_of_ne (fun heq : c = a => hmem (heq ▸ hc)) _)
      (fun hs => hstart (List.mem_cons_of_mem _ hs)) hnodupRest fun c hc => ?_
    by_cases hca : c = a
    · exact absurd (hca ▸ write_same store a none) hc
    · rw [write_of_ne hca] at hc
      exact (List.mem_cons.mp (howned c hc)).resolve_left hca

/-- Every element of a ring is given back once, and none is left. -/
theorem IsRing.destroy {head : Option Nat} {elements : List (Nat × α)} (h : IsRing store head elements) {fuel : Nat}
    (hfuel : elements.length < fuel) : LinkedList.destroy fuel store head = some (fun _ => none, none) := by
  refine Loop.run_mono (fun _ _ h => h) (show elements.length + 1 ≤ fuel by omega) ?_
  rcases h.first_cell with ⟨rfl, rfl⟩ | ⟨first, x, rest, rfl, rfl, -⟩
  · have hempty : store = fun _ => none := funext fun c => by_contra fun hc => List.not_mem_nil (h.owned c hc)
    rw [hempty]
    exact Loop.run_of_false rfl 0
  · exact Segment.destroy rest h.segment (List.nodup_cons.mp h.nodup).1 h.nodup h.owned

end LinkedList
