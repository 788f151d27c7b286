import Mathlib.Data.List.Sort

/-!
# Stable sorting

What a stable sort does to the greatest elements of a list: they stand at its end, in the order they had. The relation need not
be antisymmetric, so different elements may be as great as each other.
-/

namespace StableSort

variable {α : Type} (r : α → α → Prop)

/-- The greatest element of a list and, where several are as great, the last of them. -/
def IsLastGreatest (l : List α) (x : α) : Prop :=
  ∃ before after, l = before ++ x :: after ∧ (∀ y ∈ before, r y x) ∧ ∀ y ∈ after, ¬r x y

/-- A list that is not empty has one. -/
theorem exists_isLastGreatest [Std.Total r] [IsTrans α r] {l : List α} (hne : l ≠ []) : ∃ x, IsLastGreatest r l x := by
  induction l with
  | nil => exact absurd rfl hne
  | cons a l ih =>
    rcases eq_or_ne l [] with rfl | hl
    · exact ⟨a, [], [], rfl, by simp, by simp⟩
    · obtain ⟨x, before, after, rfl, hbefore, hafter⟩ := ih hl
      by_cases hax : r a x
      · exact ⟨x, a :: before, after, rfl, List.forall_mem_cons.mpr ⟨hax, hbefore⟩, hafter⟩
      · refine ⟨a, [], before ++ x :: after, rfl, by simp, fun y hy hay => hax ?_⟩
        rcases List.mem_append.mp hy with hy | hy
        · exact trans_of r hay (hbefore y hy)
        · rcases List.mem_cons.mp hy with rfl | hy
          · exact hay
          · exact trans_of r hay ((total_of r x y).resolve_left (hafter y hy))

section

variable {r}

theorem IsLastGreatest.mem {l : List α} {x : α} (h : IsLastGreatest r l x) : x ∈ l := by
  obtain ⟨before, after, rfl, -, -⟩ := h
  exact List.mem_append_right _ List.mem_cons_self

/-- It is still the last greatest when others are left out. -/
theorem IsLastGreatest.filter {l : List α} {x : α} (h : IsLastGreatest r l x) {p : α → Bool} (hp : p x = true) :
    IsLastGreatest r (l.filter p) x := by
  obtain ⟨before, after, rfl, hbefore, hafter⟩ := h
  refine ⟨before.filter p, after.filter p, ?_, fun y hy => hbefore y (List.mem_of_mem_filter hy),
    fun y hy => hafter y (List.mem_of_mem_filter hy)⟩
  rw [List.filter_append, List.filter_cons_of_pos hp]

/-- What keeps the order keeps the last greatest. -/
theorem IsLastGreatest.map {β : Type} {s : β → β → Prop} {f : α → β} (hf : ∀ a b, s (f a) (f b) ↔ r a b) {l : List α} {x : α}
    (h : IsLastGreatest r l x) : IsLastGreatest s (l.map f) (f x) := by
  obtain ⟨before, after, rfl, hbefore, hafter⟩ := h
  refine ⟨before.map f, after.map f, by rw [List.map_append, List.map_cons], ?_, ?_⟩
  · exact List.forall_mem_map.mpr fun y hy => (hf y x).mpr (hbefore y hy)
  · exact List.forall_mem_map.mpr fun y hy hxy => hafter y hy ((hf x y).mp hxy)

end

variable [DecidableRel r]

/-- The greatest elements of a list, once one is known. -/
def greatest (x : α) (l : List α) : List α := l.filter fun y => r x y

theorem mem_greatest {x y : α} {l : List α} : y ∈ greatest r x l ↔ y ∈ l ∧ r x y := by
  rw [greatest, List.mem_filter, decide_eq_true_iff]

theorem greatest_cons_of_pos {x a : α} (h : r x a) (l : List α) : greatest r x (a :: l) = a :: greatest r x l :=
  List.filter_cons_of_pos (by simpa using h)

theorem greatest_cons_of_neg {x a : α} (h : ¬r x a) (l : List α) : greatest r x (a :: l) = greatest r x l :=
  List.filter_cons_of_neg (by simpa using h)

theorem greatest_reverse (x : α) (l : List α) : greatest r x l.reverse = (greatest r x l).reverse := List.filter_reverse ..

variable {r}

/-- Sorting leaves the greatest elements in their order. -/
theorem greatest_insertionSort [IsTrans α r] {l : List α} {x : α} (hx : ∀ y ∈ l, r y x) :
    greatest r x (l.insertionSort r) = greatest r x l := by
  have hsorted : (greatest r x l).Pairwise r := by
    refine List.pairwise_of_forall_mem_list fun a ha b hb => ?_
    exact trans_of r (hx a ((mem_greatest r).mp ha).1) ((mem_greatest r).mp hb).2
  have hsub := (List.sublist_insertionSort (r := r) hsorted List.filter_sublist).filter fun y => decide (r x y)
  have hsame : (greatest r x l).filter (fun y => decide (r x y)) = greatest r x l := by
    rw [greatest, List.filter_filter]
    simp
  rw [hsame] at hsub
  exact (hsub.eq_of_length ((List.perm_insertionSort r l).filter _).length_eq.symm).symm

/-- An element is inserted in front of a list in which nothing is less. -/
theorem orderedInsert_of_forall_le {a : α} {l : List α} (h : ∀ b ∈ l, r a b) : l.orderedInsert r a = a :: l := by
  cases l with
  | nil => rfl
  | cons b l => exact List.orderedInsert_cons_of_le r l (h b List.mem_cons_self)

/-- Sorting commutes with leaving elements out. -/
theorem filter_insertionSort [Std.Total r] [IsTrans α r] (p : α → Bool) (l : List α) :
    (l.insertionSort r).filter p = (l.filter p).insertionSort r := by
  have hinsert : ∀ (a : α) (sorted : List α), sorted.Pairwise r →
      (sorted.orderedInsert r a).filter p = if p a then (sorted.filter p).orderedInsert r a else sorted.filter p := by
    intro a sorted hsorted
    induction sorted with
    | nil => simp [List.filter_cons]
    | cons b sorted ih =>
      obtain ⟨hb, hrest⟩ := List.pairwise_cons.mp hsorted
      by_cases hab : r a b
      · have hall : ∀ c ∈ (b :: sorted).filter p, r a c := fun c hc => by
          rcases List.mem_cons.mp (List.mem_of_mem_filter hc) with rfl | hc
          · exact hab
          · exact trans_of r hab (hb c hc)
        rw [List.orderedInsert_cons_of_le r _ hab, orderedInsert_of_forall_le hall, List.filter_cons]
      · rw [List.orderedInsert_of_not_le r _ hab, List.filter_cons, ih hrest, List.filter_cons]
        by_cases hpb : p b
        · cases p a <;> simp [hpb, hab]
        · simp [hpb]
  induction l with
  | nil => rfl
  | cons a l ih =>
    rw [List.insertionSort_cons, hinsert a _ (List.pairwise_insertionSort r l), ih, List.filter_cons]
    by_cases hpa : p a
    · simp [hpa]
    · simp [hpa]

variable [Std.Total r]

/-- Nothing in the list is greater than the last greatest element, and it is the last of the greatest. -/
theorem IsLastGreatest.spec {l : List α} {x : α} (h : IsLastGreatest r l x) :
    (∀ y ∈ l, r y x) ∧ (greatest r x l).getLast? = some x := by
  obtain ⟨before, after, rfl, hbefore, hafter⟩ := h
  have hself : r x x := (total_of r x x).elim id id
  constructor
  · intro y hy
    rcases List.mem_append.mp hy with hy | hy
    · exact hbefore y hy
    · rcases List.mem_cons.mp hy with rfl | hy
      · exact hself
      · exact (total_of r x y).resolve_left (hafter y hy)
  · have hnone : greatest r x after = [] := List.filter_eq_nil_iff.mpr fun y hy => by simpa using hafter y hy
    unfold greatest at hnone ⊢
    rw [List.filter_append, List.filter_cons_of_pos (by simpa using hself), hnone, List.getLast?_append, List.getLast?_singleton,
      Option.some_or]

/-- A list has no two. -/
theorem IsLastGreatest.unique [IsTrans α r] {l : List α} {x y : α} (hx : IsLastGreatest r l x) (hy : IsLastGreatest r l y) : x = y := by
  have hsame : greatest r x l = greatest r y l := by
    have hxy : r x y := hy.spec.1 x hx.mem
    have hyx : r y x := hx.spec.1 y hy.mem
    exact List.filter_congr fun z _ => decide_eq_decide.mpr ⟨trans_of r hyx, trans_of r hxy⟩
  exact Option.some.inj (hx.spec.2.symm.trans (hsame ▸ hy.spec.2))

/-- An element that nothing is greater than, and which is the last of those as great, is the last greatest. -/
theorem isLastGreatest_iff {l : List α} {x : α} :
    IsLastGreatest r l x ↔ (∀ y ∈ l, r y x) ∧ (greatest r x l).getLast? = some x := by
  refine ⟨IsLastGreatest.spec, ?_⟩
  rintro ⟨hmax, hlast⟩
  rw [List.getLast?_eq_head?_reverse, ← greatest_reverse] at hlast
  obtain ⟨others, hothers⟩ := List.head?_eq_some_iff.mp hlast
  obtain ⟨after, before, hsplit, hafter, -, -⟩ := List.filter_eq_cons_iff.mp hothers
  refine ⟨before.reverse, after.reverse, ?_, fun y hy => hmax y ?_, fun y hy => ?_⟩
  · rw [← List.reverse_reverse l, hsplit]
    simp
  · rw [← List.mem_reverse, hsplit]
    simp only [List.mem_reverse] at hy
    simp [hy]
  · simpa using hafter y (List.mem_reverse.mp hy)

/-- The last element of a sorted list is the last of the greatest. -/
theorem getLast?_greatest {l : List α} (h : l.Pairwise r) {x : α} (hx : x ∈ l) : (greatest r x l).getLast? = l.getLast? := by
  rcases List.eq_nil_or_concat l with rfl | ⟨init, last, rfl⟩
  · exact absurd hx List.not_mem_nil
  · rw [List.concat_eq_append] at h hx ⊢
    have hlast : r x last := by
      rcases List.mem_append.mp hx with hx | hx
      · exact (List.pairwise_append.mp h).2.2 x hx last List.mem_cons_self
      · rw [List.mem_singleton.mp hx]
        exact (total_of r last last).elim id id
    rw [greatest, List.filter_append, List.filter_cons_of_pos (by simpa using hlast), List.getLast?_append]
    simp

end StableSort
