import Mathlib.Data.List.Pairwise
import Mathlib.Order.Lattice

/-!
# The first of the greatest

A list whose elements with one key stand together is walked through once: of each key the first of the elements of greatest rank is
kept. An element gives way to the next one with its key when that is greater, and takes its place when it is not.
-/

namespace Latest

variable {α β K R : Type} [LinearOrder K] [LinearOrder R]

section

variable (key : α → K) (rank : α → R)

/-- The walk, at one element with those behind it. -/
def keepFrom (a : α) : List α → List α
  | [] => [a]
  | b :: list =>
    if key a = key b then if rank a < rank b then keepFrom b list else keepFrom a list else a :: keepFrom b list

/-- What is kept of a list. -/
def keep : List α → List α
  | [] => []
  | a :: list => keepFrom key rank a list

/-- An element of a key that no other of that key is greater than. -/
def IsGreatest (list : List α) (k : K) (a : α) : Prop := key a = k ∧ ∀ b ∈ list, key b = k → rank b ≤ rank a

instance (list : List α) (k : K) : DecidablePred (IsGreatest key rank list k) := fun _ => inferInstanceAs (Decidable (_ ∧ _))

end

variable {key : α → K} {rank : α → R}

/-- What is kept is part of the list, in its order. -/
theorem keepFrom_sublist (a : α) (list : List α) : (keepFrom key rank a list).Sublist (a :: list) := by
  induction list generalizing a with
  | nil => exact List.Sublist.refl _
  | cons b list ih =>
    rw [keepFrom]
    split_ifs
    · exact (ih b).cons a
    · exact (ih a).trans ((List.sublist_cons_self b list).cons_cons a)
    · exact (ih b).cons_cons a

theorem keep_sublist (list : List α) : (keep key rank list).Sublist list := by
  rcases list with _ | ⟨a, list⟩
  · exact List.Sublist.refl _
  · exact keepFrom_sublist a list

/-- Walking through the images of a list under a function. -/
theorem keepFrom_map (f : β → α) (b : β) (list : List β) :
    keepFrom key rank (f b) (list.map f) = (keepFrom (key ∘ f) (rank ∘ f) b list).map f := by
  induction list generalizing b with
  | nil => rfl
  | cons c list ih =>
    rw [List.map_cons, keepFrom, keepFrom]
    simp only [Function.comp_apply]
    split_ifs
    · exact ih c
    · exact ih b
    · rw [List.map_cons, ih c]

omit [LinearOrder K] in
/-- What is greatest in a list is so in one whose elements are no greater than others of their key in the first. -/
theorem IsGreatest.of_le {list list' : List α} {k : K} {c : α} (h : IsGreatest key rank list k c)
    (hle : ∀ a ∈ list', key a = k → ∃ b ∈ list, key b = key a ∧ rank a ≤ rank b) : IsGreatest key rank list' k c := by
  refine ⟨h.1, fun a ha hk => ?_⟩
  obtain ⟨b, hb, hkey, hrank⟩ := hle a ha hk
  exact hrank.trans (h.2 b hb (hkey.trans hk))

/-- An element that gives way to the next one with its key is none of the greatest. -/
theorem filter_of_lt {a b : α} (hkey : key a = key b) (hrank : rank a < rank b) (list : List α) (k : K) :
    (a :: b :: list).filter (fun c => IsGreatest key rank (a :: b :: list) k c) =
      (b :: list).filter fun c => IsGreatest key rank (b :: list) k c := by
  have hnot : ¬ IsGreatest key rank (a :: b :: list) k a := fun h =>
    not_le_of_gt hrank (h.2 b (List.mem_cons_of_mem _ List.mem_cons_self) (hkey ▸ h.1))
  rw [List.filter_cons_of_neg (by simpa using hnot)]
  refine List.filter_congr fun c _ => decide_eq_decide.mpr ⟨fun h => h.of_le fun d hd _ => ?_, fun h => h.of_le fun d hd _ => ?_⟩
  · exact ⟨d, List.mem_cons_of_mem _ hd, rfl, le_refl _⟩
  · rcases List.mem_cons.mp hd with rfl | hd
    · exact ⟨b, List.mem_cons_self, hkey.symm, hrank.le⟩
    · exact ⟨d, hd, rfl, le_refl _⟩

/-- An element that is no smaller than the next one with its key comes before it among the greatest. -/
theorem take_filter_of_le {a b : α} (hkey : key a = key b) (hrank : rank b ≤ rank a) (list : List α) (k : K) :
    ((a :: b :: list).filter fun c => IsGreatest key rank (a :: b :: list) k c).take 1 =
      ((a :: list).filter fun c => IsGreatest key rank (a :: list) k c).take 1 := by
  have hsame : ∀ c, IsGreatest key rank (a :: b :: list) k c ↔ IsGreatest key rank (a :: list) k c := fun c => by
    refine ⟨fun h => h.of_le fun d hd _ => ?_, fun h => h.of_le fun d hd _ => ?_⟩
    · exact ⟨d, List.cons_subset_cons a (List.subset_cons_self b list) hd, rfl, le_refl _⟩
    · rcases List.mem_cons.mp hd with rfl | hd
      · exact ⟨d, List.mem_cons_self, rfl, le_refl _⟩
      rcases List.mem_cons.mp hd with rfl | hd
      · exact ⟨a, List.mem_cons_self, hkey, hrank⟩
      · exact ⟨d, List.mem_cons_of_mem _ hd, rfl, le_refl _⟩
  simp only [hsame]
  by_cases ha : IsGreatest key rank (a :: list) k a
  · simp [List.filter_cons, ha]
  · have hb : ¬ IsGreatest key rank (a :: list) k b := fun hb =>
      ha ⟨hkey.trans hb.1, fun c hc hk => (hb.2 c hc hk).trans hrank⟩
    rw [List.filter_cons, if_neg (by simpa using ha), List.filter_cons, if_neg (by simpa using hb), List.filter_cons,
      if_neg (by simpa using ha)]

/-- An element of another key is none of the greatest of a key. -/
theorem filter_of_ne {a : α} {k : K} (hkey : key a ≠ k) (list : List α) :
    (a :: list).filter (fun c => IsGreatest key rank (a :: list) k c) = list.filter fun c => IsGreatest key rank list k c := by
  rw [List.filter_cons_of_neg (by simpa using fun h : IsGreatest key rank (a :: list) k a => hkey h.1)]
  refine List.filter_congr fun c _ => decide_eq_decide.mpr ⟨fun h => h.of_le fun d hd _ => ?_, fun h => h.of_le fun d hd hk => ?_⟩
  · exact ⟨d, List.mem_cons_of_mem _ hd, rfl, le_refl _⟩
  · rcases List.mem_cons.mp hd with rfl | hd
    · exact absurd hk hkey
    · exact ⟨d, hd, rfl, le_refl _⟩

/-- The only element of a key is the greatest. -/
theorem filter_of_only {a : α} {list : List α} (hother : ∀ c ∈ list, key c ≠ key a) :
    (a :: list).filter (fun c => IsGreatest key rank (a :: list) (key a) c) = [a] := by
  have hself : IsGreatest key rank (a :: list) (key a) a :=
    ⟨rfl, List.forall_mem_cons.mpr ⟨fun _ => le_refl _, fun c hc hck => absurd hck (hother c hc)⟩⟩
  have hnone : list.filter (fun c => IsGreatest key rank (a :: list) (key a) c) = [] :=
    List.filter_eq_nil_iff.mpr fun c hc => by simpa using fun h : IsGreatest key rank _ _ c => hother c hc h.1
  rw [List.filter_cons_of_pos (by simpa using hself), hnone]

/-- Of each key the first of the greatest elements is kept, and no other. -/
theorem filter_keepFrom {a : α} {list : List α} (hsorted : (a :: list).Pairwise fun b c => key b ≤ key c) (k : K) :
    (keepFrom key rank a list).filter (fun b => key b = k) =
      ((a :: list).filter fun b => IsGreatest key rank (a :: list) k b).take 1 := by
  induction list generalizing a with
  | nil =>
    by_cases hk : key a = k
    · subst hk
      rw [filter_of_only fun c hc => absurd hc List.not_mem_nil, keepFrom, List.filter_cons_of_pos (by simp)]
      rfl
    · rw [filter_of_ne hk, keepFrom, List.filter_cons_of_neg (by simpa using hk)]
      rfl
  | cons b list ih =>
    obtain ⟨ha, hrest⟩ := List.pairwise_cons.mp hsorted
    rw [keepFrom]
    by_cases hkey : key a = key b
    · rw [if_pos hkey]
      by_cases hrank : rank a < rank b
      · rw [if_pos hrank, ih hrest, filter_of_lt hkey hrank]
      · rw [if_neg hrank, ih (hsorted.sublist ((List.sublist_cons_self b list).cons_cons a)),
          take_filter_of_le hkey (not_lt.mp hrank)]
    · rw [if_neg hkey]
      by_cases hk : key a = k
      · -- no other element has this key
        subst hk
        have hother : ∀ c ∈ b :: list, key c ≠ key a := fun c hc heq => by
          have hbc : key b ≤ key c := by
            rcases List.mem_cons.mp hc with rfl | hc
            · exact le_refl _
            · exact (List.pairwise_cons.mp hrest).1 c hc
          exact hkey (le_antisymm (ha b List.mem_cons_self) (hbc.trans heq.le))
        have hnone : (keepFrom key rank b list).filter (fun c => key c = key a) = [] :=
          List.filter_eq_nil_iff.mpr fun c hc => by simpa using hother c ((keepFrom_sublist b list).subset hc)
        rw [filter_of_only hother, List.filter_cons_of_pos (by simp), hnone]
        rfl
      · rw [filter_of_ne hk, List.filter_cons_of_neg (by simpa using hk), ih hrest]

theorem filter_keep {list : List α} (hsorted : list.Pairwise fun b c => key b ≤ key c) (k : K) :
    (keep key rank list).filter (fun b => key b = k) = (list.filter fun b => IsGreatest key rank list k b).take 1 := by
  rcases list with _ | ⟨a, list⟩
  · rfl
  · exact filter_keepFrom hsorted k

omit [LinearOrder K] in
/-- Of a key that an element has there is a greatest element. -/
theorem exists_isGreatest {k : K} {list : List α} (h : ∃ a ∈ list, key a = k) : ∃ b ∈ list, IsGreatest key rank list k b := by
  induction list with
  | nil =>
    obtain ⟨a, ha, -⟩ := h
    exact absurd ha List.not_mem_nil
  | cons c list ih =>
    by_cases hlist : ∃ a ∈ list, key a = k
    · obtain ⟨b, hb, hgreatest⟩ := ih hlist
      by_cases hc : key c = k ∧ rank b < rank c
      · refine ⟨c, List.mem_cons_self, hc.1, List.forall_mem_cons.mpr ⟨fun _ => le_refl _, fun d hd hk => ?_⟩⟩
        exact (hgreatest.2 d hd hk).trans hc.2.le
      · refine ⟨b, List.mem_cons_of_mem _ hb, hgreatest.1, List.forall_mem_cons.mpr ⟨fun hk => ?_, hgreatest.2⟩⟩
        exact not_lt.mp fun hlt => hc ⟨hk, hlt⟩
    · obtain ⟨a, ha, hk⟩ := h
      have hac : a = c := (List.mem_cons.mp ha).resolve_right fun hmem => hlist ⟨a, hmem, hk⟩
      refine ⟨c, List.mem_cons_self, hac ▸ hk, List.forall_mem_cons.mpr ⟨fun _ => le_refl _, fun d hd hdk => ?_⟩⟩
      exact absurd ⟨d, hd, hdk⟩ hlist

/-- Of the key of each element exactly one is kept: the first of the greatest. -/
theorem exists_filter_keep {list : List α} (hsorted : list.Pairwise fun b c => key b ≤ key c) {a : α} (ha : a ∈ list) :
    ∃ first, (list.filter fun b => IsGreatest key rank list (key a) b).head? = some first ∧
      (keep key rank list).filter (fun b => key b = key a) = [first] := by
  obtain ⟨b, hb, hgreatest⟩ := @exists_isGreatest α K R _ key rank (key a) list ⟨a, ha, rfl⟩
  have hne : list.filter (fun b => IsGreatest key rank list (key a) b) ≠ [] :=
    List.ne_nil_of_mem (List.mem_filter.mpr ⟨hb, by simpa using hgreatest⟩)
  obtain ⟨first, rest, hfirst⟩ := List.exists_cons_of_ne_nil hne
  refine ⟨first, by rw [hfirst, List.head?_cons], ?_⟩
  rw [filter_keep hsorted, hfirst]
  rfl

end Latest
