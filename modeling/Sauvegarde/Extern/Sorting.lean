import Mathlib.Data.List.Lex
import Mathlib.Data.List.Sort
import Sauvegarde.Extern.Glib

/-!
# Comparing and sorting

`strcmp` and the sorts of GLib, which are stable: elements that compare as equal keep the order they had.
-/

namespace Sauvegarde

/-- `strcmp` of two texts: the first bytes that differ decide, and a text comes before those that begin with it. Of the result
only the sign is used. -/
def strcmp : Bytes → Bytes → Int
  | [], [] => 0
  | [], _ :: _ => -1
  | _ :: _, [] => 1
  | a :: first, b :: second => if a = b then strcmp first second else if a < b then -1 else 1

/-- `g_list_sort` and `g_slist_sort`. -/
def gListSort {α : Type} (compare : α → α → Int) (list : List α) : List α := list.insertionSort fun a b => compare a b ≤ 0

/-- A text as the numbers of its bytes, in whose lexicographic order `strcmp` compares. -/
def octets (text : Bytes) : List ℕ := text.map UInt8.toNat

/-- No two texts have the same numbers. -/
theorem octets_inj {first second : Bytes} : octets first = octets second ↔ first = second :=
  (List.map_injective_iff.mpr fun _ _ => UInt8.toNat_inj.mp).eq_iff

/-- `strcmp` finds no difference exactly in the same text, and a negative one when the first comes before the second. -/
theorem strcmp_spec (first second : Bytes) :
    (strcmp first second = 0 ↔ first = second) ∧ (strcmp first second < 0 ↔ octets first < octets second) := by
  induction first generalizing second with
  | nil =>
    rcases second with _ | ⟨b, second⟩
    · simp [strcmp, octets]
    · exact ⟨iff_of_false (by simp [strcmp]) (by simp), iff_of_true (by simp [strcmp]) List.Lex.nil⟩
  | cons a first ih =>
    rcases second with _ | ⟨b, second⟩
    · exact ⟨iff_of_false (by simp [strcmp]) (by simp), iff_of_false (by simp [strcmp]) (by simp [octets])⟩
    · obtain ⟨hzero, hneg⟩ := ih second
      unfold strcmp octets
      rw [List.map_cons, List.map_cons, List.cons_lt_cons_iff, List.cons.injEq]
      by_cases hab : a = b
      · subst hab
        rw [if_pos rfl, hzero, hneg]
        exact ⟨by simp, by simp [octets]⟩
      · have hne : a.toNat ≠ b.toNat := fun heq => hab (UInt8.toNat_inj.mp heq)
        rw [if_neg hab]
        by_cases hlt : a < b
        · rw [if_pos hlt]
          exact ⟨by simp [hab], iff_of_true (by decide) (Or.inl (UInt8.lt_iff_toNat_lt.mp hlt))⟩
        · rw [if_neg hlt]
          refine ⟨by simp [hab], iff_of_false (by decide) fun hlex => ?_⟩
          rcases hlex with hlex | ⟨heq, -⟩
          · exact hlt (UInt8.lt_iff_toNat_lt.mpr hlex)
          · exact hne heq

end Sauvegarde
