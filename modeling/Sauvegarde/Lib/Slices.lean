import Mathlib.Algebra.Order.Floor.Div
import Mathlib.Data.List.Basic

/-!
# Slices

A list that is worked off `n` elements at a time: the `i`-th turn takes the `i`-th slice, and there are as many turns as slices that
are not empty.
-/

namespace Slices

variable {α : Type}

/-- The `i`-th slice of a list: the elements from `i * n` on, `n` at most. -/
def slice (n : Nat) (list : List α) (i : Nat) : List α := (list.drop (i * n)).take n

/-- What a turn leaves is what the next one begins with. -/
theorem drop_drop_slice (n : Nat) (list : List α) (i : Nat) : (list.drop (i * n)).drop n = list.drop ((i + 1) * n) := by
  rw [List.drop_drop, Nat.succ_mul]

/-- The elements of a slice are elements of the list. -/
theorem mem_of_mem_slice {n : Nat} {list : List α} {i : Nat} {a : α} (h : a ∈ slice n list i) : a ∈ list :=
  List.mem_of_mem_drop (List.mem_of_mem_take h)

/-- Nothing is left just when all turns are over. -/
theorem drop_eq_nil_iff {n : Nat} (hn : 0 < n) (list : List α) (i : Nat) :
    list.drop (i * n) = [] ↔ list.length ⌈/⌉ n ≤ i := by
  rw [List.drop_eq_nil_iff, ceilDiv_le_iff_le_mul hn, Nat.mul_comm]

/-- A turn that comes before the end has a slice to work on. -/
theorem slice_ne_nil {n : Nat} (hn : 0 < n) {list : List α} {i : Nat} (h : i < list.length ⌈/⌉ n) : slice n list i ≠ [] := by
  intro hnil
  rcases List.take_eq_nil_iff.mp hnil with hzero | hdrop
  · omega
  · exact absurd ((drop_eq_nil_iff hn list i).mp hdrop) (by omega)

end Slices
