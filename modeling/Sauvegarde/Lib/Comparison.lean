import Mathlib.Algebra.Order.Ring.Int
import Mathlib.Data.Int.Init
import Mathlib.Data.Prod.Lex
import Mathlib.Order.WithBot

/-!
# Comparison functions

Functions in the way of C that compare two values and answer with the sign of a number. One that compares by a rank in a linear order
is a total preorder, and so are the functions built from such ones: those that compare pointers with `NULL` last, and those that
ask a second function when the first finds no difference.
-/

namespace Comparison

variable {α β γ : Type}

/-- What a sort needs of a comparison function. -/
structure IsTotalPreorder (compare : α → α → Int) : Prop where
  sign_swap : ∀ a b, (compare b a).sign = -(compare a b).sign
  trans : ∀ a b c, compare a b ≤ 0 → compare b c ≤ 0 → compare a c ≤ 0
  total : ∀ a b, compare a b ≤ 0 ∨ compare b a ≤ 0

/-- A comparison function that finds the order of the ranks of two values. -/
structure Ranks [LinearOrder β] (compare : α → α → Int) (rank : α → β) : Prop where
  zero : ∀ a b, compare a b = 0 ↔ rank a = rank b
  neg : ∀ a b, compare a b < 0 ↔ rank a < rank b

/-- Comparing pointers: `NULL` stands behind all others. -/
def nullLast (compare : α → α → Int) : Option α → Option α → Int
  | some a, some b => compare a b
  | none, none => 0
  | none, some _ => 1
  | some _, none => -1

/-- Comparing in two steps: the second function is asked about what the first finds equal. -/
def andThen (first second : α → α → Int) (a b : α) : Int :=
  let value := first a b
  if value = 0 then second a b else value

/-- The rank of a pointer. -/
def pointerRank (rank : α → β) : Option α → WithTop β
  | none => ⊤
  | some a => (rank a : β)

namespace Ranks

variable [LinearOrder β] {compare : α → α → Int} {rank : α → β}

/-- A comparison that is not positive finds ranks in order. -/
theorem le_zero (h : Ranks compare rank) (a b : α) : compare a b ≤ 0 ↔ rank a ≤ rank b := by
  rw [le_iff_lt_or_eq, le_iff_lt_or_eq, h.neg, h.zero]

/-- A comparison is positive when the ranks stand the other way. -/
theorem pos (h : Ranks compare rank) (a b : α) : 0 < compare a b ↔ rank b < rank a := by
  rw [← not_le, h.le_zero, not_le]

/-- A function that compares by rank is a total preorder. -/
theorem isTotalPreorder (h : Ranks compare rank) : IsTotalPreorder compare where
  sign_swap := by
    intro a b
    rcases lt_trichotomy (rank a) (rank b) with hlt | heq | hgt
    · rw [Int.sign_eq_one_of_pos ((h.pos b a).mpr hlt), Int.sign_eq_neg_one_of_neg ((h.neg a b).mpr hlt)]
      rfl
    · rw [(h.zero a b).mpr heq, (h.zero b a).mpr heq.symm]
      rfl
    · rw [Int.sign_eq_neg_one_of_neg ((h.neg b a).mpr hgt), Int.sign_eq_one_of_pos ((h.pos a b).mpr hgt)]
  trans := by
    intro a b c hab hbc
    rw [h.le_zero] at hab hbc ⊢
    exact hab.trans hbc
  total := by
    intro a b
    rw [h.le_zero, h.le_zero]
    exact le_total _ _

/-- Pointers are compared by rank when what they point to is. -/
theorem nullLast (h : Ranks compare rank) : Ranks (Comparison.nullLast compare) (pointerRank rank) where
  zero := by
    rintro (_ | a) (_ | b)
    · simp [Comparison.nullLast]
    · simp [Comparison.nullLast, pointerRank]
    · simp [Comparison.nullLast, pointerRank]
    · simpa [Comparison.nullLast, pointerRank] using h.zero a b
  neg := by
    rintro (_ | a) (_ | b)
    · simp [Comparison.nullLast]
    · simp [Comparison.nullLast, pointerRank]
    · simp [Comparison.nullLast, pointerRank]
    · simpa [Comparison.nullLast, pointerRank] using h.neg a b

/-- Two functions that compare by rank compare one after the other by both ranks. -/
theorem andThen [LinearOrder γ] {second : α → α → Int} {rank' : α → γ} (h : Ranks compare rank) (h' : Ranks second rank') :
    Ranks (Comparison.andThen compare second) fun a => toLex (rank a, rank' a) where
  zero := by
    intro a b
    simp only [Comparison.andThen, EmbeddingLike.apply_eq_iff_eq, Prod.mk.injEq]
    split_ifs with hvalue
    · rw [h'.zero, (h.zero a b).mp hvalue, eq_self, true_and]
    · exact iff_of_false hvalue fun heq => hvalue ((h.zero a b).mpr heq.1)
  neg := by
    intro a b
    simp only [Comparison.andThen, Prod.Lex.toLex_lt_toLex]
    split_ifs with hvalue
    · rw [h'.neg, (h.zero a b).mp hvalue, eq_self, true_and, or_iff_right (lt_irrefl _)]
    · rw [h.neg]
      constructor
      · exact Or.inl
      · rintro (hlt | ⟨heq, -⟩)
        · exact hlt
        · exact absurd ((h.zero a b).mpr heq) hvalue

/-- Comparing by a function of the values compares by the rank of what it gives. -/
theorem comp (h : Ranks compare rank) (f : γ → α) : Ranks (fun a b => compare (f a) (f b)) fun a => rank (f a) where
  zero := by
    intro a b
    exact h.zero (f a) (f b)
  neg := by
    intro a b
    exact h.neg (f a) (f b)

end Ranks

end Comparison
