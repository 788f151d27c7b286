import Mathlib.Data.List.TakeWhile

/-!
# Splitting at a separator

A text cut at its separators, into at most a given number of pieces: the last piece keeps the separators that are left.
-/

namespace Split

variable {α : Type} [DecidableEq α]

/-- At most `n + 1` pieces. -/
def pieces (sep : α) : Nat → List α → List (List α)
  | 0, text => [text]
  | n + 1, text =>
    match text.dropWhile (· ≠ sep) with
    | [] => [text]
    | _ :: rest => text.takeWhile (· ≠ sep) :: pieces sep n rest

/-- A text without a separator is one piece. -/
theorem pieces_of_not_mem {sep : α} {text : List α} (h : sep ∉ text) (n : Nat) : pieces sep n text = [text] := by
  cases n with
  | zero => rfl
  | succ n =>
    have hdrop : text.dropWhile (· ≠ sep) = [] := by
      rw [List.dropWhile_eq_nil_iff]
      intro c hc
      simpa using fun e : c = sep => h (e ▸ hc)
    rw [pieces, hdrop]

/-- The first piece ends before the first separator. -/
theorem pieces_cons {sep : α} {piece : List α} (h : sep ∉ piece) (n : Nat) (rest : List α) :
    pieces sep (n + 1) (piece ++ sep :: rest) = piece :: pieces sep n rest := by
  have hpiece : ∀ c ∈ piece, decide (c ≠ sep) = true := fun c hc => by simpa using fun e : c = sep => h (e ▸ hc)
  rw [pieces, List.dropWhile_append_of_pos hpiece, List.takeWhile_append_of_pos hpiece]
  simp

/-- There is one piece more than separators, unless these are too many. -/
theorem length_pieces (sep : α) (n : Nat) : ∀ text : List α, (pieces sep n text).length = min (n + 1) (text.count sep + 1) := by
  induction n with
  | zero =>
    intro text
    rw [pieces, List.length_singleton]
    omega
  | succ n ih =>
    intro text
    by_cases h : sep ∈ text
    · obtain ⟨first, rest, rfl, hnot⟩ := List.eq_append_cons_of_mem h
      rw [pieces_cons hnot, List.length_cons, ih, List.count_append, List.count_cons_self, List.count_eq_zero.mpr hnot]
      omega
    · rw [pieces_of_not_mem h, List.length_singleton, List.count_eq_zero.mpr h]
      omega

/-- Pieces without a separator that were joined with separators are cut apart, and what stands behind one separator more is
the last piece, with the separators in it. -/
theorem pieces_flatMap {sep : α} {first : List α} (h : sep ∉ first) (others : List (List α))
    (hothers : ∀ piece ∈ others, sep ∉ piece) (last : Option (List α)) :
    pieces sep (others.length + 1)
        (first ++ (others.flatMap fun piece => sep :: piece) ++ last.elim [] fun text => sep :: text) =
      first :: others ++ last.toList := by
  induction others generalizing first with
  | nil =>
    cases last with
    | none => simpa using pieces_of_not_mem h 1
    | some text =>
      have hlast : pieces sep 0 text = [text] := rfl
      simpa [hlast] using pieces_cons h 0 text
  | cons piece others ih =>
    have hrest := ih (hothers piece List.mem_cons_self) fun p hp => hothers p (List.mem_cons_of_mem _ hp)
    rw [List.flatMap_cons, List.append_assoc, List.append_assoc, List.cons_append, List.length_cons, pieces_cons h,
      ← List.append_assoc, hrest]
    rfl

/-- Pieces without a separator that were joined with separators are cut apart again. -/
theorem splitOn_flatMap {sep : α} {first : List α} (h : sep ∉ first) (others : List (List α))
    (hothers : ∀ piece ∈ others, sep ∉ piece) :
    (first ++ others.flatMap fun piece => sep :: piece).splitOn sep = first :: others := by
  have hclear : ∀ {piece : List α}, sep ∉ piece → ∀ c ∈ piece, (c == sep) = false := fun hp c hc => by
    simpa using fun e : c = sep => hp (e ▸ hc)
  induction others generalizing first with
  | nil =>
    rw [List.flatMap_nil, List.append_nil]
    exact List.splitOnP_eq_singleton (hclear h)
  | cons piece others ih =>
    have hrest := ih (hothers piece List.mem_cons_self) fun p hp => hothers p (List.mem_cons_of_mem _ hp)
    rw [List.flatMap_cons, List.cons_append, List.splitOn_eq_splitOnP,
      List.splitOnP_append_cons_of_forall_mem (hclear h) sep (by simp)]
    rw [List.splitOn_eq_splitOnP] at hrest
    rw [hrest]

end Split
