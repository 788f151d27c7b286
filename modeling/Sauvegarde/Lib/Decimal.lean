import Mathlib.Data.List.TakeWhile
import Mathlib.Data.Nat.Digits.Lemmas
import Mathlib.Data.UInt

/-!
# Decimal numbers

Numbers as `printf` writes them and as `scanf` reads them: digits, a minus sign before a negative number; blanks and a sign are
accepted before the digits, and reading stops at the first character that is no digit.
-/

namespace Decimal

/-- The character of a digit. -/
def digit (n : Nat) : UInt8 := UInt8.ofNat (48 + n)

/-- Whether a character is a digit. -/
def isDigit (c : UInt8) : Bool := 48 ≤ c.toNat && c.toNat ≤ 57

/-- Whether a character is a blank: space, or one of the five controls from tab to carriage return. -/
def isBlank (c : UInt8) : Bool := c.toNat = 32 || (9 ≤ c.toNat && c.toNat ≤ 13)

theorem isBlank_space : ∀ c ∈ [(32 : UInt8)], isBlank c = true := List.all_eq_true.mp (by decide)

/-- A number in decimal. -/
def print (n : Nat) : List UInt8 := if n = 0 then [digit 0] else (Nat.digits 10 n).reverse.map digit

/-- A signed number in decimal. -/
def printInt (z : Int) : List UInt8 := if z < 0 then 45 :: print z.natAbs else print z.natAbs

/-- The number that digits stand for. -/
def ofDigits (text : List UInt8) : Nat := text.foldl (fun n c => 10 * n + (c.toNat - 48)) 0

/-- The digits a text begins with; none when it begins with none. -/
def readDigits (text : List UInt8) : Option Nat :=
  if text.takeWhile isDigit = [] then none else some (ofDigits (text.takeWhile isDigit))

/-- A signed number after any blanks. -/
def scan (text : List UInt8) : Option Int :=
  match text.dropWhile isBlank with
  | [] => none
  | c :: rest =>
    if c = 45 then (readDigits rest).map fun n : Nat => -(n : Int)
    else if c = 43 then (readDigits rest).map fun n : Nat => (n : Int)
    else (readDigits (c :: rest)).map fun n : Nat => (n : Int)

/-! ## Digits -/

theorem toNat_digit {n : Nat} (h : n < 10) : (digit n).toNat = 48 + n := by
  rw [digit, UInt8.toNat_ofNat']
  omega

theorem isDigit_digit {n : Nat} (h : n < 10) : isDigit (digit n) = true := by
  rw [isDigit, toNat_digit h]
  simp only [Bool.and_eq_true, decide_eq_true_eq]
  omega

/-- A digit is no blank and no sign. -/
theorem not_blank_of_isDigit {c : UInt8} (h : isDigit c = true) : isBlank c = false ∧ c ≠ 45 ∧ c ≠ 43 := by
  simp only [isDigit, Bool.and_eq_true, decide_eq_true_eq] at h
  refine ⟨?_, ?_, ?_⟩
  · simp only [isBlank, Bool.or_eq_false_iff, Bool.and_eq_false_iff, decide_eq_false_iff_not]
    omega
  · rintro rfl
    exact absurd h.1 (by decide)
  · rintro rfl
    exact absurd h.1 (by decide)

theorem print_ne_nil (n : Nat) : print n ≠ [] := by
  by_cases h : n = 0
  · simp [print, h]
  · simp [print, h, Nat.digits_ne_nil_iff_ne_zero]

/-- A number is written with digits. -/
theorem isDigit_of_mem_print {n : Nat} {c : UInt8} (h : c ∈ print n) : isDigit c = true := by
  unfold print at h
  split at h
  · rw [List.mem_singleton] at h
    rw [h]
    exact isDigit_digit (by omega)
  · simp only [List.mem_map, List.mem_reverse] at h
    obtain ⟨d, hd, rfl⟩ := h
    exact isDigit_digit (Nat.digits_lt_base (by omega) hd)

/-- A number below a power of ten has as many digits at most. -/
theorem length_print_le {n k : Nat} (hk : 0 < k) (h : n < 10 ^ k) : (print n).length ≤ k := by
  unfold print
  split
  · exact hk
  · rw [List.length_map, List.length_reverse]
    exact (Nat.digits_length_le_iff (by omega) n).mpr h

/-- Digits read from the highest down are the number their values make. -/
theorem ofDigits_map_digit (ds : List Nat) (h : ∀ d ∈ ds, d < 10) :
    ofDigits (ds.reverse.map digit) = Nat.ofDigits 10 ds := by
  induction ds with
  | nil => rfl
  | cons d ds ih =>
    have hd : d < 10 := h d List.mem_cons_self
    have hds := ih fun e he => h e (List.mem_cons_of_mem _ he)
    simp only [ofDigits, List.reverse_cons, List.map_append, List.map_cons, List.map_nil, List.foldl_append,
      List.foldl_cons, List.foldl_nil] at hds ⊢
    rw [hds, toNat_digit hd, Nat.ofDigits_cons]
    omega

/-- The digits a number is written with stand for it. -/
theorem ofDigits_print (n : Nat) : ofDigits (print n) = n := by
  unfold print
  split
  · rename_i h
    rw [h]
    rfl
  · rw [ofDigits_map_digit _ fun d hd => Nat.digits_lt_base (by omega) hd, Nat.ofDigits_digits]

/-! ## Characters -/

/-- The characters of a number that was written. -/
theorem printInt_char {z : Int} {c : UInt8} (h : c ∈ printInt z) : c = 45 ∨ (48 ≤ c.toNat ∧ c.toNat ≤ 57) := by
  have hdigit : ∀ {n : Nat}, c ∈ print n → c = 45 ∨ (48 ≤ c.toNat ∧ c.toNat ≤ 57) := by
    intro n hc
    have hd := isDigit_of_mem_print hc
    simp only [isDigit, Bool.and_eq_true, decide_eq_true_eq] at hd
    exact Or.inr hd
  unfold printInt at h
  split at h
  · rcases List.mem_cons.mp h with hc | hc
    · exact Or.inl hc
    · exact hdigit hc
  · exact hdigit h

/-- A number that was written holds nothing but digits and a minus sign. -/
theorem not_mem_printInt {z : Int} {c : UInt8} (hc : c ≠ 45 ∧ (c.toNat < 48 ∨ 57 < c.toNat)) : c ∉ printInt z := by
  intro hmem
  rcases printInt_char hmem with h | h
  · exact hc.1 h
  · omega

/-- A number that was written begins with no blank. -/
theorem dropWhile_isBlank_printInt (z : Int) :
    (printInt z).dropWhile isBlank = printInt z := by
  rcases hp : printInt z with _ | ⟨c, rest⟩
  · rfl
  · have hblank : isBlank c = false := by
      have hmem : c ∈ printInt z := by
        rw [hp]
        exact List.mem_cons_self
      rcases printInt_char hmem with h | h
      · rw [h]
        decide
      · simp only [isBlank, Bool.or_eq_false_iff, Bool.and_eq_false_iff, decide_eq_false_iff_not]
        omega
    rw [List.dropWhile_cons, hblank]
    rfl

/-! ## Reading what was written -/

/-- No digit stands first in the text. -/
def Stops (rest : List UInt8) : Prop := ∀ c ∈ rest.head?, isDigit c = false

theorem stops_nil : Stops [] := by simp [Stops]

/-- The digits a text begins with end where the number that was written ends. -/
theorem takeWhile_print (n : Nat) {rest : List UInt8} (h : Stops rest) :
    (print n ++ rest).takeWhile isDigit = print n := by
  have hr : rest.takeWhile isDigit = [] := by
    rcases rest with _ | ⟨c, rest⟩
    · rfl
    · rw [List.takeWhile_cons, h c rfl]
      rfl
  rw [List.takeWhile_append_of_pos fun c hc => isDigit_of_mem_print hc, hr, List.append_nil]

/-- A number that was written is read back. -/
theorem readDigits_print (n : Nat) {rest : List UInt8} (h : Stops rest) : readDigits (print n ++ rest) = some n := by
  rw [readDigits, takeWhile_print n h, if_neg (print_ne_nil n), ofDigits_print]

/-- A signed number that was written is read back, whatever blanks stand before it. -/
theorem scan_printInt (z : Int) {blanks rest : List UInt8} (hb : ∀ c ∈ blanks, isBlank c = true) (h : Stops rest) :
    scan (blanks ++ (printInt z ++ rest)) = some z := by
  obtain ⟨c, ds, hp⟩ := List.exists_cons_of_ne_nil (print_ne_nil z.natAbs)
  have hc : isDigit c = true := isDigit_of_mem_print (n := z.natAbs) (by rw [hp]; exact List.mem_cons_self)
  obtain ⟨hblank, hminus, hplus⟩ := not_blank_of_isDigit hc
  have hread := readDigits_print z.natAbs h
  rw [scan, List.dropWhile_append_of_pos hb, printInt]
  split_ifs
  · rename_i hz
    have h45 : isBlank 45 = false := by decide
    simp only [List.cons_append, List.dropWhile_cons, h45, Bool.false_eq_true, if_false, if_true, hread, Option.map_some,
      Option.some.injEq]
    omega
  · rw [hp] at hread ⊢
    simp only [List.cons_append] at hread
    simp only [List.cons_append, List.dropWhile_cons, hblank, Bool.false_eq_true, if_false, hminus, hplus, hread,
      Option.map_some, Option.some.injEq]
    omega

/-! ## Numbers of a fixed width -/

/-- A number with as many digits as are asked for: zeros stand before it, and digits above are left out. -/
def printWidth : Nat → Nat → List UInt8
  | 0, _ => []
  | k + 1, n => printWidth k (n / 10) ++ [digit (n % 10)]

@[simp] theorem length_printWidth (k n : Nat) : (printWidth k n).length = k := by
  induction k generalizing n with
  | zero => rfl
  | succ k ih => rw [printWidth, List.length_append, ih, List.length_singleton]

theorem isDigit_of_mem_printWidth {k n : Nat} {c : UInt8} (h : c ∈ printWidth k n) : isDigit c = true := by
  induction k generalizing n with
  | zero => exact absurd h List.not_mem_nil
  | succ k ih =>
    rcases List.mem_append.mp h with h | h
    · exact ih h
    · rw [List.mem_singleton.mp h]
      exact isDigit_digit (Nat.mod_lt _ (by omega))

/-- One more digit at the end. -/
theorem ofDigits_append_digit (text : List UInt8) {n : Nat} (h : n < 10) : ofDigits (text ++ [digit n]) = 10 * ofDigits text + n := by
  rw [ofDigits, List.foldl_append, List.foldl_cons, List.foldl_nil, toNat_digit h, ← ofDigits]
  omega

/-- A number that fits is what its digits stand for. -/
theorem ofDigits_printWidth {k n : Nat} (h : n < 10 ^ k) : ofDigits (printWidth k n) = n := by
  induction k generalizing n with
  | zero =>
    have hn : n = 0 := by omega
    rw [hn]
    rfl
  | succ k ih =>
    have hfits : n / 10 < 10 ^ k := Nat.div_lt_of_lt_mul (by rw [Nat.mul_comm, ← Nat.pow_succ]; exact h)
    rw [printWidth, ofDigits_append_digit _ (Nat.mod_lt _ (by omega)), ih hfits]
    omega

/-- A number of a fixed width is read back. -/
theorem readDigits_printWidth {k n : Nat} (hk : 0 < k) (h : n < 10 ^ k) : readDigits (printWidth k n) = some n := by
  have hall : (printWidth k n).takeWhile isDigit = printWidth k n :=
    List.takeWhile_eq_self_iff.mpr fun c hc => isDigit_of_mem_printWidth hc
  have hne : printWidth k n ≠ [] := List.ne_nil_of_length_pos (by rw [length_printWidth]; exact hk)
  rw [readDigits, hall, if_neg hne, ofDigits_printWidth h]

/-- Only the digits at the beginning are read. -/
theorem readDigits_takeWhile (text : List UInt8) : readDigits (text.takeWhile isDigit) = readDigits text := by
  have htwice : (text.takeWhile isDigit).takeWhile isDigit = text.takeWhile isDigit :=
    List.takeWhile_eq_self_iff.mpr fun c hc => List.mem_takeWhile_imp hc
  rw [readDigits, htwice, ← readDigits]

end Decimal
