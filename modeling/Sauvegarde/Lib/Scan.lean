import Mathlib.Data.List.Basic

/-!
# Scanning for an end

A scanner reads a text from left to right with a state, and stops before the first element that is an end in the state it is
read in. A text that is read in parts is scanned as if it were read at once: the scan of each part goes on in the state the part
before it left.
-/

namespace Scan

variable {α σ : Type}

/-- Where a scan stops: before the element at a position, or behind the text, in a state. -/
inductive Result (σ : Type) where
  | found (n : Nat)
  | exhausted (s : σ)
deriving DecidableEq

/-- The result for a text with `k` elements more in front of it. -/
def Result.shift (k : Nat) : Result σ → Result σ
  | found n => found (n + k)
  | exhausted s => exhausted s

@[simp] theorem Result.shift_shift (r : Result σ) (j k : Nat) : (r.shift j).shift k = r.shift (j + k) := by
  cases r with
  | found n => simp only [Result.shift, Nat.add_assoc]
  | exhausted s => rfl

@[simp] theorem Result.shift_exhausted (s : σ) (k : Nat) : (Result.exhausted s).shift k = .exhausted s := rfl

@[simp] theorem Result.shift_found (n k : Nat) : (Result.found n : Result σ).shift k = .found (n + k) := rfl

@[simp] theorem Result.shift_zero (r : Result σ) : r.shift 0 = r := by cases r <;> rfl

/-- The scan of a text: `next` gives the state after an element, none when the element is an end. -/
def scan (next : σ → α → Option σ) : σ → List α → Result σ
  | s, [] => .exhausted s
  | s, c :: text =>
    match next s c with
    | none => .found 0
    | some s' => (scan next s' text).shift 1

variable {next : σ → α → Option σ}

/-- A text is scanned on in the state that the text before it left. -/
theorem scan_append {s s' : σ} {text : List α} (h : scan next s text = .exhausted s') (more : List α) :
    scan next s (text ++ more) = (scan next s' more).shift text.length := by
  induction text generalizing s with
  | nil =>
    rw [scan, Result.exhausted.injEq] at h
    rw [h, List.nil_append, List.length_nil, Result.shift_zero]
  | cons c text ih =>
    rw [scan] at h
    rcases hnext : next s c with _ | t
    · simp [hnext] at h
    · simp only [hnext] at h
      have hrest : scan next t text = .exhausted s' := by
        rcases hscan : scan next t text with n | u <;> simp [hscan] at h
        rw [h]
      rw [List.cons_append, scan, hnext]
      simp only [ih hrest, Result.shift_shift, List.length_cons]

/-- An end that was found is found again when more text follows. -/
theorem scan_append_of_found {s : σ} {text : List α} {n : Nat} (h : scan next s text = .found n) (more : List α) :
    scan next s (text ++ more) = .found n := by
  induction text generalizing s n with
  | nil => simp [scan] at h
  | cons c text ih =>
    rw [scan] at h
    rw [List.cons_append, scan]
    rcases hnext : next s c with _ | t
    · simpa [hnext] using h
    · simp only [hnext] at h ⊢
      rcases hscan : scan next t text with m | u
      · rw [hscan] at h
        rw [ih hscan]
        exact h
      · simp [hscan] at h

/-- An end is found inside of the text. -/
theorem found_lt_length {s : σ} {text : List α} {n : Nat} (h : scan next s text = .found n) : n < text.length := by
  induction text generalizing s n with
  | nil => simp [scan] at h
  | cons c text ih =>
    rw [scan] at h
    rcases hnext : next s c with _ | t
    · simp only [hnext, Result.found.injEq] at h
      rw [← h]
      simp
    · simp only [hnext] at h
      rcases hscan : scan next t text with m | u
      · simp only [hscan, Result.shift_found, Result.found.injEq] at h
        have := ih hscan
        rw [List.length_cons]
        omega
      · simp [hscan] at h

/-- Two texts that are passed over one after the other. -/
theorem scan_append_exhausted {s t u : σ} {text more : List α} (h : scan next s text = .exhausted t)
    (hmore : scan next t more = .exhausted u) : scan next s (text ++ more) = .exhausted u := by
  rw [scan_append h, hmore, Result.shift_exhausted]

end Scan
