import Sauvegarde.Extern.Glib

/-!
# Files that are not saved

The list of expressions that client.c compiles once, and the question whether a file is to be left out. The expressions are
GLib's.
-/

namespace Sauvegarde

/-- `g_regex_new`, with the error it is given: when that is set already nothing is compiled, and it stays. -/
def gRegexNew {Regex : Type} (compile : CString → Except CString Regex) (pattern : CString) (error : Option CString) :
    Option Regex × Option CString :=
  match error with
  | some message => (none, some message)
  | none =>
    match compile pattern with
    | .ok regex => (some regex, none)
    | .error message => (none, some message)

/-- What the loop of `make_regex_exclude_list` holds: the error, the expressions, the last first, and what was printed. -/
structure ExcludeLoop (Regex : Type) where
  error : Option CString
  regexExcludeList : List Regex
  printed : List Bytes

/-- The message of an error. -/
def compilingError (pattern message : CString) : Bytes :=
  str "Error while compiling " ++ pattern.bytes ++ str " to a regular expression: " ++ message.bytes

/-- One turn of the loop of `make_regex_exclude_list`. -/
def excludeLoopStep {Regex : Type} (compile : CString → Except CString Regex) (s : ExcludeLoop Regex) (pattern : CString) :
    ExcludeLoop Regex :=
  match gRegexNew compile pattern s.error with
  | (_, some message) => { s with error := some message, printed := s.printed ++ [compilingError pattern message] }
  | (some aRegex, none) => { s with error := none, regexExcludeList := aRegex :: s.regexExcludeList }
  | (none, none) => { s with error := none }

/-- The loop of `make_regex_exclude_list`. -/
def excludeLoop {Regex : Type} (compile : CString → Except CString Regex) (excludeList : List CString) : ExcludeLoop Regex :=
  excludeList.foldl (excludeLoopStep compile) ⟨none, [], []⟩

/-- `make_regex_exclude_list`. -/
def makeRegexExcludeList {Regex : Type} (compile : CString → Except CString Regex) (excludeList : List CString) : List Regex :=
  (excludeLoop compile excludeList).regexExcludeList

/-- The loop of `exclude_file`. -/
def excludeFileFrom {Regex : Type} (gRegexMatch : Regex → CString → Bool) (filename : CString) :
    List Regex → Bool → Bool
  | [], result => result
  | aRegex :: regexExcludeList, result =>
    if result = false then excludeFileFrom gRegexMatch filename regexExcludeList (gRegexMatch aRegex filename) else result

/-- `exclude_file`. -/
def excludeFile {Regex : Type} (gRegexMatch : Regex → CString → Bool) (regexExcludeList : List Regex) (filename : CString) :
    Bool :=
  excludeFileFrom gRegexMatch filename regexExcludeList false

/-! ## What the loops do -/

section

variable {Regex : Type} {compile : CString → Except CString Regex} {pattern : CString} {s : ExcludeLoop Regex}

/-- The expression of a pattern that compiles. -/
def compiled (compile : CString → Except CString Regex) (pattern : CString) : Option Regex := (compile pattern).toOption

/-- A pattern compiles. -/
def compiles (compile : CString → Except CString Regex) (pattern : CString) : Bool := (compiled compile pattern).isSome

/-- Behind an error a pattern is reported with that error and not kept. -/
theorem excludeLoopStep_behindError {message : CString} (h : s.error = some message) :
    excludeLoopStep compile s pattern = { s with printed := s.printed ++ [compilingError pattern message] } := by
  rcases s with ⟨_, list, printed⟩
  subst h
  rfl

/-- Without an error a pattern that compiles is kept. -/
theorem excludeLoopStep_ok {regex : Regex} (h : s.error = none) (hcompiles : compile pattern = .ok regex) :
    excludeLoopStep compile s pattern = { s with regexExcludeList := regex :: s.regexExcludeList } := by
  rcases s with ⟨_, list, printed⟩
  subst h
  simp only [excludeLoopStep, gRegexNew, hcompiles]

/-- Without an error a pattern that does not compile leaves its error. -/
theorem excludeLoopStep_error {message : CString} (h : s.error = none) (hfails : compile pattern = .error message) :
    excludeLoopStep compile s pattern =
      { s with error := some message, printed := s.printed ++ [compilingError pattern message] } := by
  simp only [excludeLoopStep, gRegexNew, h, hfails]

/-- Behind an error nothing is kept. -/
theorem foldl_behindError (compile : CString → Except CString Regex) (excludeList : List CString) {message : CString}
    (h : s.error = some message) :
    (excludeList.foldl (excludeLoopStep compile) s).regexExcludeList = s.regexExcludeList := by
  induction excludeList generalizing s with
  | nil => rfl
  | cons pattern excludeList ih =>
    rw [List.foldl_cons, excludeLoopStep_behindError h]
    exact ih h

/-- Before any error the loop keeps the patterns up to the first that does not compile. -/
theorem foldl_excludeLoopStep (compile : CString → Except CString Regex) (excludeList : List CString) (h : s.error = none) :
    (excludeList.foldl (excludeLoopStep compile) s).regexExcludeList =
      ((excludeList.takeWhile (compiles compile)).filterMap (compiled compile)).reverse ++
        s.regexExcludeList := by
  induction excludeList generalizing s with
  | nil => rfl
  | cons pattern excludeList ih =>
    rw [List.foldl_cons]
    cases hcompile : compile pattern with
    | ok regex =>
      have hregex : compiled compile pattern = some regex := by rw [compiled, hcompile]; rfl
      have hcompiles : compiles compile pattern = true := by rw [compiles, hregex]; rfl
      have hnone : ({ s with regexExcludeList := regex :: s.regexExcludeList } : ExcludeLoop Regex).error = none := h
      rw [excludeLoopStep_ok h hcompile, ih hnone, List.takeWhile_cons_of_pos hcompiles, List.filterMap_cons_some hregex,
        List.reverse_cons, List.append_assoc, List.singleton_append]
    | error message =>
      have hfails : ¬ compiles compile pattern = true := by rw [compiles, compiled, hcompile]; exact Bool.false_ne_true
      rw [excludeLoopStep_error h hcompile, foldl_behindError _ _ rfl, List.takeWhile_cons_of_neg hfails]
      rfl

/-- What is kept: the patterns up to the first that does not compile, the last first. -/
theorem makeRegexExcludeList_eq (compile : CString → Except CString Regex) (excludeList : List CString) :
    makeRegexExcludeList compile excludeList =
      ((excludeList.takeWhile (compiles compile)).filterMap (compiled compile)).reverse := by
  rw [makeRegexExcludeList, excludeLoop, foldl_excludeLoopStep compile excludeList rfl, List.append_nil]

/-- A file is left out when one of the expressions matches. -/
theorem excludeFile_iff {gRegexMatch : Regex → CString → Bool} {regexExcludeList : List Regex} {filename : CString} :
    excludeFile gRegexMatch regexExcludeList filename = true ↔
      ∃ aRegex ∈ regexExcludeList, gRegexMatch aRegex filename = true := by
  have hstop : ∀ list : List Regex, excludeFileFrom gRegexMatch filename list true = true := by
    intro list
    cases list <;> rfl
  rw [excludeFile]
  induction regexExcludeList with
  | nil => simp [excludeFileFrom]
  | cons aRegex regexExcludeList ih =>
    rw [excludeFileFrom, if_pos rfl]
    simp only [List.mem_cons, exists_eq_or_imp]
    cases gRegexMatch aRegex filename with
    | true => simp only [hstop, true_or]
    | false => exact ih.trans (or_iff_right Bool.false_ne_true).symm

end

end Sauvegarde
