import Sauvegarde.Client.Exclude

/-!
# The exclusion patterns

Which of the configured patterns keep files from being saved. How a pattern compiles and what it matches is GLib's.
-/

namespace Sauvegarde

variable {Regex : Type}

/-- The patterns that compile are kept, no others, the last first, and a file is left out when one of them matches. -/
def KeepsCompilable (compile : CString → Except CString Regex) (gRegexMatch : Regex → CString → Bool)
    (excludeList : List CString) : Prop :=
  makeRegexExcludeList compile excludeList = (excludeList.filterMap (compiled compile)).reverse ∧
    ∀ filename, excludeFile gRegexMatch (makeRegexExcludeList compile excludeList) filename = true ↔
      ∃ pattern ∈ excludeList, ∃ aRegex, compile pattern = .ok aRegex ∧ gRegexMatch aRegex filename = true

/-- No pattern that compiles stands behind one that does not. -/
def CompilableFirst (compile : CString → Except CString Regex) (excludeList : List CString) : Prop :=
  excludeList.Pairwise fun earlier later => compiles compile later = true → compiles compile earlier = true

namespace ExclusionAux

/-- The values of the elements up to the first without one are all values when no element behind that has one. -/
theorem filterMap_takeWhile_eq_iff {α β : Type} {f : α → Option β} {p : α → Bool} (hp : ∀ a, p a = (f a).isSome) (l : List α) :
    (l.takeWhile p).filterMap f = l.filterMap f ↔ l.Pairwise fun earlier later => p later = true → p earlier = true := by
  induction l with
  | nil => exact iff_of_true rfl List.Pairwise.nil
  | cons a l ih =>
    rw [List.pairwise_cons]
    cases hvalue : f a with
    | some b =>
      have hsome : p a = true := by rw [hp, hvalue]; rfl
      rw [List.takeWhile_cons_of_pos hsome, List.filterMap_cons_some hvalue, List.filterMap_cons_some hvalue,
        List.cons_inj_right, ih, and_iff_right fun _ _ _ => hsome]
    | none =>
      have hnone : ¬ p a = true := by rw [hp, hvalue]; exact Bool.false_ne_true
      rw [List.takeWhile_cons_of_neg hnone, List.filterMap_cons_none hvalue, List.filterMap_nil, eq_comm,
        List.filterMap_eq_nil_iff]
      constructor
      · intro h
        have hbehind : ∀ later ∈ l, ¬ p later = true := by
          intro later hlater
          rw [hp, h later hlater]
          exact Bool.false_ne_true
        refine ⟨fun later hlater hsome => absurd hsome (hbehind later hlater), ?_⟩
        exact List.pairwise_of_forall_mem_list fun earlier _ later hlater hsome => absurd hsome (hbehind later hlater)
      · rintro ⟨h, -⟩ later hlater
        by_contra hsome
        refine absurd (h later hlater ?_) hnone
        rw [hp]
        exact Option.isSome_iff_ne_none.mpr hsome

/-- An expression is one of a pattern that compiles. -/
theorem compiled_eq_some {compile : CString → Except CString Regex} {pattern : CString} {aRegex : Regex} :
    compiled compile pattern = some aRegex ↔ compile pattern = .ok aRegex := by
  unfold compiled
  cases compile pattern with
  | ok regex => simp [Except.toOption]
  | error message => simp [Except.toOption]

end ExclusionAux

open ExclusionAux

/-- The patterns that compile are kept, and only they leave files out, exactly when none of them stands behind one that does not
compile: the error of that one is still there when the others are looked at. -/
theorem keepsCompilable_iff (compile : CString → Except CString Regex) (gRegexMatch : Regex → CString → Bool)
    (excludeList : List CString) : KeepsCompilable compile gRegexMatch excludeList ↔ CompilableFirst compile excludeList := by
  have hkept : makeRegexExcludeList compile excludeList = (excludeList.filterMap (compiled compile)).reverse ↔
      CompilableFirst compile excludeList := by
    rw [makeRegexExcludeList_eq, List.reverse_inj]
    exact filterMap_takeWhile_eq_iff (fun _ => rfl) excludeList
  rw [KeepsCompilable, hkept]
  refine and_iff_left_of_imp ?_
  intro hfirst filename
  rw [excludeFile_iff, hkept.mpr hfirst]
  constructor
  · rintro ⟨aRegex, hregex, hmatch⟩
    obtain ⟨pattern, hpattern, hcompiled⟩ := List.mem_filterMap.mp (List.mem_reverse.mp hregex)
    exact ⟨pattern, hpattern, aRegex, compiled_eq_some.mp hcompiled, hmatch⟩
  · rintro ⟨pattern, hpattern, aRegex, hcompile, hmatch⟩
    refine ⟨aRegex, List.mem_reverse.mpr ?_, hmatch⟩
    exact List.mem_filterMap.mpr ⟨pattern, hpattern, compiled_eq_some.mpr hcompile⟩

/-- Texts are expressions but for the bracket that is never closed. -/
def compileText (pattern : CString) : Except CString CString :=
  if pattern = CString.lit "(" then .error (CString.lit "missing closing parenthesis") else .ok pattern

/-- A text matches where it stands. -/
def matchText (aRegex filename : CString) : Bool := aRegex.bytes <:+: filename.bytes

/-- Behind a bracket that is not closed a pattern leaves no file out. -/
theorem behindBracket_saved :
    ¬ KeepsCompilable compileText matchText [CString.lit "(", CString.lit "cache"] ∧
      excludeFile matchText (makeRegexExcludeList compileText [CString.lit "(", CString.lit "cache"]) (CString.lit "/var/cache") =
        false ∧
      matchText (CString.lit "cache") (CString.lit "/var/cache") = true := by
  have hsaved : excludeFile matchText (makeRegexExcludeList compileText [CString.lit "(", CString.lit "cache"])
      (CString.lit "/var/cache") = false := by decide +kernel
  have hmatch : matchText (CString.lit "cache") (CString.lit "/var/cache") = true := by decide +kernel
  refine ⟨?_, hsaved, hmatch⟩
  rintro ⟨-, hexcluded⟩
  have hcompile : compileText (CString.lit "cache") = .ok (CString.lit "cache") := if_neg (by decide)
  have hleftOut := (hexcluded (CString.lit "/var/cache")).mpr
    ⟨CString.lit "cache", List.mem_cons_of_mem _ List.mem_cons_self, CString.lit "cache", hcompile, hmatch⟩
  rw [hsaved] at hleftOut
  exact Bool.false_ne_true hleftOut

end Sauvegarde
