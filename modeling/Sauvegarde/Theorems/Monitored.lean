import Sauvegarde.Client.Monitored

/-!
# Which events concern a monitored directory

A directory is found for the path of an event when its text begins the path, with the case of both folded. When that is the directory the
path lies in, and when not.
-/

namespace Sauvegarde

/-- A directory is found for a path. -/
def FindsDirectory (fold : Char → List Char) (path : EventPath) (dirList : List (List Char)) : Prop :=
  (doesEventConcernsMonitoredDirectory fold path.text (transformToUtf8Casefold fold dirList)).isSome = true

instance (fold : Char → List Char) (path : EventPath) (dirList : List (List Char)) : Decidable (FindsDirectory fold path dirList) :=
  inferInstanceAs (Decidable (_ = true))

/-- A path lies in a directory of a list. -/
def LiesInSome (workingDir : List (List Char)) (path : EventPath) (dirList : List (List Char)) : Prop :=
  ∃ dir ∈ dirList, LiesIn workingDir dir path

/-- A directory that a path lies in, with a text that the path begins with: it is written as the path is. -/
def WrittenOwn (workingDir : List (List Char)) (dir : List Char) (path : EventPath) : Prop :=
  LiesIn workingDir dir path ∧ dir <+: path.text

/-- A directory that a path may be taken to lie in: its text stops inside of a name, or differs from the beginning of the path by
case. -/
def Misleading (fold : Char → List Char) (dir : List Char) (path : EventPath) : Prop :=
  StopsInName dir path ∨ BeginsFolded fold dir path

namespace MonitoredAux

variable {fold : Char → List Char} {workingDir : List (List Char)} {path : EventPath} {dirList : List (List Char)}

/-- A directory is found when the text of one begins the path, as it is or folded. -/
theorem findsDirectory_iff : FindsDirectory fold path dirList ↔
    ∃ dir ∈ dirList, dir <+: path.text ∨ BeginsFolded fold dir path := by
  rw [FindsDirectory, finds_iff]
  refine exists_congr fun dir => and_congr_right fun _ => ?_
  constructor
  · intro h
    exact or_iff_not_imp_left.mpr fun hnot => ⟨hnot, h⟩
  · rintro (h | h)
    · exact gUtf8Casefold_prefix fold h
    · exact h.2

/-- A directory that is found is one that the path lies in, written as the path is, or one that misleads. -/
theorem findsDirectory_iff_written (workingDir : List (List Char)) : FindsDirectory fold path dirList ↔
    ∃ dir ∈ dirList, WrittenOwn workingDir dir path ∨ Misleading fold dir path := by
  rw [findsDirectory_iff]
  refine exists_congr fun dir => and_congr_right fun _ => ?_
  constructor
  · rintro (hbegins | hfolded)
    · exact (liesIn_or_stopsInName workingDir hbegins).imp (fun hin => ⟨hin, hbegins⟩) Or.inl
    · exact Or.inr (Or.inr hfolded)
  · rintro (hown | hstops | hfolded)
    · exact Or.inl hown.2
    · exact Or.inl hstops.begins
    · exact Or.inr hfolded

end MonitoredAux

open MonitoredAux

/-- Among directories that are all written as paths are, the one that a path is in is. -/
theorem exists_writtenOwn_of_liesInSome {workingDir : List (List Char)} {path : EventPath} {dirs : List EventPath}
    (h : LiesInSome workingDir path (dirs.map EventPath.text)) :
    ∃ dir ∈ dirs.map EventPath.text, WrittenOwn workingDir dir path := by
  obtain ⟨text, htext, hin⟩ := h
  obtain ⟨dir, hdir, rfl⟩ := List.mem_map.mp htext
  exact ⟨dir.text, htext, hin, begins_of_liesIn hin⟩

/-- A directory is found for a path exactly if it lies in one of them: so it is when one of the directories that it lies in is written
as the path is, and when it lies in none and none misleads. Else it is so only by accident, when a directory that the path lies in is
written in another way and one that misleads is found in its place. -/
theorem findsDirectory_iff_liesIn (fold : Char → List Char) (workingDir : List (List Char)) (path : EventPath)
    (dirList : List (List Char)) :
    (FindsDirectory fold path dirList ↔ LiesInSome workingDir path dirList) ↔
      (∃ dir ∈ dirList, WrittenOwn workingDir dir path) ∨
      (∀ dir ∈ dirList, ¬LiesIn workingDir dir path ∧ ¬Misleading fold dir path) ∨
      ((∃ dir ∈ dirList, LiesIn workingDir dir path ∧ ¬dir <+: path.text) ∧ ∃ dir ∈ dirList, Misleading fold dir path) := by
  rw [findsDirectory_iff_written workingDir]
  constructor
  · intro hiff
    by_cases hin : LiesInSome workingDir path dirList
    · by_cases hown : ∃ dir ∈ dirList, WrittenOwn workingDir dir path
      · exact Or.inl hown
      · -- all that the path lies in are written in another way
        obtain ⟨own, hmem, hlies⟩ := hin
        obtain ⟨dir, hdir, hfound⟩ := hiff.mpr ⟨own, hmem, hlies⟩
        refine Or.inr (Or.inr ⟨⟨own, hmem, hlies, fun hbegins => hown ⟨own, hmem, hlies, hbegins⟩⟩, dir, hdir, ?_⟩)
        exact hfound.resolve_left fun h => hown ⟨dir, hdir, h⟩
    · exact Or.inr (Or.inl fun dir hdir => ⟨fun hlies => hin ⟨dir, hdir, hlies⟩,
        fun hmisleading => hin (hiff.mp ⟨dir, hdir, Or.inr hmisleading⟩)⟩)
  · rintro (⟨dir, hdir, hown⟩ | hnone | ⟨⟨own, hmem, hlies, -⟩, dir, hdir, hmisleading⟩)
    · exact iff_of_true ⟨dir, hdir, Or.inl hown⟩ ⟨dir, hdir, hown.1⟩
    · refine iff_of_false ?_ ?_
      · rintro ⟨dir, hdir, hown | hmisleading⟩
        · exact (hnone dir hdir).1 hown.1
        · exact (hnone dir hdir).2 hmisleading
      · rintro ⟨dir, hdir, hlies⟩
        exact (hnone dir hdir).1 hlies
    · exact iff_of_true ⟨dir, hdir, Or.inr hmisleading⟩ ⟨own, hmem, hlies⟩

/-- Letters of ASCII as they are folded. -/
def lowerFold (c : Char) : List Char := [c.toLower]

/-- The directory of a user. -/
def bobDir : EventPath := ⟨["home".toList, "bob".toList], by decide⟩

/-- A file of a user whose name begins with that of the other. -/
def bobbyFile : EventPath := ⟨["home".toList, "bobby".toList, "x".toList], by decide⟩

/-- A file of a user whose name differs from that of the other by case. -/
def upperFile : EventPath := ⟨["home".toList, "Bob".toList, "x".toList], by decide⟩

/-- A directory is found for the files of the two other users, and none for the directory itself when it is written with a separator at
its end. -/
theorem findsDirectory_wrong : ¬(FindsDirectory lowerFold bobbyFile [bobDir.text] ↔ LiesInSome [] bobbyFile [bobDir.text]) ∧
    ¬(FindsDirectory lowerFold upperFile [bobDir.text] ↔ LiesInSome [] upperFile [bobDir.text]) ∧
    ¬(FindsDirectory lowerFold bobDir [bobDir.text ++ ['/']] ↔ LiesInSome [] bobDir [bobDir.text ++ ['/']]) := by
  have hnone : ∀ path : EventPath, ¬bobDir.names <+: path.names → ¬LiesInSome [] path [bobDir.text] := by
    rintro path hnot ⟨dir, hdir, hin⟩
    rw [List.mem_singleton.mp hdir, LiesIn, directoryNames_text] at hin
    exact hnot hin
  refine ⟨fun hiff => ?_, fun hiff => ?_, fun hiff => ?_⟩
  · exact hnone bobbyFile (by decide) (hiff.mp (by decide))
  · exact hnone upperFile (by decide) (hiff.mp (by decide))
  · have hin : LiesIn [] (bobDir.text ++ ['/']) bobDir := by
      have hnames : Paths.components '/' (bobDir.text ++ ['/']) = bobDir.names := by
        rw [Paths.components_append_right (by simp), bobDir.components_text]
      exact liesIn_of_components rfl (hnames ▸ List.prefix_refl _)
    exact absurd (hiff.mpr ⟨_, List.mem_singleton_self _, hin⟩) (by decide)

end Sauvegarde
