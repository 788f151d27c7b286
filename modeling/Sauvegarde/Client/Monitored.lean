import Sauvegarde.Lib.Paths

/-!
# Monitored directories

How m_fanotify.c decides whether an event concerns a directory that is monitored: by the text of the directory, in which it folds the
case of letters. Texts are UTF-8, as `g_utf8_casefold` needs it, and given by their characters; what a character is folded to is a
parameter.
-/

namespace Sauvegarde

section

variable (fold : Char → List Char)

/-- `g_utf8_casefold`: one character after the other. -/
def gUtf8Casefold (text : List Char) : List Char := text.flatMap fold

/-- The loop of `transform_to_utf8_casefold`. -/
def transformLoop (utf8 : List (List Char)) : List (List Char) → List (List Char)
  | [] => utf8
  | dir :: head => transformLoop (gUtf8Casefold fold dir :: utf8) head

/-- `transform_to_utf8_casefold`. -/
def transformToUtf8Casefold (dirList : List (List Char)) : List (List Char) := transformLoop fold [] dirList

/-- The loop of `does_event_concerns_monitored_directory`: the list from the first directory on that the path begins with. -/
def monitoredFrom (pathutf8 : List Char) : List (List Char) → Option (List (List Char))
  | [] => none
  | dirutf8 :: head => if dirutf8.isPrefixOf pathutf8 then some (dirutf8 :: head) else monitoredFrom pathutf8 head

/-- `does_event_concerns_monitored_directory`. -/
def doesEventConcernsMonitoredDirectory (path : List Char) (dirList : List (List Char)) : Option (List (List Char)) :=
  monitoredFrom (gUtf8Casefold fold path) dirList

end

/-! ## Paths and directories -/

/-- The path of an event, as the kernel gives it: absolute, and a name between two separators is that of a file or a directory. -/
structure EventPath where
  names : List (List Char)
  clean : ∀ name ∈ names, (name ≠ [] ∧ '/' ∉ name) ∧ name ≠ ['.'] ∧ name ≠ ['.', '.']

/-- The text of a path. -/
def EventPath.text (path : EventPath) : List Char :=
  if path.names = [] then ['/'] else path.names.flatMap fun name => '/' :: name

/-- The directory that a text names for the client that runs in a directory. -/
def directoryNames (workingDir : List (List Char)) (dir : List Char) : List (List Char) :=
  Paths.resolve ['.'] ['.', '.'] (if dir.head? = some '/' then [] else workingDir) (Paths.components '/' dir)

/-- A path is a directory or lies below it. -/
def LiesIn (workingDir : List (List Char)) (dir : List Char) (path : EventPath) : Prop :=
  directoryNames workingDir dir <+: path.names

/-- The text of a directory stops inside of a name of the path, as that of `/home/bob` does for `/home/bobby`. A text that is empty
stops before the first. -/
def StopsInName (dir : List Char) (path : EventPath) : Prop :=
  dir = [] ∨ ∃ c rest, path.text = dir ++ c :: rest ∧ c ≠ '/' ∧ dir.getLast? ≠ some '/'

/-- The path begins with the text of the directory only when their case is folded. -/
def BeginsFolded (fold : Char → List Char) (dir : List Char) (path : EventPath) : Prop :=
  ¬ dir <+: path.text ∧ gUtf8Casefold fold dir <+: gUtf8Casefold fold path.text

/-! ## What the loops do -/

/-- The loop turns the list over and folds each text in it. -/
theorem mem_transformLoop (fold : Char → List Char) {text : List Char} (dirList : List (List Char)) :
    ∀ utf8, text ∈ transformLoop fold utf8 dirList ↔ text ∈ utf8 ∨ ∃ dir ∈ dirList, gUtf8Casefold fold dir = text := by
  induction dirList with
  | nil => simp [transformLoop]
  | cons dir dirList ih =>
    intro utf8
    rw [transformLoop, ih, List.mem_cons]
    constructor
    · rintro ((rfl | hmem) | ⟨dir', hdir', heq⟩)
      · exact Or.inr ⟨dir, List.mem_cons_self, rfl⟩
      · exact Or.inl hmem
      · exact Or.inr ⟨dir', List.mem_cons_of_mem _ hdir', heq⟩
    · rintro (hmem | ⟨dir', hdir', heq⟩)
      · exact Or.inl (Or.inr hmem)
      · rcases List.mem_cons.mp hdir' with rfl | hdir'
        · exact Or.inl (Or.inl heq.symm)
        · exact Or.inr ⟨dir', hdir', heq⟩

/-- A directory is found exactly when the path begins with one. -/
theorem isSome_monitoredFrom {pathutf8 : List Char} {dirList : List (List Char)} :
    (monitoredFrom pathutf8 dirList).isSome = true ↔ ∃ dirutf8 ∈ dirList, dirutf8 <+: pathutf8 := by
  induction dirList with
  | nil => simp [monitoredFrom]
  | cons dirutf8 dirList ih =>
    simp only [monitoredFrom, List.mem_cons, exists_eq_or_imp]
    split_ifs with hbegins
    · exact iff_of_true rfl (Or.inl (List.isPrefixOf_iff_prefix.mp hbegins))
    · rw [ih, or_iff_right fun h => hbegins (List.isPrefixOf_iff_prefix.mpr h)]

/-- A directory is found exactly when its text, folded, begins the path, folded. -/
theorem finds_iff (fold : Char → List Char) (path : List Char) (dirList : List (List Char)) :
    (doesEventConcernsMonitoredDirectory fold path (transformToUtf8Casefold fold dirList)).isSome = true ↔
      ∃ dir ∈ dirList, gUtf8Casefold fold dir <+: gUtf8Casefold fold path := by
  rw [doesEventConcernsMonitoredDirectory, isSome_monitoredFrom]
  constructor
  · rintro ⟨text, hmem, hbegins⟩
    rcases (mem_transformLoop fold dirList []).mp hmem with hnil | ⟨dir, hdir, rfl⟩
    · exact absurd hnil List.not_mem_nil
    · exact ⟨dir, hdir, hbegins⟩
  · rintro ⟨dir, hdir, hbegins⟩
    exact ⟨_, (mem_transformLoop fold dirList []).mpr (Or.inr ⟨dir, hdir, rfl⟩), hbegins⟩

/-- What begins a text begins it when both are folded. -/
theorem gUtf8Casefold_prefix (fold : Char → List Char) {dir path : List Char} (h : dir <+: path) :
    gUtf8Casefold fold dir <+: gUtf8Casefold fold path := by
  obtain ⟨rest, rfl⟩ := h
  exact ⟨gUtf8Casefold fold rest, List.flatMap_append.symm⟩

/-! ## Texts and the directories they name -/

/-- The names of a path are the components of its text. -/
theorem EventPath.components_text (path : EventPath) : Paths.components '/' path.text = path.names := by
  unfold EventPath.text
  split_ifs with hroot
  · rw [hroot, Paths.components_cons, Paths.components_nil]
  · exact Paths.components_flatMap fun name hname => (path.clean name hname).1

/-- The text of a path begins with a separator. -/
theorem EventPath.head_text (path : EventPath) : path.text.head? = some '/' := by
  unfold EventPath.text
  split_ifs with hroot
  · rfl
  · obtain ⟨name, names, hnames⟩ := List.exists_cons_of_ne_nil hroot
    rw [hnames]
    rfl

/-- A text that begins with a separator, and has the first names of a path, names a directory that the path lies in. -/
theorem liesIn_of_components {workingDir : List (List Char)} {dir : List Char} {path : EventPath} (hhead : dir.head? = some '/')
    (hnames : Paths.components '/' dir <+: path.names) : LiesIn workingDir dir path := by
  have hclean : ∀ name ∈ Paths.components '/' dir, name ≠ ['.'] ∧ name ≠ ['.', '.'] := fun name hname =>
    (path.clean name (hnames.subset hname)).2
  rwa [LiesIn, directoryNames, if_pos hhead, Paths.resolve_of_names _ _ hclean, List.nil_append]

/-- A text that the path begins with stops inside of a name, or the path lies in the directory. -/
theorem liesIn_or_stopsInName (workingDir : List (List Char)) {dir : List Char} {path : EventPath} (h : dir <+: path.text) :
    LiesIn workingDir dir path ∨ StopsInName dir path := by
  obtain ⟨rest, htext⟩ := h
  rcases dir with _ | ⟨first, dir⟩
  · exact Or.inr (Or.inl rfl)
  · have hhead : (first :: dir).head? = some '/' := by
      rw [← path.head_text, ← htext]
      rfl
    have hcomponents := path.components_text
    rw [← htext] at hcomponents
    rcases rest with _ | ⟨c, rest⟩
    · rw [List.append_nil] at hcomponents
      exact Or.inl (liesIn_of_components hhead (hcomponents ▸ List.prefix_refl _))
    · by_cases hc : c = '/'
      · rw [hc, Paths.components_append_cons] at hcomponents
        exact Or.inl (liesIn_of_components hhead ⟨_, hcomponents⟩)
      · by_cases hlast : (first :: dir).getLast? = some '/'
        · obtain ⟨before, hbefore⟩ := List.getLast?_eq_some_iff.mp hlast
          have hdir : Paths.components '/' (first :: dir) = Paths.components '/' before := by
            rw [hbefore, Paths.components_append_right (by simp)]
          rw [hbefore, List.append_assoc, List.singleton_append, Paths.components_append_cons, ← hdir] at hcomponents
          exact Or.inl (liesIn_of_components hhead ⟨_, hcomponents⟩)
        · exact Or.inr (Or.inr ⟨c, rest, htext.symm, hc, hlast⟩)

/-- A text that stops inside of a name of the path begins the path. -/
theorem StopsInName.begins {dir : List Char} {path : EventPath} (h : StopsInName dir path) : dir <+: path.text := by
  rcases h with rfl | ⟨c, rest, htext, -, -⟩
  · exact List.nil_prefix
  · exact ⟨c :: rest, htext.symm⟩

/-- A directory that is written as a path is has the names of the path. -/
theorem directoryNames_text (workingDir : List (List Char)) (dir : EventPath) : directoryNames workingDir dir.text = dir.names := by
  have hclean : ∀ name ∈ dir.names, name ≠ ['.'] ∧ name ≠ ['.', '.'] := fun name hname => (dir.clean name hname).2
  rw [directoryNames, if_pos dir.head_text, dir.components_text, Paths.resolve_of_names _ _ hclean, List.nil_append]

/-- When the path lies in it, it begins the path. -/
theorem begins_of_liesIn {workingDir : List (List Char)} {dir path : EventPath} (h : LiesIn workingDir dir.text path) :
    dir.text <+: path.text := by
  rw [LiesIn, directoryNames_text] at h
  obtain ⟨more, hmore⟩ := h
  unfold EventPath.text
  by_cases hroot : dir.names = []
  · rw [if_pos hroot]
    obtain ⟨rest, hrest⟩ := List.head?_eq_some_iff.mp path.head_text
    exact ⟨rest, hrest.symm⟩
  · have hne : path.names ≠ [] := by
      rw [← hmore]
      simp [hroot]
    rw [if_neg hroot, if_neg hne, ← hmore, List.flatMap_append]
    exact List.prefix_append _ _

end Sauvegarde
