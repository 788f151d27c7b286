import Sauvegarde.Extern.LocalFiles

/-!
# Listing directories

What GIO tells of the files in a directory, and the names that `g_build_path` gives them. The order in which the files of a directory
are listed is not fixed, and what is told of them besides their names and whether they are directories is left open.
-/

namespace Sauvegarde

/-- The attributes of a `GFileInfo` that the client reads. -/
structure FileInfo where
  name : CString
  fileType : UInt8
  inode : UInt64
  owner : Option CString
  group : Option CString
  uid : UInt32
  gid : UInt32
  atime : UInt64
  ctime : UInt64
  mtime : UInt64
  mode : UInt32
  size : UInt64
  symlinkTarget : Option CString
deriving DecidableEq

/-- `g_build_path` with the separator of directories, for a directory and a name. -/
def gBuildPath (directory name : CString) : CString := CString.ofBytes (gBuildFilenameOf [directory.bytes, name.bytes])

/-- The directory that `g_file_enumerate_children` lists for a text; none when it fails. No file stands for the empty text. Links on
the way are followed. -/
def gFileEnumerateChildren (fs : LocalFiles) (currentDir : Location) (directory : CString) : Option Location :=
  if directory.bytes = [] then none
  else
    ((FileSystem.walk pathRules fs pathRules.maxLinks [] (gFileNewForPath currentDir directory.bytes)).map Prod.fst).filter
      (FileSystem.isDir fs)

/-- What an enumerator of a directory gives, with `G_FILE_QUERY_INFO_NOFOLLOW_SYMLINKS` and without an error: each file in it once,
and a directory is told from anything else. -/
structure Lists (fs : LocalFiles) (place : Location) (infos : List FileInfo) : Prop where
  nodup : (infos.map FileInfo.name).Nodup
  complete : ∀ name, name ∈ infos.map FileInfo.name ↔ fs.node (place ++ [name.bytes]) ≠ none
  types : ∀ info ∈ infos, info.fileType = G_FILE_TYPE_DIRECTORY ↔ fs.node (place ++ [info.name.bytes]) = some .dir

/-- The names in the directories are names of files, as the system makes no others. -/
def WellNamed (fs : LocalFiles) : Prop :=
  ∀ place name, fs.node (place ++ [name]) ≠ none → FileName name ∧ ∀ b ∈ name, b ≠ 0

/-- What stands in a directory has the name of a file. -/
theorem WellNamed.fileName {fs : LocalFiles} (h : WellNamed fs) {place : Location} {name : Bytes}
    {node : FileSystem.Node Bytes Bytes} (hnode : fs.node (place ++ [name]) = some node) : FileName name :=
  (h place name (fs.stands hnode)).1

/-! ## Names that are built -/

/-- What elements with a separator between two hold. -/
theorem mem_intercalate_singleton {sep b : UInt8} {elements : List Bytes} (hb : b ∈ [sep].intercalate elements) :
    b = sep ∨ ∃ element ∈ elements, b ∈ element := by
  induction elements with
  | nil => exact absurd hb List.not_mem_nil
  | cons first rest ih =>
    rcases eq_or_ne rest [] with rfl | hne
    · rw [List.intercalate_singleton] at hb
      exact Or.inr ⟨first, List.mem_cons_self, hb⟩
    · rw [List.intercalate_cons_of_ne_nil hne, List.mem_append, List.mem_append, List.mem_singleton] at hb
      rcases hb with (hb | hb) | hb
      · exact Or.inr ⟨first, List.mem_cons_self, hb⟩
      · exact Or.inl hb
      · obtain hsep | ⟨element, helement, hb⟩ := ih hb
        · exact Or.inl hsep
        · exact Or.inr ⟨element, List.mem_cons_of_mem _ helement, hb⟩

/-- A name that is built has the characters of its elements, and separators. -/
theorem mem_gBuildFilenameOf {elements : List Bytes} {b : UInt8} (hb : b ∈ gBuildFilenameOf elements) :
    b = 47 ∨ ∃ element ∈ elements, b ∈ element := by
  have htrim : ∀ element : Bytes, ∀ c ∈ trimSeparators element, c ∈ element := fun element c hc =>
    (List.dropWhile_suffix _).subset ((List.rdropWhile_prefix _ _).subset hc)
  have hfilter : ∀ element ∈ elements.filter (· ≠ []), element ∈ elements := fun element h => (List.mem_filter.mp h).1
  unfold gBuildFilenameOf at hb
  rcases helements : elements.filter (· ≠ []) with _ | ⟨first, rest⟩
  · rw [helements] at hb
    exact absurd hb List.not_mem_nil
  · rw [helements] at hb hfilter
    simp only at hb
    split_ifs at hb
    · exact Or.inr ⟨first, hfilter first List.mem_cons_self, hb⟩
    · rcases List.mem_append.mp hb with hb | hb
      · rcases List.mem_append.mp hb with hb | hb
        · exact Or.inr ⟨first, hfilter first List.mem_cons_self, (List.takeWhile_prefix _).subset hb⟩
        · obtain hsep | ⟨text, htext, hb⟩ := mem_intercalate_singleton hb
          · exact Or.inl hsep
          · obtain ⟨element, helement, rfl⟩ := List.mem_map.mp (List.mem_filter.mp htext).1
            exact Or.inr ⟨element, hfilter element helement, htrim element b hb⟩
      · exact Or.inr ⟨_, hfilter _ (List.getLast_mem _), (List.rtakeWhile_suffix _ _).subset hb⟩

section

variable {directory name : CString}

theorem gBuildPath_bytes (directory name : CString) :
    (gBuildPath directory name).bytes = gBuildFilenameOf [directory.bytes, name.bytes] := by
  refine CString.bytes_ofBytes fun b hb => ?_
  obtain rfl | ⟨element, helement, hb⟩ := mem_gBuildFilenameOf hb
  · decide
  · rcases List.mem_cons.mp helement with rfl | helement
    · exact directory.nulFree b hb
    · rw [List.mem_singleton.mp helement] at hb
      exact name.nulFree b hb

/-- The name of a file in a directory is not empty. -/
theorem gBuildPath_ne_nil (hdirectory : directory.bytes ≠ []) : (gBuildPath directory name).bytes ≠ [] := by
  intro hempty
  have hhead := head?_gBuildFilenameOf hdirectory [name.bytes]
  rw [gBuildPath_bytes] at hempty
  rw [hempty] at hhead
  exact hdirectory (List.head?_eq_none_iff.mp hhead.symm)

/-- The name of a file in a directory stands for that file. -/
theorem gFileNewForPath_gBuildPath (currentDir : Location) (hdirectory : directory.bytes ≠ []) (hname : FileName name.bytes) :
    gFileNewForPath currentDir (gBuildPath directory name).bytes =
      gFileNewForPath currentDir directory.bytes ++ [name.bytes] := by
  refine gFileNewForPath_eq_append currentDir ?_ ?_ (List.forall_mem_singleton.mpr hname)
  · rw [gBuildPath_bytes, components_gBuildFilenameOf, List.flatMap_cons, List.flatMap_singleton,
      Paths.components_name hname.noSeparator hname.nonempty]
  · rw [gBuildPath_bytes, head?_gBuildFilenameOf hdirectory]

end

/-! ## Directories that are listed -/

section

variable {fs : LocalFiles} {currentDir place : Location} {directory name : CString}

/-- A directory that is listed is one that the text leads to. -/
theorem gFileEnumerateChildren_eq_some : gFileEnumerateChildren fs currentDir directory = some place ↔
    directory.bytes ≠ [] ∧ ∃ k, FileSystem.LeadsTo pathRules fs (gFileNewForPath currentDir directory.bytes) place k := by
  unfold gFileEnumerateChildren
  by_cases hempty : directory.bytes = []
  · simp [hempty]
  · rw [if_neg hempty, Option.filter_eq_some_iff]
    constructor
    · rintro ⟨hwalk, hdir⟩
      obtain ⟨⟨place', k⟩, hwalked, rfl⟩ := Option.map_eq_some_iff.mp hwalk
      exact ⟨hempty, k, hwalked, FileSystem.isDir_iff.mp hdir⟩
    · rintro ⟨_, k, hleads⟩
      exact ⟨Option.map_eq_some_iff.mpr ⟨_, hleads.walked, rfl⟩, FileSystem.isDir_iff.mpr hleads.dir⟩

/-- A directory in a directory that is listed is listed. -/
theorem gFileEnumerateChildren_gBuildPath (hopens : gFileEnumerateChildren fs currentDir directory = some place)
    (hname : FileName name.bytes) (hdir : fs.node (place ++ [name.bytes]) = some .dir) :
    gFileEnumerateChildren fs currentDir (gBuildPath directory name) = some (place ++ [name.bytes]) := by
  obtain ⟨hempty, k, hleads⟩ := gFileEnumerateChildren_eq_some.mp hopens
  refine gFileEnumerateChildren_eq_some.mpr ⟨gBuildPath_ne_nil hempty, k, ?_, hdir⟩
  have hordinary : ∀ x ∈ [name.bytes], pathRules.Ordinary x :=
    List.forall_mem_singleton.mpr ⟨hname.notHere, hname.notParent⟩
  rw [gFileNewForPath_gBuildPath currentDir hempty hname,
    hleads.walk_below hordinary (FileSystem.noLink_of_dir hdir), hdir]
  rfl

end

end Sauvegarde
