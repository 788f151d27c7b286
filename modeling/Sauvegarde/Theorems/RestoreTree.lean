import Sauvegarde.Libcdpfgl.FileLists
import Sauvegarde.Restore.FreeNames

/-!
# Restoring a tree

What stands below the destination after a list of saved entries was restored with their whole paths. An entry that is no link is
restored as a regular file, also when it is a directory; and below a directory with its date when all versions are asked for.
-/

namespace Sauvegarde

open FileSystem

/-- A saved entry of a tree: a regular file, a directory or a symbolic link, and its path from the root. Only links lead
anywhere. -/
structure TreeEntry where
  metaData : MetaData
  path : Location
  nonempty : path ≠ []
  names : ∀ name ∈ path, FileName name
  named : metaData.name.map CString.bytes = some (pathText path)
  fileType : metaData.fileType = G_FILE_TYPE_REGULAR ∨ metaData.fileType = G_FILE_TYPE_DIRECTORY ∨
    metaData.fileType = G_FILE_TYPE_SYMBOLIC_LINK
  link : if metaData.fileType = G_FILE_TYPE_SYMBOLIC_LINK then ∃ target, metaData.link = some target ∧ target.bytes ≠ []
    else metaData.link = some (CString.lit "")

/-- The entries make a tree: each has a path of its own, and what others stand below is a directory. -/
structure IsTree (entries : List TreeEntry) : Prop where
  distinct : entries.Pairwise fun e e' => e.path ≠ e'.path
  below : ∀ e ∈ entries, ∀ e' ∈ entries, e.path <+: e'.path → e.path ≠ e'.path → e.metaData.fileType = G_FILE_TYPE_DIRECTORY

/-- The key of the name of a directory comes before those of the names of what stands below it. -/
def ParentsFirst (collateKeyForFilename : CString → CString) : Prop :=
  ∀ (parent child : CString) (rest : Bytes), child.bytes = parent.bytes ++ 47 :: rest →
    strcmp (collateKeyForFilename parent).bytes (collateKeyForFilename child).bytes < 0

section

variable (currentDir : Location) (transformDateToString : UInt64 → Option CString) (resStruct : ResStruct)

/-- The place of the destination in the text. -/
def destinationFile (fs : LocalFiles) : Location := gFileNewForPath currentDir (destination currentDir resStruct fs)

/-- The directory that is restored into is there and empty; when none is given it is the one that the program runs in. -/
structure EmptyDestination (fs : LocalFiles) (place : Location) (k : Nat) : Prop where
  given : ∀ whereDir, resStruct.opt.whereDir = some whereDir → gFileTestIsDir fs currentDir whereDir.bytes = true
  leads : LeadsTo pathRules fs (destinationFile currentDir resStruct fs) place k
  empty : ∀ name, fs.node (place ++ [name]) = none

/-- What an entry is to be restored as. -/
def TreeEntry.node (e : TreeEntry) : Node Bytes Bytes :=
  if e.metaData.fileType = G_FILE_TYPE_DIRECTORY then .dir
  else if e.metaData.fileType = G_FILE_TYPE_SYMBOLIC_LINK then .link ((e.metaData.link.map CString.bytes).getD [])
  else .file (restoreDataToStream resStruct.getHashArray e.metaData.hashDataList (calculateMaxNumberOfHashs e.metaData.size))

/-- An entry stands restored at its full path below the destination. -/
def IsRestored (dest : Location) (fs : LocalFiles) (e : TreeEntry) : Prop :=
  lookup pathRules fs (dest ++ e.path) = some (e.node resStruct)

/-- An entry that is restored after others is created at its full path below the destination. -/
def CreatedAtPath (fs : LocalFiles) (before : List ServerMetaData) (e : TreeEntry) : Prop :=
  ∃ fs', restoreListOfSmeta currentDir transformDateToString resStruct fs before = some fs' ∧
    chosenFile currentDir transformDateToString resStruct fs' e.metaData =
      some (destinationFile currentDir resStruct fs ++ e.path)

/-- A tree is restored: the directories and the regular files are created at their full paths and stand there in the end, and so
does every entry that is restored when there is no other. -/
structure RestoresTree (fs after : LocalFiles) (list : List ServerMetaData) (entries : List TreeEntry) : Prop where
  created : ∀ i e, entries[i]? = some e → e.metaData.fileType ≠ G_FILE_TYPE_SYMBOLIC_LINK →
    CreatedAtPath currentDir transformDateToString resStruct fs (list.take i) e
  restored : ∀ e ∈ entries, e.metaData.fileType ≠ G_FILE_TYPE_SYMBOLIC_LINK →
    IsRestored resStruct (destinationFile currentDir resStruct fs) after e
  notLeftOut : ∀ e ∈ entries,
    (∃ alone, restoreListOfSmeta currentDir transformDateToString resStruct fs [⟨none, false, some e.metaData⟩] = some alone ∧
      IsRestored resStruct (destinationFile currentDir resStruct fs) alone e) →
    IsRestored resStruct (destinationFile currentDir resStruct fs) after e

end

namespace RestoreTreeAux

/-! ## One entry -/

variable {currentDir : Location} {transformDateToString : UInt64 → Option CString} {resStruct : ResStruct} {fs fs' : LocalFiles}
  {place : Location} {k : Nat}

/-- The destination stays the same. -/
theorem destination_of_kept (hgiven : ∀ whereDir, resStruct.opt.whereDir = some whereDir →
      gFileTestIsDir fs currentDir whereDir.bytes = true) (hkept : Kept fs fs') :
    (∀ whereDir, resStruct.opt.whereDir = some whereDir → gFileTestIsDir fs' currentDir whereDir.bytes = true) ∧
      destination currentDir resStruct fs' = destination currentDir resStruct fs := by
  have hkeptDir : ∀ whereDir, resStruct.opt.whereDir = some whereDir → gFileTestIsDir fs' currentDir whereDir.bytes = true := by
    intro whereDir hwhere
    have h := hgiven whereDir hwhere
    simp only [gFileTestIsDir, Bool.and_eq_true, Option.any_eq_true] at h ⊢
    obtain ⟨hne, r, hwalk, hdir⟩ := h
    exact ⟨hne, r, walk_of_kept hkept hwalk, isDir_iff.mpr (hkept _ _ (isDir_iff.mp hdir))⟩
  refine ⟨hkeptDir, ?_⟩
  unfold destination
  cases hwhere : resStruct.opt.whereDir with
  | none => rfl
  | some whereDir => simp only [hgiven whereDir hwhere, hkeptDir whereDir hwhere]

/-- The files of an entry that is restored under its own name. -/
def restoredFiles (resStruct : ResStruct) (dest : Location) (fs : LocalFiles) (e : TreeEntry) : LocalFiles :=
  if e.metaData.fileType = G_FILE_TYPE_SYMBOLIC_LINK then make pathRules fs (dest ++ e.path) (e.node resStruct)
  else
    make pathRules (makeDirectories pathRules fs dest e.path.dropLast) (dest ++ e.path) (.file
      (restoreDataToStream resStruct.getHashArray e.metaData.hashDataList (calculateMaxNumberOfHashs e.metaData.size)))

/-- The directories above an entry are made from the destination on. -/
theorem createDirectory_eq (hcurrent : ∀ name ∈ currentDir, pathRules.Ordinary name)
    (hleads : LeadsTo pathRules fs (destinationFile currentDir resStruct fs) place k)
    (hne : destination currentDir resStruct fs ≠ []) (e : TreeEntry) :
    createDirectory fs currentDir (gPathGetDirname (gBuildFilenameOf [destination currentDir resStruct fs, pathText e.path])) =
      makeDirectories pathRules fs (destinationFile currentDir resStruct fs) e.path.dropLast := by
  have hpath := List.dropLast_concat_getLast e.nonempty
  have hnames : ∀ x ∈ e.path.dropLast ++ [e.path.getLast e.nonempty], FileName x := by
    rw [hpath]
    exact e.names
  have hdirname := gFileNewForPath_gPathGetDirname currentDir hne hnames
  rw [hpath] at hdirname
  have hthere : makeDirectories pathRules fs [] (destinationFile currentDir resStruct fs) = fs :=
    makeDirectories_of_walk (by rw [List.nil_append, hleads.walked]; exact Option.some_ne_none _)
      (ordinary_gFileNewForPath hcurrent _)
  unfold createDirectory gFileMakeDirectoryWithParents
  rw [hdirname, makeDirectories_append, List.nil_append]
  exact congrArg (fun files => makeDirectories pathRules files _ _) hthere

/-- The name of an entry with its whole path. -/
theorem basenameOf_eq (hparents : resStruct.opt.parents = true) (e : TreeEntry) :
    basenameOf resStruct e.metaData = some (pathText e.path) := by
  unfold basenameOf
  rw [hparents]
  exact e.named

/-- The first name that is tried for an entry is its own. -/
theorem candidateFilename_own (hparents : resStruct.opt.parents = true) (hversions : resStruct.opt.allVersions = false)
    (e : TreeEntry) : candidateFilename currentDir transformDateToString resStruct fs e.metaData 0 =
      gBuildFilenameOf [destination currentDir resStruct fs, pathText e.path] := by
  unfold candidateFilename newnameOf
  rw [hversions, basenameOf_eq hparents]
  rfl

/-- It is that of its path below the destination. -/
theorem firstFile_own (hparents : resStruct.opt.parents = true) (hversions : resStruct.opt.allVersions = false) (e : TreeEntry) :
    firstFile currentDir transformDateToString resStruct fs e.metaData = destinationFile currentDir resStruct fs ++ e.path := by
  unfold firstFile
  rw [candidateFilename_own hparents hversions]
  exact gFileNewForPath_below currentDir (destination_ne_nil currentDir resStruct fs) e.nonempty e.names

/-- A link is made, and nothing but it. -/
theorem createAt_link {e : TreeEntry} (htype : e.metaData.fileType = G_FILE_TYPE_SYMBOLIC_LINK) (fs : LocalFiles)
    (filename : Bytes) : createAt currentDir resStruct fs e.metaData filename =
      make pathRules fs (gFileNewForPath currentDir filename) (e.node resStruct) := by
  have hlink := e.link
  rw [if_pos htype] at hlink
  obtain ⟨target, htarget, hnonempty⟩ := hlink
  have hother : e.metaData.link ≠ some (CString.lit "") := fun h => by
    rw [htarget] at h
    exact hnonempty (congrArg CString.bytes (Option.some.inj h))
  have hnode : e.node resStruct = .link target.bytes := by
    unfold TreeEntry.node
    rw [if_neg (by rw [htype]; decide), if_pos htype, htarget]
    rfl
  unfold createAt
  simp only
  rw [if_neg hother, htarget, hnode]
  rfl

/-- An entry is restored under its own name when that is free. -/
theorem createFile_eq (hparents : resStruct.opt.parents = true) (hversions : resStruct.opt.allVersions = false)
    (hcurrent : ∀ name ∈ currentDir, pathRules.Ordinary name)
    (hleads : LeadsTo pathRules fs (destinationFile currentDir resStruct fs) place k) (e : TreeEntry)
    (hfree : lookup pathRules fs (destinationFile currentDir resStruct fs ++ e.path) = none) :
    chosenFile currentDir transformDateToString resStruct fs e.metaData =
        some (destinationFile currentDir resStruct fs ++ e.path) ∧
      createFile currentDir transformDateToString resStruct fs e.metaData =
        some (restoredFiles resStruct (destinationFile currentDir resStruct fs) fs e) := by
  have hfirst : firstFile currentDir transformDateToString resStruct fs e.metaData =
      destinationFile currentDir resStruct fs ++ e.path := firstFile_own hparents hversions e
  have hcreated := createFile_of_free (hfirst ▸ hfree)
  refine ⟨hcreated.1.trans (congrArg some hfirst), hcreated.2.trans (congrArg some ?_)⟩
  have hname : candidateFilename currentDir transformDateToString resStruct fs e.metaData 0 = _ :=
    candidateFilename_own hparents hversions e
  unfold restoredFiles
  split_ifs with htype
  · rw [createAt_link htype]
    exact congrArg (fun file => make pathRules fs file _) hfirst
  · have hlink := e.link
    rw [if_neg htype] at hlink
    unfold createAt
    simp only
    rw [if_pos hlink, hparents, if_pos rfl, hname,
      createDirectory_eq hcurrent hleads (destination_ne_nil currentDir resStruct fs) e, ← hname]
    exact congrArg (fun file => make pathRules _ file _) hfirst

/-! ## The run over the list -/

/-- The content of an entry that is no link. -/
def content (resStruct : ResStruct) (e : TreeEntry) : Bytes :=
  restoreDataToStream resStruct.getHashArray e.metaData.hashDataList (calculateMaxNumberOfHashs e.metaData.size)

/-- The directory that an entry stands in. -/
def above (e : TreeEntry) : Location := e.path.dropLast

/-- What stands below the destination when some of the entries were restored: nothing but these and the directories above them;
the links where they belong; the regular files with their contents, when no entry is a directory; the links that stand directly
in the destination; and instead of a directory a file, at its path or above it. -/
structure Restored (resStruct : ResStruct) (fs : LocalFiles) (place : Location) (done entries : List TreeEntry) : Prop where
  only : ∀ q, fs.node (place ++ q) ≠ none → q = [] ∨ ∃ e ∈ done, q <+: e.path
  links : ∀ q target, fs.node (place ++ q) = some (.link target) →
    ∃ e ∈ done, q = e.path ∧ e.metaData.fileType = G_FILE_TYPE_SYMBOLIC_LINK
  files : ∀ q bytes, fs.node (place ++ q) = some (.file bytes) → ∃ e ∈ done, q = e.path
  regular : (∀ e ∈ entries, e.metaData.fileType ≠ G_FILE_TYPE_DIRECTORY) →
    ∀ e ∈ done, e.metaData.fileType = G_FILE_TYPE_REGULAR → fs.node (place ++ e.path) = some (.file (content resStruct e))
  shallow : ∀ e ∈ done, e.metaData.fileType = G_FILE_TYPE_SYMBOLIC_LINK → above e = [] →
    fs.node (place ++ e.path) = some (e.node resStruct)
  directories : ∀ e ∈ done, e.metaData.fileType = G_FILE_TYPE_DIRECTORY →
    ∃ q bytes, q <+: e.path ∧ fs.node (place ++ q) = some (.file bytes)

/-- The path of an entry ends with its name. -/
theorem above_append (e : TreeEntry) : ∃ name, e.path = above e ++ [name] :=
  ⟨_, (List.dropLast_concat_getLast e.nonempty).symm⟩

theorem ordinary_path (e : TreeEntry) : ∀ name ∈ e.path, pathRules.Ordinary name :=
  fun name hname => ⟨(e.names name hname).notHere, (e.names name hname).notParent⟩

theorem ordinary_above (e : TreeEntry) : ∀ name ∈ above e, pathRules.Ordinary name :=
  fun name hname => ordinary_path e name (List.mem_of_mem_dropLast hname)

/-- What stands above an entry is above its path, and is not its path. -/
theorem path_of_above {q : Location} {e : TreeEntry} (h : q <+: above e) : q <+: e.path ∧ q ≠ e.path := by
  obtain ⟨name, hpath⟩ := above_append e
  refine ⟨h.trans (hpath ▸ List.prefix_append _ _), fun heq => ?_⟩
  have hlength := h.length_le
  rw [heq, hpath, List.length_append, List.length_singleton] at hlength
  omega

variable {done entries : List TreeEntry} {e : TreeEntry} {dest : Location}

/-- An entry that stands above another is a directory. -/
theorem directory_of_above (htree : IsTree entries) {e' : TreeEntry} (he' : e' ∈ entries) (he : e ∈ entries)
    (habove : e'.path <+: above e) : e'.metaData.fileType = G_FILE_TYPE_DIRECTORY :=
  htree.below e' he' e he (path_of_above habove).1 (path_of_above habove).2

/-- On the way to an entry of the tree there is no link. -/
theorem noLink_above (htree : IsTree entries) (hdone : ∀ e' ∈ done, e' ∈ entries) (he : e ∈ entries)
    (h : Restored resStruct fs place done entries) : NoLink fs place (above e) := by
  intro part target hpart hlink
  obtain ⟨e', he', rfl, htype⟩ := h.links part target hlink
  have hdir := directory_of_above htree (hdone e' he') he hpart
  rw [htype] at hdir
  exact absurd hdir (by decide)

/-- What an entry stands under is its place below the destination. -/
theorem lookup_entry (htree : IsTree entries) (hdone : ∀ e' ∈ done, e' ∈ entries) (he : e ∈ entries)
    (hleads : LeadsTo pathRules fs dest place k) (h : Restored resStruct fs place done entries) :
    lookup pathRules fs (dest ++ e.path) = fs.node (place ++ e.path) := by
  obtain ⟨name, hpath⟩ := above_append e
  rw [hpath]
  exact hleads.lookup_below (ordinary_above e) (noLink_above htree hdone he h)

/-- How an entry changes the files: nothing is lost; new are only the entry and directories above it; a link that stands directly
in the destination is made, and anything else but a link unless a file stands above it. -/
structure Changes (resStruct : ResStruct) (fs fs' : LocalFiles) (place : Location) (e : TreeEntry) : Prop where
  kept : Kept fs fs'
  fresh : ∀ p, fs'.node p ≠ fs.node p →
    (p = place ++ e.path ∧ fs'.node p =
      some (if e.metaData.fileType = G_FILE_TYPE_SYMBOLIC_LINK then e.node resStruct else .file (content resStruct e))) ∨
    ∃ q, q <+: above e ∧ p = place ++ q ∧ fs'.node p = some .dir
  link : e.metaData.fileType = G_FILE_TYPE_SYMBOLIC_LINK → above e = [] → fs'.node (place ++ e.path) = some (e.node resStruct)
  noLink : e.metaData.fileType ≠ G_FILE_TYPE_SYMBOLIC_LINK → fs'.node (place ++ e.path) = some (.file (content resStruct e)) ∨
    ∃ q bytes, q <+: above e ∧ fs.node (place ++ q) = some (.file bytes)

/-- A link below a directory that is missing is not made. -/
theorem restoredFiles_link_eq (htype : e.metaData.fileType = G_FILE_TYPE_SYMBOLIC_LINK) (hleads : LeadsTo pathRules fs dest place k)
    (hlinks : NoLink fs place (above e)) (hdir : fs.node (place ++ above e) ≠ some .dir) :
    restoredFiles resStruct dest fs e = fs := by
  obtain ⟨name, hpath⟩ := above_append e
  rw [restoredFiles, if_pos htype, hpath]
  exact hleads.make_eq (ordinary_above e) hlinks (Or.inl hdir) _

theorem changes_link (htype : e.metaData.fileType = G_FILE_TYPE_SYMBOLIC_LINK) (hleads : LeadsTo pathRules fs dest place k)
    (hlinks : NoLink fs place (above e)) (hfree : fs.node (place ++ e.path) = none) :
    Changes resStruct fs (restoredFiles resStruct dest fs e) place e := by
  obtain ⟨name, hpath⟩ := above_append e
  by_cases hdir : fs.node (place ++ above e) = some .dir
  · have hrestored : restoredFiles resStruct dest fs e = make pathRules fs (dest ++ e.path) (e.node resStruct) := if_pos htype
    rw [hrestored]
    have hnode : ∀ p, (make pathRules fs (dest ++ e.path) (e.node resStruct)).node p =
        if p = place ++ e.path then some (e.node resStruct) else fs.node p := fun p => by
      rw [hpath] at hfree ⊢
      exact hleads.node_make (ordinary_above e) hlinks hdir hfree _ p
    refine ⟨kept_make _ _ _, fun p hp => Or.inl ?_, fun _ _ => (hnode _).trans (if_pos rfl), fun h => absurd htype h⟩
    rw [hnode] at hp
    have hp' : p = place ++ e.path := by_contra fun hne => hp (if_neg hne)
    rw [hnode, if_pos hp', if_pos htype]
    exact ⟨hp', rfl⟩
  · rw [restoredFiles_link_eq htype hleads hlinks hdir]
    refine ⟨Kept.refl fs, fun p hp => absurd rfl hp, fun _ habove => absurd ?_ hdir, fun h => absurd htype h⟩
    rw [habove, List.append_nil]
    exact hleads.dir

/-- What a file is restored to. -/
theorem restoredFiles_file (htype : e.metaData.fileType ≠ G_FILE_TYPE_SYMBOLIC_LINK) (dest : Location) (fs : LocalFiles) :
    restoredFiles resStruct dest fs e =
      make pathRules (makeDirectories pathRules fs dest (above e)) (dest ++ e.path) (.file (content resStruct e)) :=
  if_neg htype

/-- Below a file nothing is restored. -/
theorem changes_belowFile (htype : e.metaData.fileType ≠ G_FILE_TYPE_SYMBOLIC_LINK) (hleads : LeadsTo pathRules fs dest place k)
    (hlinks : NoLink fs place (above e)) {q : Location} {bytes : Bytes} (hbegins : q <+: above e)
    (hnode : fs.node (place ++ q) = some (.file bytes)) : Changes resStruct fs (restoredFiles resStruct dest fs e) place e := by
  obtain ⟨name, hpath⟩ := above_append e
  have hdirectories : makeDirectories pathRules fs dest (above e) = fs := by
    have hnames : ∀ x ∈ [] ++ above e, pathRules.Ordinary x := ordinary_above e
    have h := hleads.makeDirectories_eq hnames (by rwa [List.nil_append]) (by rwa [List.nil_append]) hnode
    rwa [List.append_nil] at h
  have hsame : make pathRules fs (dest ++ e.path) (.file (content resStruct e)) = fs := by
    rw [hpath]
    exact hleads.make_eq (ordinary_above e) hlinks (Or.inl (fs.not_dir_of_file hbegins hnode)) _
  rw [restoredFiles_file htype, hdirectories, hsame]
  exact ⟨Kept.refl fs, fun p hp => absurd rfl hp, fun h => absurd h htype, fun _ => Or.inr ⟨q, bytes, hbegins, hnode⟩⟩

/-- Where no file stands in the way the directories are made and the file is restored. -/
theorem changes_freeFile (htype : e.metaData.fileType ≠ G_FILE_TYPE_SYMBOLIC_LINK) (hleads : LeadsTo pathRules fs dest place k)
    (hclear : ∀ more, more <+: above e → fs.node (place ++ more) = none ∨ fs.node (place ++ more) = some .dir)
    (hfree : fs.node (place ++ e.path) = none) : Changes resStruct fs (restoredFiles resStruct dest fs e) place e := by
  obtain ⟨name, hpath⟩ := above_append e
  have hnames : ∀ x ∈ [] ++ above e, pathRules.Ordinary x := ordinary_above e
  rw [restoredFiles_file htype]
  obtain ⟨hmade, hother⟩ := hleads.node_makeDirectories hnames (by rw [List.append_nil]; exact hleads.dir) hclear
  simp only [List.append_nil, List.nil_append] at hmade hother
  have hkept : Kept fs (makeDirectories pathRules fs dest (above e)) := kept_makeDirectories pathRules _ _
  generalize makeDirectories pathRules fs dest (above e) = fs₁ at hmade hother hkept
  have habove := hmade (above e) (List.prefix_refl _)
  have hfree₁ : fs₁.node (place ++ e.path) = none := by
    rw [hother _ fun more hmore heq => (path_of_above hmore).2 (List.append_cancel_left heq).symm, hfree]
  have hnode : ∀ p, (make pathRules fs₁ (dest ++ e.path) (.file (content resStruct e))).node p =
      if p = place ++ e.path then some (.file (content resStruct e)) else fs₁.node p := fun p => by
    rw [hpath] at hfree₁ ⊢
    exact (hleads.of_kept hkept).node_make (ordinary_above e) (noLink_of_dir habove) habove hfree₁ _ p
  refine ⟨hkept.trans (kept_make _ _ _), fun p hp => ?_, fun h => absurd h htype, fun _ => Or.inl ((hnode _).trans (if_pos rfl))⟩
  by_cases hp' : p = place ++ e.path
  · exact Or.inl ⟨hp', by rw [hnode, if_pos hp', if_neg htype]⟩
  · rw [hnode, if_neg hp'] at hp ⊢
    refine Or.inr (by_contra fun hnot => hp (hother p fun more hmore heq => hnot ⟨more, hmore, heq, ?_⟩))
    rw [heq]
    exact hmade more hmore

theorem changes_file (htype : e.metaData.fileType ≠ G_FILE_TYPE_SYMBOLIC_LINK) (hleads : LeadsTo pathRules fs dest place k)
    (hlinks : NoLink fs place (above e)) (hfree : fs.node (place ++ e.path) = none) :
    Changes resStruct fs (restoredFiles resStruct dest fs e) place e := by
  by_cases hfile : ∃ q bytes, q <+: above e ∧ fs.node (place ++ q) = some (.file bytes)
  · obtain ⟨q, bytes, hbegins, hnode⟩ := hfile
    exact changes_belowFile htype hleads hlinks hbegins hnode
  · refine changes_freeFile htype hleads (fun more hmore => ?_) hfree
    rcases hnode : fs.node (place ++ more) with _ | node
    · exact Or.inl rfl
    · cases node with
      | dir => exact Or.inr rfl
      | file bytes => exact absurd ⟨more, bytes, hmore, hnode⟩ hfile
      | link target => exact absurd hnode (hlinks more target hmore)

/-- How an entry changes the files. -/
theorem changes_restoredFiles (hleads : LeadsTo pathRules fs dest place k) (hlinks : NoLink fs place (above e))
    (hfree : fs.node (place ++ e.path) = none) : Changes resStruct fs (restoredFiles resStruct dest fs e) place e := by
  by_cases htype : e.metaData.fileType = G_FILE_TYPE_SYMBOLIC_LINK
  · exact changes_link htype hleads hlinks hfree
  · exact changes_file htype hleads hlinks hfree

/-- What stands below the destination after an entry stood there, or is the entry, or a directory above it. -/
theorem Changes.cases {fs' : LocalFiles} (hchanges : Changes resStruct fs fs' place e) {q : Location} {node : Node Bytes Bytes}
    (hnode : fs'.node (place ++ q) = some node) : fs.node (place ++ q) = some node ∨
      (q = e.path ∧ node =
        if e.metaData.fileType = G_FILE_TYPE_SYMBOLIC_LINK then e.node resStruct else .file (content resStruct e)) ∨
      (q <+: above e ∧ node = .dir) := by
  by_cases hsame : fs'.node (place ++ q) = fs.node (place ++ q)
  · exact Or.inl (hsame ▸ hnode)
  · rcases hchanges.fresh _ hsame with ⟨hq, hnew⟩ | ⟨q', hq', hq, hnew⟩
    · exact Or.inr (Or.inl ⟨List.append_cancel_left hq, Option.some.inj (hnode.symm.trans hnew)⟩)
    · rw [List.append_cancel_left hq]
      exact Or.inr (Or.inr ⟨hq', Option.some.inj (hnode.symm.trans hnew)⟩)

/-- A regular file is made when no entry is a directory: a file above it would be one. -/
theorem Restored.node_regular {fs' : LocalFiles} (htree : IsTree entries) (hdone : ∀ e' ∈ done, e' ∈ entries) (he : e ∈ entries)
    (h : Restored resStruct fs place done entries) (hchanges : Changes resStruct fs fs' place e)
    (hnone : ∀ e ∈ entries, e.metaData.fileType ≠ G_FILE_TYPE_DIRECTORY) (htype : e.metaData.fileType = G_FILE_TYPE_REGULAR) :
    fs'.node (place ++ e.path) = some (.file (content resStruct e)) := by
  rcases hchanges.noLink (by rw [htype]; decide) with hnode | ⟨q, bytes, hbegins, hfile⟩
  · exact hnode
  · obtain ⟨e', he', rfl⟩ := h.files q bytes hfile
    exact absurd (directory_of_above htree (hdone e' he') he hbegins) (hnone e' (hdone e' he'))

/-- One entry more is restored. -/
theorem Restored.step {fs' : LocalFiles} (htree : IsTree entries) (hdone : ∀ e' ∈ done, e' ∈ entries) (he : e ∈ entries)
    (h : Restored resStruct fs place done entries) (hchanges : Changes resStruct fs fs' place e) :
    Restored resStruct fs' place (done ++ [e]) entries := by
  have hlast : e ∈ done ++ [e] := List.mem_append_right _ List.mem_cons_self
  have hbefore : ∀ {e'}, e' ∈ done → e' ∈ done ++ [e] := fun he' => List.mem_append_left _ he'
  constructor
  case only =>
    intro q hq
    obtain ⟨node, hnode⟩ := Option.ne_none_iff_exists'.mp hq
    rcases hchanges.cases hnode with hold | ⟨rfl, -⟩ | ⟨hbegins, -⟩
    · rcases h.only q (fs.stands hold) with hroot | ⟨e', he', hbegins⟩
      · exact Or.inl hroot
      · exact Or.inr ⟨e', hbefore he', hbegins⟩
    · exact Or.inr ⟨e, hlast, List.prefix_refl _⟩
    · exact Or.inr ⟨e, hlast, (path_of_above hbegins).1⟩
  case links =>
    intro q target hnode
    rcases hchanges.cases hnode with hold | ⟨rfl, hnew⟩ | ⟨-, hnew⟩
    · obtain ⟨e', he', hq⟩ := h.links q target hold
      exact ⟨e', hbefore he', hq⟩
    · refine ⟨e, hlast, rfl, by_contra fun htype => ?_⟩
      rw [if_neg htype] at hnew
      cases hnew
    · cases hnew
  case files =>
    intro q bytes hnode
    rcases hchanges.cases hnode with hold | ⟨rfl, -⟩ | ⟨-, hnew⟩
    · obtain ⟨e', he', hq⟩ := h.files q bytes hold
      exact ⟨e', hbefore he', hq⟩
    · exact ⟨e, hlast, rfl⟩
    · cases hnew
  case regular =>
    intro hnone e' he' htype
    rcases List.mem_append.mp he' with he' | he'
    · exact hchanges.kept _ _ (h.regular hnone e' he' htype)
    · obtain rfl := List.mem_singleton.mp he'
      exact h.node_regular htree hdone he hchanges hnone htype
  case shallow =>
    intro e' he' htype hshallow
    rcases List.mem_append.mp he' with he' | he'
    · exact hchanges.kept _ _ (h.shallow e' he' htype hshallow)
    · obtain rfl := List.mem_singleton.mp he'
      exact hchanges.link htype hshallow
  case directories =>
    intro e' he' htype
    rcases List.mem_append.mp he' with he' | he'
    · obtain ⟨q, bytes, hbegins, hfile⟩ := h.directories e' he' htype
      exact ⟨q, bytes, hbegins, hchanges.kept _ _ hfile⟩
    · obtain rfl := List.mem_singleton.mp he'
      rcases hchanges.noLink (by rw [htype]; decide) with hnode | ⟨q, bytes, hbegins, hfile⟩
      · exact ⟨e'.path, _, List.prefix_refl _, hnode⟩
      · exact ⟨q, bytes, (path_of_above hbegins).1, hchanges.kept _ _ hfile⟩

/-- Nothing is restored before the first entry. -/
theorem restored_nil (hdir : fs.node place = some .dir) (hempty : ∀ name, fs.node (place ++ [name]) = none) :
    Restored resStruct fs place [] entries := by
  have hnone : ∀ q, q ≠ [] → fs.node (place ++ q) = none := by
    intro q hq
    obtain ⟨name, rest, rfl⟩ := List.exists_cons_of_ne_nil hq
    rw [List.append_cons]
    rcases eq_or_ne rest [] with rfl | hne
    · rw [List.append_nil]
      exact hempty name
    · exact fs.node_below (by rw [hempty]; exact (Option.some_ne_none _).symm) hne
  have hroot : ∀ q node, fs.node (place ++ q) = some node → q = [] ∧ node = .dir := fun q node hnode => by
    rcases eq_or_ne q [] with rfl | hne
    · rw [List.append_nil, hdir] at hnode
      exact ⟨rfl, (Option.some.inj hnode).symm⟩
    · rw [hnone q hne] at hnode
      cases hnode
  constructor
  case only => exact fun q hq => Or.inl (by_contra fun hne => hq (hnone q hne))
  case links => exact fun q target hnode => absurd (hroot q _ hnode).2 (by simp)
  case files => exact fun q bytes hnode => absurd (hroot q _ hnode).2 (by simp)
  case regular => exact fun _ e he => absurd he List.not_mem_nil
  case shallow => exact fun e he => absurd he List.not_mem_nil
  case directories => exact fun e he => absurd he List.not_mem_nil

/-! ## The order of the list -/

/-- In a sorted list no entry stands behind what stands below it. -/
theorem not_below_of_notBehind {collateKeyForFilename : CString → CString} {e e' : TreeEntry}
    (hparents : ParentsFirst collateKeyForFilename) (hnotBehind : NotBehind collateKeyForFilename e.metaData e'.metaData)
    (hne : e.path ≠ e'.path) : ¬ e'.path <+: e.path := by
  rintro ⟨more, hmore⟩
  obtain ⟨child, hchild, hchildBytes⟩ := Option.map_eq_some_iff.mp e.named
  obtain ⟨parent, hparent, hparentBytes⟩ := Option.map_eq_some_iff.mp e'.named
  rcases more with _ | ⟨name, more⟩
  · rw [List.append_nil] at hmore
    exact hne hmore.symm
  · have hbytes : child.bytes = parent.bytes ++ 47 :: (name ++ pathText more) := by
      rw [hchildBytes, hparentBytes, ← hmore]
      simp [pathText]
    have hlt := (strcmp_spec _ _).2.mp (hparents parent child _ hbytes)
    have hle := octets_le_of_notBehind hnotBehind
    simp only [nameKey, hchild, hparent, Option.map_some, Option.getD_some] at hle
    exact absurd hle (not_le_of_gt hlt)

/-- Entries in the order of a sorted list: none stands behind what stands below it. -/
theorem pairwise_not_below {collateKeyForFilename : CString → CString} {list : List ServerMetaData} {entries : List TreeEntry}
    (hparents : ParentsFirst collateKeyForFilename) (htree : IsTree entries)
    (hlist : list.map ServerMetaData.metaData = entries.map fun e => some e.metaData)
    (hsorted : list.Pairwise fun sa sb => compareFilenames collateKeyForFilename sa sb ≤ 0) :
    entries.Pairwise fun e e' => ¬ e'.path <+: e.path := by
  have hnotBehind : entries.Pairwise fun e e' => NotBehind collateKeyForFilename e.metaData e'.metaData := by
    have hmap : (list.map ServerMetaData.metaData).Pairwise fun a b =>
        ∀ metaA metaB, a = some metaA → b = some metaB → NotBehind collateKeyForFilename metaA metaB := by
      refine List.pairwise_map.mpr (hsorted.imp fun {sa sb} hle metaA metaB ha hb => compareMetaData_le_zero.mp ?_)
      unfold compareFilenames at hle
      rwa [ha, hb] at hle
    rw [hlist, List.pairwise_map] at hmap
    exact hmap.imp fun h => h _ _ rfl rfl
  exact (hnotBehind.and htree.distinct).imp fun h => not_below_of_notBehind hparents h.1 h.2

/-! ## The whole list -/

/-- A directory is not restored: a file stands in its place, or above it. -/
theorem not_isRestored_directory (htree : IsTree entries) (hleads : LeadsTo pathRules fs dest place k)
    (hall : Restored resStruct fs place entries entries) (he : e ∈ entries)
    (htype : e.metaData.fileType = G_FILE_TYPE_DIRECTORY) : ¬ IsRestored resStruct dest fs e := by
  intro hrestored
  have hnode : e.node resStruct = .dir := if_pos htype
  rw [IsRestored, lookup_entry htree (fun _ he' => he') he hleads hall, hnode] at hrestored
  obtain ⟨q, bytes, hbegins, hfile⟩ := hall.directories e he htype
  exact fs.not_dir_of_file hbegins hfile hrestored

section

variable (hparents : resStruct.opt.parents = true) (hversions : resStruct.opt.allVersions = false)
  (hcurrent : ∀ name ∈ currentDir, pathRules.Ordinary name) (htree : IsTree entries)

include hparents hversions hcurrent htree

/-- One entry that no earlier one stands at or below is restored. -/
theorem restored_step (hdone : ∀ e' ∈ done, e' ∈ entries) (he : e ∈ entries) (hbefore : ∀ e' ∈ done, ¬ e.path <+: e'.path)
    (hleads : LeadsTo pathRules fs (destinationFile currentDir resStruct fs) place k)
    (h : Restored resStruct fs place done entries) :
    ∃ fs', createFile currentDir transformDateToString resStruct fs e.metaData = some fs' ∧ Kept fs fs' ∧
      Restored resStruct fs' place (done ++ [e]) entries ∧ chosenFile currentDir transformDateToString resStruct fs e.metaData =
        some (destinationFile currentDir resStruct fs ++ e.path) := by
  -- below the destination stands only what stands at or above an entry that was restored
  have hfree : fs.node (place ++ e.path) = none := by
    by_contra hnode
    rcases h.only e.path hnode with hroot | ⟨e', he', hbegins⟩
    · exact e.nonempty hroot
    · exact hbefore e' he' hbegins
  have hlookup : lookup pathRules fs (destinationFile currentDir resStruct fs ++ e.path) = none :=
    (lookup_entry htree hdone he hleads h).trans hfree
  have hchanges : Changes resStruct fs (restoredFiles resStruct (destinationFile currentDir resStruct fs) fs e) place e :=
    changes_restoredFiles hleads (noLink_above htree hdone he h) hfree
  obtain ⟨hchosen, hcreated⟩ := createFile_eq hparents hversions hcurrent hleads e hlookup
  exact ⟨_, hcreated, hchanges.kept, h.step htree hdone he hchanges, hchosen⟩

/-- From where some of the entries were restored all others are, each at its full path. -/
theorem restored_run {todo : List TreeEntry} {list : List ServerMetaData}
    (horder : entries.Pairwise fun e e' => ¬ e'.path <+: e.path) (hentries : entries = done ++ todo)
    (hlist : list.map ServerMetaData.metaData = todo.map fun e => some e.metaData)
    (hgiven : ∀ whereDir, resStruct.opt.whereDir = some whereDir → gFileTestIsDir fs currentDir whereDir.bytes = true)
    (hleads : LeadsTo pathRules fs (destinationFile currentDir resStruct fs) place k)
    (h : Restored resStruct fs place done entries) :
    ∃ final, restoreListOfSmeta currentDir transformDateToString resStruct fs list = some final ∧ Kept fs final ∧
      Restored resStruct final place entries entries ∧
      ∀ i e, todo[i]? = some e → CreatedAtPath currentDir transformDateToString resStruct fs (list.take i) e := by
  induction todo generalizing fs done list with
  | nil =>
    obtain rfl : list = [] := List.map_eq_nil_iff.mp hlist
    rw [List.append_nil] at hentries
    subst hentries
    exact ⟨fs, rfl, Kept.refl fs, h, fun i e he => by simp at he⟩
  | cons e todo ih =>
    obtain ⟨elem, rest, rfl, helem, hrest⟩ := List.map_eq_cons_iff.mp hlist
    have hdone : ∀ e' ∈ done, e' ∈ entries := fun e' he' => by
      rw [hentries]
      exact List.mem_append_left _ he'
    have he : e ∈ entries := by
      rw [hentries]
      exact List.mem_append_right _ List.mem_cons_self
    have hbefore : ∀ e' ∈ done, ¬ e.path <+: e'.path := fun e' he' => by
      rw [hentries] at horder
      exact (List.pairwise_append.mp horder).2.2 e' he' e List.mem_cons_self
    obtain ⟨fs', hcreated, hkept, hrestored, hchosen⟩ :=
      restored_step hparents hversions hcurrent htree hdone he hbefore hleads h
    obtain ⟨hgiven', hdestination⟩ := destination_of_kept hgiven hkept
    have hsame : destinationFile currentDir resStruct fs' = destinationFile currentDir resStruct fs := by
      rw [destinationFile, destinationFile, hdestination]
    obtain ⟨final, hfinal, hkept', hall, hpaths⟩ := ih (by rw [hentries, List.append_cons]) hrest hgiven'
      (by rw [hsame]; exact hleads.of_kept hkept) hrestored
    have hone : restoreOneFile currentDir transformDateToString resStruct fs elem = some fs' := by
      unfold restoreOneFile
      rw [helem]
      exact hcreated
    have hbind : ∀ l, restoreListOfSmeta currentDir transformDateToString resStruct fs (elem :: l) =
        restoreListOfSmeta currentDir transformDateToString resStruct fs' l := fun l => by rw [restoreListOfSmeta, hone]; rfl
    refine ⟨final, by rw [hbind]; exact hfinal, hkept.trans hkept', hall, fun i e' he' => ?_⟩
    rcases i with _ | i
    · obtain rfl : e = e' := Option.some.inj he'
      exact ⟨fs, rfl, hchosen⟩
    · obtain ⟨fs₁, hfs₁, hchosen₁⟩ := hpaths i e' he'
      exact ⟨fs₁, by rw [List.take_succ_cons, hbind]; exact hfs₁, by rw [hchosen₁, hsame]⟩

/-- A link that is restored when there is no other entry stands directly in the destination. -/
theorem shallow_of_alone (hdest : EmptyDestination currentDir resStruct fs place k) (he : e ∈ entries)
    (htype : e.metaData.fileType = G_FILE_TYPE_SYMBOLIC_LINK) {alone : LocalFiles}
    (halone : restoreListOfSmeta currentDir transformDateToString resStruct fs [⟨none, false, some e.metaData⟩] = some alone)
    (hrestored : IsRestored resStruct (destinationFile currentDir resStruct fs) alone e) : above e = [] := by
  by_contra hdeep
  have hnothing : Restored resStruct fs place [] entries := restored_nil hdest.leads.dir hdest.empty
  have hnone : ∀ e' ∈ ([] : List TreeEntry), e' ∈ entries := fun e' he' => absurd he' List.not_mem_nil
  have hlookup := lookup_entry htree hnone he hdest.leads hnothing
  have hlinks := noLink_above htree hnone he hnothing
  have hfree : ∀ q, q ≠ [] → fs.node (place ++ q) = none := fun q hq => by
    by_contra hnode
    rcases hnothing.only q hnode with hroot | ⟨e', he', -⟩
    · exact hq hroot
    · exact absurd he' List.not_mem_nil
  have hmissing : fs.node (place ++ above e) ≠ some .dir := by
    rw [hfree _ hdeep]
    exact (Option.some_ne_none _).symm
  have hcreated : restoreOneFile currentDir transformDateToString resStruct fs ⟨none, false, some e.metaData⟩ =
      some (restoredFiles resStruct (destinationFile currentDir resStruct fs) fs e) :=
    (createFile_eq hparents hversions hcurrent hdest.leads e (hlookup.trans (hfree _ e.nonempty))).2
  rw [restoreListOfSmeta, hcreated, restoredFiles_link_eq htype hdest.leads hlinks hmissing] at halone
  obtain rfl : fs = alone := Option.some.inj halone
  rw [IsRestored, hlookup, hfree _ e.nonempty] at hrestored
  exact absurd hrestored.symm (Option.some_ne_none _)

end

/-! ## All versions -/

/-- The names that are tried for an entry when all versions are asked for name files below a directory with its date. -/
theorem gFileNewForPath_stamped (hparents : resStruct.opt.parents = true) (hversions : resStruct.opt.allVersions = true)
    (e : TreeEntry) (hdate : ∀ date ∈ transformDateToString e.metaData.mtime, (47 : UInt8) ∉ date.bytes) (i : Nat) :
    ∃ stamp, FileName stamp ∧
      gFileNewForPath currentDir (candidateFilename currentDir transformDateToString resStruct fs e.metaData i) =
        destinationFile currentDir resStruct fs ++ stamp :: e.path := by
  have hday : (47 : UInt8) ∉ (theDateOf transformDateToString resStruct e.metaData).getD (str "(null)") := by
    rw [theDateOf, if_pos hversions]
    rcases hd : transformDateToString e.metaData.mtime with _ | date
    · decide
    · exact hdate date hd
  have hunderscore : str "_" = [95] := by decide
  have hdash : str "-" = [45] := by decide
  obtain ⟨stamp, hclear, hmark, hcandidate⟩ : ∃ stamp, (47 : UInt8) ∉ stamp ∧ (95 : UInt8) ∈ stamp ∧
      candidateName resStruct.opt.allVersions (basenameOf resStruct e.metaData)
        (newnameOf transformDateToString resStruct e.metaData) (theDateOf transformDateToString resStruct e.metaData) i =
          some (stamp ++ pathText e.path) := by
    rcases i with _ | i
    · rw [candidateName, newnameOf, if_pos hversions, basenameOf_eq hparents]
      exact ⟨_, by simp [hday, hunderscore], by simp [hunderscore], rfl⟩
    · have hnumber : (47 : UInt8) ∉ Decimal.printInt (UInt32.ofNat i).toInt32.toInt := Decimal.not_mem_printInt (by decide)
      rw [candidateName, basenameOf_eq hparents]
      generalize Decimal.printInt (UInt32.ofNat i).toInt32.toInt = number at hnumber
      exact ⟨_, by simp [hday, hunderscore, hdash, hnumber], by simp [hunderscore], if_pos hversions⟩
  have hstamp : FileName stamp := by
    have h := fileName_behind hclear (Or.inr hmark) (List.not_mem_nil (a := 47))
    rwa [List.append_nil] at h
  refine ⟨stamp, hstamp, ?_⟩
  unfold candidateFilename
  rw [hcandidate, Option.toList_some, gFileNewForPath_pair currentDir (destination_ne_nil currentDir resStruct fs),
    components_append_pathText stamp e.names, Paths.components_name hstamp.noSeparator hstamp.nonempty]
  exact @resolve_append _ [] _ (List.forall_mem_cons.mpr ⟨hstamp, e.names⟩)

/-- So no entry is created at its path. -/
theorem not_createdAtPath (hparents : resStruct.opt.parents = true) (hversions : resStruct.opt.allVersions = true)
    (hgiven : ∀ whereDir, resStruct.opt.whereDir = some whereDir → gFileTestIsDir fs currentDir whereDir.bytes = true)
    (e : TreeEntry) (hdate : ∀ date ∈ transformDateToString e.metaData.mtime, (47 : UInt8) ∉ date.bytes)
    {before : List ServerMetaData} : ¬CreatedAtPath currentDir transformDateToString resStruct fs before e := by
  rintro ⟨fs', hbefore, hchosen⟩
  have hsame : destinationFile currentDir resStruct fs' = destinationFile currentDir resStruct fs := by
    rw [destinationFile, (destination_of_kept hgiven (kept_restoreListOfSmeta hbefore)).2]
    rfl
  obtain ⟨unique, hunique, hfile⟩ := Option.map_eq_some_iff.mp hchosen
  obtain ⟨chosen, hfirst, rfl⟩ := Option.map_eq_some_iff.mp hunique
  obtain ⟨j, -, rfl, -⟩ := firstFreeName_eq_some_iff.mp hfirst
  obtain ⟨stamp, -, hstamped⟩ := @gFileNewForPath_stamped currentDir transformDateToString resStruct fs' hparents hversions e hdate (0 + j)
  have hlength := congrArg List.length (hstamped.symm.trans hfile)
  rw [hsame, List.length_append, List.length_append, List.length_cons] at hlength
  omega

/-- Below a directory that is missing a link is not made. -/
theorem createFile_stampedLink (hparents : resStruct.opt.parents = true) (hversions : resStruct.opt.allVersions = true)
    (hdest : EmptyDestination currentDir resStruct fs place k) {e : TreeEntry}
    (htype : e.metaData.fileType = G_FILE_TYPE_SYMBOLIC_LINK)
    (hdate : ∀ date ∈ transformDateToString e.metaData.mtime, (47 : UInt8) ∉ date.bytes) :
    createFile currentDir transformDateToString resStruct fs e.metaData = some fs := by
  obtain ⟨name, hpath⟩ := above_append e
  obtain ⟨stamp, hstamp, hfile⟩ := @gFileNewForPath_stamped currentDir transformDateToString resStruct fs hparents hversions e hdate 0
  have hsplit : stamp :: e.path = (stamp :: above e) ++ [name] := by rw [List.cons_append, ← hpath]
  have hnames : ∀ n ∈ stamp :: above e, pathRules.Ordinary n :=
    List.forall_mem_cons.mpr ⟨⟨hstamp.notHere, hstamp.notParent⟩, ordinary_above e⟩
  have hmissing : ∀ rest, fs.node (place ++ stamp :: rest) = none := by
    intro rest
    rw [List.append_cons]
    rcases eq_or_ne rest [] with rfl | hne
    · rw [List.append_nil]
      exact hdest.empty stamp
    · exact fs.node_below (by rw [hdest.empty]; exact (Option.some_ne_none _).symm) hne
  have hlinks : NoLink fs place (stamp :: above e) := by
    intro part target hpart hlink
    rcases part with _ | ⟨first, part⟩
    · rw [List.append_nil, hdest.leads.dir] at hlink
      cases hlink
    · obtain ⟨rfl, -⟩ := List.cons_prefix_cons.mp hpart
      rw [hmissing] at hlink
      cases hlink
  have hfree : lookup pathRules fs (firstFile currentDir transformDateToString resStruct fs e.metaData) = none := by
    rw [firstFile, hfile, hsplit, hdest.leads.lookup_below hnames hlinks, ← hsplit, hmissing]
  rw [(createFile_of_free hfree).2, createAt_link htype, hfile, hsplit, hdest.leads.make_eq hnames hlinks (Or.inl ?_)]
  rw [hmissing]
  exact (Option.some_ne_none _).symm

/-- Nothing is made of a list of links. -/
theorem restoreListOfSmeta_stampedLinks (hparents : resStruct.opt.parents = true) (hversions : resStruct.opt.allVersions = true)
    (hdest : EmptyDestination currentDir resStruct fs place k)
    (hdate : ∀ mtime, ∀ date ∈ transformDateToString mtime, (47 : UInt8) ∉ date.bytes) {list : List ServerMetaData}
    (hlist : list.map ServerMetaData.metaData = entries.map fun e => some e.metaData)
    (hlinks : ∀ e ∈ entries, e.metaData.fileType = G_FILE_TYPE_SYMBOLIC_LINK) :
    restoreListOfSmeta currentDir transformDateToString resStruct fs list = some fs := by
  induction entries generalizing list with
  | nil =>
    obtain rfl : list = [] := List.map_eq_nil_iff.mp hlist
    rfl
  | cons e entries ih =>
    obtain ⟨elem, rest, rfl, helem, hrest⟩ := List.map_eq_cons_iff.mp hlist
    obtain ⟨hlink, hlinks⟩ := List.forall_mem_cons.mp hlinks
    have hone : restoreOneFile currentDir transformDateToString resStruct fs elem = some fs := by
      unfold restoreOneFile
      rw [helem]
      exact createFile_stampedLink hparents hversions hdest hlink (hdate _)
    rw [restoreListOfSmeta, hone]
    exact ih hrest hlinks

end RestoreTreeAux

open RestoreTreeAux in
/-- A tree is restored exactly when no entry is a directory, and all are links when all versions are asked for: a directory is
restored as a file, and nothing below it is restored after that; and all versions of a file are put below directories with their
dates. -/
theorem restoresTree_iff (collateKeyForFilename : CString → CString) (currentDir : Location)
    (transformDateToString : UInt64 → Option CString) (resStruct : ResStruct) (fs : LocalFiles) (place : Location) (k : Nat)
    (list : List ServerMetaData) (entries : List TreeEntry) (hparents : resStruct.opt.parents = true)
    (hcurrent : ∀ name ∈ currentDir, pathRules.Ordinary name)
    (hdate : ∀ mtime, ∀ date ∈ transformDateToString mtime, (47 : UInt8) ∉ date.bytes)
    (hdest : EmptyDestination currentDir resStruct fs place k) (htree : IsTree entries)
    (hcollate : ParentsFirst collateKeyForFilename)
    (hlist : list.map ServerMetaData.metaData = entries.map fun e => some e.metaData)
    (hsorted : list.Pairwise fun sa sb => compareFilenames collateKeyForFilename sa sb ≤ 0) :
    (∃ final, restoreListOfSmeta currentDir transformDateToString resStruct fs list = some final ∧
        RestoresTree currentDir transformDateToString resStruct fs final list entries) ↔
      ∀ e ∈ entries, e.metaData.fileType ≠ G_FILE_TYPE_DIRECTORY ∧
        (resStruct.opt.allVersions = true → e.metaData.fileType = G_FILE_TYPE_SYMBOLIC_LINK) := by
  rcases hversions : resStruct.opt.allVersions with _ | _
  · -- the latest versions
    have horder := pairwise_not_below hcollate htree hlist hsorted
    obtain ⟨final, hfinal, hkept, hall, hpaths⟩ := restored_run hparents hversions hcurrent htree horder
      (List.nil_append entries).symm hlist hdest.given hdest.leads (restored_nil hdest.leads.dir hdest.empty)
    have hleads := hdest.leads.of_kept hkept
    have hlookup : ∀ e ∈ entries, lookup pathRules final (destinationFile currentDir resStruct fs ++ e.path) =
        final.node (place ++ e.path) := fun e he => lookup_entry htree (fun _ he' => he') he hleads hall
    refine ⟨?_, fun hnone => ?_⟩
    · rintro ⟨final', hfinal', hrestores⟩ e he
      obtain rfl := Option.some.inj (hfinal.symm.trans hfinal')
      refine ⟨fun htype => ?_, fun h => absurd h (by decide)⟩
      exact not_isRestored_directory htree hleads hall he htype (hrestores.restored e he (by rw [htype]; decide))
    · have hnone' : ∀ e ∈ entries, e.metaData.fileType ≠ G_FILE_TYPE_DIRECTORY := fun e he => (hnone e he).1
      have hregular : ∀ e ∈ entries, e.metaData.fileType ≠ G_FILE_TYPE_SYMBOLIC_LINK →
          IsRestored resStruct (destinationFile currentDir resStruct fs) final e := fun e he hlink => by
        have htype : e.metaData.fileType = G_FILE_TYPE_REGULAR := by
          rcases e.fileType with htype | htype | htype
          · exact htype
          · exact absurd htype (hnone' e he)
          · exact absurd htype hlink
        have hnode : e.node resStruct = .file (content resStruct e) := by
          rw [TreeEntry.node, if_neg (hnone' e he), if_neg hlink]
          rfl
        rw [IsRestored, hlookup e he, hnode]
        exact hall.regular hnone' e he htype
      refine ⟨final, hfinal, fun i e he _ => hpaths i e he, hregular, fun e he hex => ?_⟩
      obtain ⟨alone, halone, hrestored⟩ := hex
      by_cases hlink : e.metaData.fileType = G_FILE_TYPE_SYMBOLIC_LINK
      · rw [IsRestored, hlookup e he]
        exact hall.shallow e he hlink
          (shallow_of_alone hparents hversions hcurrent htree hdest he hlink halone hrestored)
      · exact hregular e he hlink
  · -- all versions
    constructor
    · rintro ⟨final, hfinal, hrestores⟩ e he
      have hlink : e.metaData.fileType = G_FILE_TYPE_SYMBOLIC_LINK := by
        by_contra hno
        obtain ⟨i, hi⟩ := List.mem_iff_getElem?.mp he
        exact not_createdAtPath hparents hversions hdest.given e (hdate _) (hrestores.created i e hi hno)
      exact ⟨by rw [hlink]; decide, fun _ => hlink⟩
    · intro hall
      have hlinks : ∀ e ∈ entries, e.metaData.fileType = G_FILE_TYPE_SYMBOLIC_LINK := fun e he => (hall e he).2 rfl
      have hnothing := restoreListOfSmeta_stampedLinks hparents hversions hdest hdate hlist hlinks
      refine ⟨fs, hnothing, fun i e hi hno => absurd (hlinks e (List.mem_of_getElem? hi)) hno,
        fun e he hno => absurd (hlinks e he) hno, fun e he hex => ?_⟩
      obtain ⟨alone, halone, hrestored⟩ := hex
      have halist : [⟨none, false, some e.metaData⟩].map ServerMetaData.metaData = [e].map fun e => some e.metaData := rfl
      have hone := restoreListOfSmeta_stampedLinks hparents hversions hdest hdate halist
        (List.forall_mem_singleton.mpr (hlinks e he))
      obtain rfl := Option.some.inj (hone.symm.trans halone)
      exact hrestored

/-! ## Two trees -/

/-- An empty directory at the root, to restore into. -/
def restoreDirectory : LocalFiles where
  node := fun p => if p = [] ∨ p = [str "restore"] then some .dir else none
  root := if_pos (Or.inl rfl)
  inDir := by
    intro place name h
    have hplace : place ++ [name] = [] ∨ place ++ [name] = [str "restore"] := by_contra fun hnot => h (if_neg hnot)
    rcases hplace with hnil | hone
    · simp at hnil
    · have hsplit : place ++ [name] = [] ++ [str "restore"] := hone
      exact if_pos (Or.inl (List.append_inj' hsplit rfl).1)

/-- The directory is given, and everything else is as it is when a tree is restored. -/
def intoRestoreDirectory : ResStruct := ⟨⟨some (CString.lit "/restore"), true, false⟩, fun _ => none⟩

theorem emptyDestination_restoreDirectory :
    EmptyDestination [] intoRestoreDirectory restoreDirectory [str "restore"] pathRules.maxLinks where
  given := by
    intro whereDir hwhere
    rw [← Option.some.inj hwhere]
    decide +kernel
  leads := ⟨by decide +kernel, by decide⟩
  empty := fun name => by simp [restoreDirectory]

/-- An empty file in a directory. -/
def savedFile : MetaData :=
  { newMetaData with fileType := G_FILE_TYPE_REGULAR, name := some (CString.lit "/a/b"), link := some (CString.lit "") }

/-- The directory. -/
def savedDirectory : MetaData :=
  { newMetaData with fileType := G_FILE_TYPE_DIRECTORY, name := some (CString.lit "/a"), link := some (CString.lit "") }

/-- A link to the file. -/
def savedLink : MetaData :=
  { newMetaData with fileType := G_FILE_TYPE_SYMBOLIC_LINK, name := some (CString.lit "/c"), link := some (CString.lit "/a/b") }

def fileEntry : TreeEntry where
  metaData := savedFile
  path := [str "a", str "b"]
  nonempty := List.cons_ne_nil _ _
  names := by decide
  named := rfl
  fileType := Or.inl rfl
  link := rfl

def directoryEntry : TreeEntry where
  metaData := savedDirectory
  path := [str "a"]
  nonempty := List.cons_ne_nil _ _
  names := by decide
  named := rfl
  fileType := Or.inr (Or.inl rfl)
  link := rfl

def linkEntry : TreeEntry where
  metaData := savedLink
  path := [str "c"]
  nonempty := List.cons_ne_nil _ _
  names := by decide
  named := rfl
  fileType := Or.inr (Or.inr rfl)
  link := ⟨_, rfl, by decide⟩

/-- Names are compared as they are. -/
theorem parentsFirst_id : ParentsFirst id := by
  intro parent child rest hchild
  have hfirst : ∀ text : Bytes, strcmp text (text ++ 47 :: rest) < 0 := fun text => by
    induction text with
    | nil => exact Int.negSucc_lt_zero 0
    | cons byte text ih =>
      rw [List.cons_append, strcmp, if_pos rfl]
      exact ih
  rw [id, id, hchild]
  exact hfirst parent.bytes

theorem fileAndLink_restored :
    ∃ final, restoreListOfSmeta [] (fun _ => none) intoRestoreDirectory restoreDirectory
        [⟨none, false, some savedFile⟩, ⟨none, false, some savedLink⟩] = some final ∧
      RestoresTree [] (fun _ => none) intoRestoreDirectory restoreDirectory final
        [⟨none, false, some savedFile⟩, ⟨none, false, some savedLink⟩] [fileEntry, linkEntry] :=
  (restoresTree_iff id [] (fun _ => none) intoRestoreDirectory restoreDirectory [str "restore"] pathRules.maxLinks
    [⟨none, false, some savedFile⟩, ⟨none, false, some savedLink⟩] [fileEntry, linkEntry] rfl
    (fun _ hname => absurd hname List.not_mem_nil) (fun _ date hdate => absurd hdate (Option.not_mem_none date))
    emptyDestination_restoreDirectory ⟨by decide, by decide⟩ parentsFirst_id rfl (by decide)).mpr
      (List.forall_mem_cons.mpr ⟨by decide, List.forall_mem_singleton.mpr (by decide)⟩)

/-- A directory and the file in it: the directory is restored as a file, and the file is left out. -/
theorem fileInDirectory_lost :
    EmptyDestination [] intoRestoreDirectory restoreDirectory [str "restore"] pathRules.maxLinks ∧
      IsTree [directoryEntry, fileEntry] ∧
      [(⟨none, false, some savedDirectory⟩ : ServerMetaData), ⟨none, false, some savedFile⟩].Pairwise
        (fun sa sb => compareFilenames id sa sb ≤ 0) ∧
      ∃ final, restoreListOfSmeta [] (fun _ => none) intoRestoreDirectory restoreDirectory
          [⟨none, false, some savedDirectory⟩, ⟨none, false, some savedFile⟩] = some final ∧
        lookup pathRules final [str "restore", str "a"] = some (.file []) ∧
        lookup pathRules final [str "restore", str "a", str "b"] = none ∧
        ¬ RestoresTree [] (fun _ => none) intoRestoreDirectory restoreDirectory final
          [⟨none, false, some savedDirectory⟩, ⟨none, false, some savedFile⟩] [directoryEntry, fileEntry] := by
  have hrun : (restoreListOfSmeta [] (fun _ => none) intoRestoreDirectory restoreDirectory
      [⟨none, false, some savedDirectory⟩, ⟨none, false, some savedFile⟩]).any (fun final =>
        decide (lookup pathRules final [str "restore", str "a"] = some (.file []) ∧
          lookup pathRules final [str "restore", str "a", str "b"] = none)) = true := by decide +kernel
  obtain ⟨final, hfinal, hlookups⟩ := (Option.any_eq_true _ _).mp hrun
  obtain ⟨hdirectory, hfile⟩ := of_decide_eq_true hlookups
  have hdestination : destinationFile [] intoRestoreDirectory restoreDirectory = [str "restore"] := by decide +kernel
  refine ⟨emptyDestination_restoreDirectory, ⟨by decide, by decide⟩, by decide, final, hfinal, hdirectory, hfile, fun h => ?_⟩
  have hrestored := h.restored directoryEntry List.mem_cons_self (by decide)
  rw [IsRestored, hdestination] at hrestored
  exact absurd (hdirectory.symm.trans hrestored) (by decide)

end Sauvegarde
