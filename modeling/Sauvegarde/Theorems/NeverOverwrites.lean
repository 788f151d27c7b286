import Sauvegarde.Restore.FreeNames
import Sauvegarde.Theorems.RestoreTree

/-!
# Restoring without overwriting

What the restoring of a list of entries does to the files that are there, when the whole paths are not asked for: the name of an
entry is changed until no file has it, but the program is aborted when the first one is taken.
-/

namespace Sauvegarde

open FileSystem

section

variable (currentDir : Location) (transformDateToString : UInt64 → Option CString) (resStruct : ResStruct)

/-- Entries are restored one after the other, each at a file that did not exist just before: the files, and what there is at the
end. -/
inductive RestoredApart : LocalFiles → List ServerMetaData → List Location → LocalFiles → Prop where
  | done (fs : LocalFiles) : RestoredApart fs [] [] fs
  | skipped {fs final : LocalFiles} {elem : ServerMetaData} {list : List ServerMetaData} {created : List Location} :
      elem.metaData = none → RestoredApart fs list created final → RestoredApart fs (elem :: list) created final
  | created {fs fs' final : LocalFiles} {elem : ServerMetaData} {metaData : MetaData} {list : List ServerMetaData}
      {file : Location} {node : Node Bytes Bytes} {created : List Location} :
      elem.metaData = some metaData →
      chosenFile currentDir transformDateToString resStruct fs metaData = some file →
      lookup pathRules fs file = none →
      createFile currentDir transformDateToString resStruct fs metaData = some fs' →
      restoredNode resStruct metaData = some node →
      lookup pathRules fs' file = some node →
      RestoredApart fs' list created final → RestoredApart fs (elem :: list) (file :: created) final

/-- The restoring ends: each entry is created at a file that did not exist just before, no file is created twice, and what stood
somewhere still stands there. -/
def NeverOverwrites (fs : LocalFiles) (list : List ServerMetaData) : Prop :=
  ∃ created final, restoreListOfSmeta currentDir transformDateToString resStruct fs list = some final ∧
    RestoredApart currentDir transformDateToString resStruct fs list created final ∧ created.Nodup ∧ Kept fs final

/-- A file that does not exist, in a directory that does. -/
def Vacant (fs : LocalFiles) (file : Location) : Prop :=
  lookup pathRules fs file = none ∧ ∃ place k, LeadsTo pathRules fs file.dropLast place k

/-- An entry can be restored: it says whether it is a link, and the first name that is tried for it is free, in a directory that is
there. Only the first names of an entry without a name, which are not freed twice, may be taken. -/
structure CanRestore (fs : LocalFiles) (metaData : MetaData) : Prop where
  link : metaData.link ≠ none
  free : ∃ i ≤ 2 ^ 32, (i = 0 ∨ newnameOf transformDateToString resStruct metaData = none) ∧
    (∀ j < i, fileExists fs currentDir (candidateFilename currentDir transformDateToString resStruct fs metaData j) = true) ∧
    Vacant fs (gFileNewForPath currentDir (candidateFilename currentDir transformDateToString resStruct fs metaData i))

/-- Each entry can be restored where the restoring has come to it. -/
def CanRestoreAll : LocalFiles → List ServerMetaData → Prop
  | _, [] => True
  | fs, elem :: list =>
    (∀ metaData ∈ elem.metaData, CanRestore currentDir transformDateToString resStruct fs metaData) ∧
      ∀ fs' ∈ restoreOneFile currentDir transformDateToString resStruct fs elem, CanRestoreAll fs' list

/-- The directory that files are restored into: that of the options if there is one, and it is there as GIO reads its name. -/
structure CanRestoreInto (fs : LocalFiles) : Prop where
  isDir : ∀ whereDir ∈ resStruct.opt.whereDir, gFileTestIsDir fs currentDir whereDir.bytes = true
  leads : ∃ place k, LeadsTo pathRules fs (gFileNewForPath currentDir (destination currentDir resStruct fs)) place k

/-- The first names of the entries are free, and differ. -/
structure NamesFree (fs : LocalFiles) (list : List MetaData) : Prop where
  free : ∀ file ∈ list.map (firstFile currentDir transformDateToString resStruct fs), lookup pathRules fs file = none
  distinct : (list.map (firstFile currentDir transformDateToString resStruct fs)).Nodup

end

namespace NeverOverwritesAux

variable {currentDir : Location} {transformDateToString : UInt64 → Option CString} {resStruct : ResStruct}
  {fs fs' final : LocalFiles}

/-! ## One entry -/

/-- A link has a text that is not empty, a file one that is. -/
theorem exists_restoredNode {metaData : MetaData} (hlink : metaData.link ≠ none) :
    ∃ node, restoredNode resStruct metaData = some node := by
  unfold restoredNode
  split_ifs
  · exact ⟨_, rfl⟩
  · obtain ⟨link, hsome⟩ := Option.ne_none_iff_exists'.mp hlink
    exact ⟨_, by rw [hsome]; rfl⟩

/-- The file that is chosen for an entry is the first one that does not exist. -/
theorem chosenFile_eq_some_iff {metaData : MetaData} {file : Location} :
    chosenFile currentDir transformDateToString resStruct fs metaData = some file ↔
      ∃ i ≤ 2 ^ 32, gFileNewForPath currentDir (candidateFilename currentDir transformDateToString resStruct fs metaData i) = file ∧
        lookup pathRules fs file = none ∧
        ∀ j < i, fileExists fs currentDir (candidateFilename currentDir transformDateToString resStruct fs metaData j) = true := by
  constructor
  · intro h
    obtain ⟨unique, hunique, rfl⟩ := Option.map_eq_some_iff.mp h
    obtain ⟨chosen, hchosen, rfl⟩ := Option.map_eq_some_iff.mp hunique
    obtain ⟨i, hi, rfl, hfree, hbefore⟩ := firstFreeName_eq_some_iff.mp hchosen
    simp only [Nat.zero_add] at hfree hbefore ⊢
    exact ⟨i, Nat.le_of_lt_succ hi, rfl, fileExists_eq_false_iff.mp hfree, hbefore⟩
  · rintro ⟨i, hi, rfl, hfree, hbefore⟩
    have hchosen : firstFreeName fs currentDir (candidateFilename currentDir transformDateToString resStruct fs metaData)
        (2 ^ 32 + 1) 0 = some (candidateFilename currentDir transformDateToString resStruct fs metaData i) :=
      firstFreeName_eq_some_iff.mpr ⟨i, Nat.lt_succ_of_le hi, by rw [Nat.zero_add], fileExists_eq_false_iff.mpr hfree,
        fun j hj => by rw [Nat.zero_add]; exact hbefore j hj⟩
    exact congrArg (Option.map _) (congrArg (Option.map _) hchosen)

/-- Exactly an entry that can be restored is created, at a file that did not exist. -/
theorem created_iff (hparents : resStruct.opt.parents = false) {metaData : MetaData} :
    (∃ file node fs', chosenFile currentDir transformDateToString resStruct fs metaData = some file ∧
      lookup pathRules fs file = none ∧ createFile currentDir transformDateToString resStruct fs metaData = some fs' ∧
      restoredNode resStruct metaData = some node ∧ lookup pathRules fs' file = some node) ↔
    CanRestore currentDir transformDateToString resStruct fs metaData := by
  constructor
  · rintro ⟨file, node, fs', hchosen, hnone, hcreate, hnode, hthere⟩
    obtain ⟨hkept, unique, hunique, hat⟩ := createFile_eq_some_iff.mp hcreate
    obtain ⟨i, hi, hfile, -, hbefore⟩ := chosenFile_eq_some_iff.mp hchosen
    have hmake : make pathRules fs file node = fs' := by
      rw [createAt_eq hparents, hnode] at hat
      rw [chosenFile, hunique] at hchosen
      rw [← hat, ← Option.some.inj hchosen]
    refine ⟨fun hlink => ?_, i, hi, ?_, hbefore, ?_⟩
    · rw [restoredNode, if_neg (by rw [hlink]; exact (Option.some_ne_none _).symm), hlink] at hnode
      exact absurd hnode.symm (Option.some_ne_none node)
    · -- the name of the caller is freed twice when the first file exists
      by_contra hnot
      rw [not_or] at hnot
      have hexists := hbefore 0 (Nat.pos_of_ne_zero hnot.1)
      refine hkept ⟨hnot.2, fun hmissing => ?_⟩
      rw [fileExists_eq_false_iff.mpr hmissing] at hexists
      exact absurd hexists (by decide)
    · rw [hfile]
      rw [← hmake] at hthere
      exact ⟨hnone, (lookup_make_iff hnone node).mp hthere⟩
  · intro h
    obtain ⟨i, hi, hfirst, hbefore, hnone, hleads⟩ := h.free
    obtain ⟨node, hnode⟩ := @exists_restoredNode resStruct metaData h.link
    have hchosen := chosenFile_eq_some_iff.mpr ⟨i, hi, rfl, hnone, hbefore⟩
    have honce : ¬FreedTwice currentDir transformDateToString resStruct fs metaData := by
      rintro ⟨hname, htaken⟩
      rcases hfirst with rfl | hunnamed
      · exact htaken hnone
      · exact hname hunnamed
    obtain ⟨unique, hunique, hfile⟩ := Option.map_eq_some_iff.mp hchosen
    have hat : createAt currentDir resStruct fs metaData unique.filename = make pathRules fs
        (gFileNewForPath currentDir (candidateFilename currentDir transformDateToString resStruct fs metaData i)) node := by
      rw [createAt_eq hparents, hnode, hfile]
    exact ⟨_, node, _, hchosen, hnone, createFile_eq_some_iff.mpr ⟨honce, unique, hunique, hat⟩, hnode,
      (lookup_make_iff hnone node).mpr hleads⟩

/-! ## The run -/

/-- What is created in a run did not exist before it, and is created once. -/
theorem RestoredApart.fresh {list : List ServerMetaData} {created : List Location}
    (h : RestoredApart currentDir transformDateToString resStruct fs list created final) :
    Kept fs final ∧ created.Nodup ∧ ∀ file ∈ created, lookup pathRules fs file = none := by
  induction h with
  | done fs => exact ⟨Kept.refl fs, List.nodup_nil, fun file hfile => absurd hfile List.not_mem_nil⟩
  | skipped _ _ ih => exact ih
  | @created fs fs' final elem metaData list file node created _ _ hnone hcreated _ hthere _ ih =>
    obtain ⟨hrest, hnodup, hfresh⟩ := ih
    have hstep : Kept fs fs' := kept_createFile hcreated
    refine ⟨hstep.trans hrest, List.nodup_cons.mpr ⟨fun hmem => ?_, hnodup⟩,
      List.forall_mem_cons.mpr ⟨hnone, fun other hother => ?_⟩⟩
    · rw [hfresh file hmem] at hthere
      exact absurd hthere (Option.some_ne_none node).symm
    · by_contra hsome
      obtain ⟨before, hbefore⟩ := Option.ne_none_iff_exists'.mp hsome
      have hkept := lookup_of_kept hstep hbefore
      rw [hfresh other hother] at hkept
      exact absurd hkept (Option.some_ne_none before).symm

/-- An entry is restored as its meta data are. -/
theorem restoreOneFile_eq {elem : ServerMetaData} {metaData : MetaData} (hmeta : elem.metaData = some metaData) :
    restoreOneFile currentDir transformDateToString resStruct fs elem =
      createFile currentDir transformDateToString resStruct fs metaData := by
  unfold restoreOneFile
  rw [hmeta]

/-- From any state the entries are restored one after the other while they can be. -/
theorem exists_restoredApart (hparents : resStruct.opt.parents = false) {list : List ServerMetaData}
    (h : CanRestoreAll currentDir transformDateToString resStruct fs list) :
    ∃ created final, restoreListOfSmeta currentDir transformDateToString resStruct fs list = some final ∧
      RestoredApart currentDir transformDateToString resStruct fs list created final := by
  induction list generalizing fs with
  | nil => exact ⟨[], fs, rfl, .done fs⟩
  | cons elem list ih =>
    obtain ⟨hone, hall⟩ := h
    rcases hmeta : elem.metaData with _ | metaData
    · have hskip : restoreOneFile currentDir transformDateToString resStruct fs elem = some fs := by
        unfold restoreOneFile
        rw [hmeta]
      obtain ⟨created, final, hrun, hapart⟩ := ih (hall fs hskip)
      exact ⟨created, final, by rw [restoreListOfSmeta, hskip]; exact hrun, .skipped hmeta hapart⟩
    · obtain ⟨file, node, fs', hchosen, hnone, hcreate, hnode, hthere⟩ := (created_iff hparents).mpr (hone metaData hmeta)
      have hstep : restoreOneFile currentDir transformDateToString resStruct fs elem = some fs' :=
        (restoreOneFile_eq hmeta).trans hcreate
      obtain ⟨created, final, hrun, hapart⟩ := ih (hall fs' hstep)
      exact ⟨file :: created, final, by rw [restoreListOfSmeta, hstep]; exact hrun,
        .created hmeta hchosen hnone hcreate hnode hthere hapart⟩

/-- Entries that were restored one after the other could be. -/
theorem RestoredApart.canRestoreAll (hparents : resStruct.opt.parents = false) {list : List ServerMetaData} {created : List Location}
    (h : RestoredApart currentDir transformDateToString resStruct fs list created final) :
    CanRestoreAll currentDir transformDateToString resStruct fs list := by
  induction h with
  | done fs => trivial
  | @skipped fs final elem list created hmeta _ ih =>
    refine ⟨fun metaData hsome => ?_, fun fs' hfs' => ?_⟩
    · rw [hmeta] at hsome
      exact absurd hsome (Option.not_mem_none metaData)
    · unfold restoreOneFile at hfs'
      rw [hmeta] at hfs'
      obtain rfl := Option.some.inj hfs'
      exact ih
  | @created fs fs' final elem metaData list file node created hmeta hchosen hnone hcreate hnode hthere _ ih =>
    refine ⟨fun metaData' hsome => ?_, fun fs₁ hfs₁ => ?_⟩
    · obtain rfl := Option.some.inj (hmeta.symm.trans hsome)
      exact (created_iff hparents).mp ⟨file, node, fs', hchosen, hnone, hcreate, hnode, hthere⟩
    · rw [restoreOneFile_eq hmeta, hcreate] at hfs₁
      obtain rfl := Option.some.inj hfs₁
      exact ih

/-! ## Names that are free -/

/-- A directory stays one. -/
theorem gFileTestIsDir_of_kept (hkept : Kept fs fs') {path : Bytes} (h : gFileTestIsDir fs currentDir path = true) :
    gFileTestIsDir fs' currentDir path = true := by
  simp only [gFileTestIsDir, Bool.and_eq_true, Option.any_eq_true] at h ⊢
  obtain ⟨hne, ⟨place, k⟩, hwalk, hdir⟩ := h
  exact ⟨hne, (place, k), walk_of_kept hkept hwalk, isDir_iff.mpr (hkept _ _ (isDir_iff.mp hdir))⟩

/-- Files are still restored into the same directory when something was created. -/
theorem destination_of_canRestoreInto (h : CanRestoreInto currentDir resStruct fs) (hkept : Kept fs fs') :
    destination currentDir resStruct fs' = destination currentDir resStruct fs := by
  unfold destination
  rcases hwhere : resStruct.opt.whereDir with _ | whereDir
  · rfl
  · have hdir := h.isDir whereDir hwhere
    simp only [hdir, gFileTestIsDir_of_kept hkept hdir]

theorem canRestoreInto_of_kept (h : CanRestoreInto currentDir resStruct fs) (hkept : Kept fs fs') :
    CanRestoreInto currentDir resStruct fs' := by
  obtain ⟨place, k, hleads⟩ := h.leads
  exact ⟨fun whereDir hwhere => gFileTestIsDir_of_kept hkept (h.isDir whereDir hwhere), place, k,
    destination_of_canRestoreInto h hkept ▸ hleads.of_kept hkept⟩

theorem firstFile_of_kept (h : CanRestoreInto currentDir resStruct fs) (hkept : Kept fs fs') (metaData : MetaData) :
    firstFile currentDir transformDateToString resStruct fs' metaData =
      firstFile currentDir transformDateToString resStruct fs metaData := by
  rw [firstFile, candidateFilename, destination_of_canRestoreInto h hkept]
  rfl

/-- A first file that does not exist has a name in the directory that is restored into. -/
theorem exists_firstFile (hparents : resStruct.opt.parents = false) (hcurrent : ∀ name ∈ currentDir, pathRules.Ordinary name)
    {place : Location} {k : Nat}
    (hleads : LeadsTo pathRules fs (gFileNewForPath currentDir (destination currentDir resStruct fs)) place k) {metaData : MetaData}
    (hdate : ∀ date ∈ transformDateToString metaData.mtime, (47 : UInt8) ∉ date.bytes)
    (hfree : lookup pathRules fs (firstFile currentDir transformDateToString resStruct fs metaData) = none) :
    ∃ name, firstFile currentDir transformDateToString resStruct fs metaData =
      gFileNewForPath currentDir (destination currentDir resStruct fs) ++ ([] ++ [name]) := by
  rcases @namesFile_candidateFilename currentDir transformDateToString resStruct fs hparents metaData hdate 0 with
    ⟨name, -, hfile⟩ | hpart
  · exact ⟨name, hfile⟩
  · -- the destination and its parent are there
    exact absurd hfree (lookup_of_part (ordinary_gFileNewForPath hcurrent _)
      (by rw [hleads.walked]; exact Option.some_ne_none _) hpart)

/-- A file with another name is still missing when an entry was created. -/
theorem free_of_created (hparents : resStruct.opt.parents = false) (hcurrent : ∀ name ∈ currentDir, pathRules.Ordinary name)
    (hinto : CanRestoreInto currentDir resStruct fs) {metaData metaData' : MetaData}
    (hdate : ∀ mtime, ∀ date ∈ transformDateToString mtime, (47 : UInt8) ∉ date.bytes)
    (hfree : lookup pathRules fs (firstFile currentDir transformDateToString resStruct fs metaData) = none)
    (hfree' : lookup pathRules fs (firstFile currentDir transformDateToString resStruct fs metaData') = none)
    (hne : firstFile currentDir transformDateToString resStruct fs metaData ≠
      firstFile currentDir transformDateToString resStruct fs metaData') (node : Node Bytes Bytes) :
    lookup pathRules (make pathRules fs (firstFile currentDir transformDateToString resStruct fs metaData) node)
      (firstFile currentDir transformDateToString resStruct fs metaData') = none := by
  obtain ⟨place, k, hleads⟩ := hinto.leads
  obtain ⟨name, hname⟩ := exists_firstFile hparents hcurrent hleads (hdate _) hfree
  obtain ⟨name', hname'⟩ := exists_firstFile hparents hcurrent hleads (hdate _) hfree'
  rw [hname, hname'] at hne
  rw [hname] at hfree ⊢
  rw [hname'] at hfree' ⊢
  have hnames : ∀ x ∈ ([] : Location), pathRules.Ordinary x := fun x hx => absurd hx List.not_mem_nil
  have hlinks : ∀ fs₁ : LocalFiles, fs₁.node place = some .dir → NoLink fs₁ place [] := fun fs₁ hdir =>
    noLink_of_dir (by rw [List.append_nil]; exact hdir)
  have hdir : fs.node (place ++ []) = some .dir := by
    rw [List.append_nil]
    exact hleads.dir
  have hlinks₀ := hlinks fs hleads.dir
  rw [hleads.lookup_below hnames hlinks₀] at hfree hfree'
  have hkept : Kept fs (make pathRules fs (gFileNewForPath currentDir (destination currentDir resStruct fs) ++ ([] ++ [name])) node) :=
    kept_make pathRules _ node
  rw [(hleads.of_kept hkept).lookup_below hnames (hlinks _ (hleads.of_kept hkept).dir),
    hleads.node_make hnames hlinks₀ hdir hfree, if_neg fun hsame => hne ?_, hfree']
  exact congrArg _ (List.append_cancel_left hsame).symm

/-- Entries that say whether they are links, with first names that are free and differ, can all be restored. -/
theorem canRestoreAll_of_namesFree (hparents : resStruct.opt.parents = false)
    (hcurrent : ∀ name ∈ currentDir, pathRules.Ordinary name)
    (hdate : ∀ mtime, ∀ date ∈ transformDateToString mtime, (47 : UInt8) ∉ date.bytes) {list : List ServerMetaData} :
    ∀ {fs : LocalFiles}, (∀ elem ∈ list, ∀ metaData ∈ elem.metaData, metaData.link ≠ none) →
      CanRestoreInto currentDir resStruct fs →
      NamesFree currentDir transformDateToString resStruct fs (list.filterMap ServerMetaData.metaData) →
      CanRestoreAll currentDir transformDateToString resStruct fs list := by
  induction list with
  | nil => exact fun _ _ _ => trivial
  | cons elem list ih =>
    intro fs hlinks hinto hnames
    obtain ⟨hlink, hlinks⟩ := List.forall_mem_cons.mp hlinks
    rcases hmeta : elem.metaData with _ | metaData
    · rw [List.filterMap_cons_none hmeta] at hnames
      refine ⟨fun metaData hsome => ?_, fun fs' hfs' => ?_⟩
      · rw [hmeta] at hsome
        exact absurd hsome (Option.not_mem_none metaData)
      · unfold restoreOneFile at hfs'
        rw [hmeta] at hfs'
        obtain rfl := Option.some.inj hfs'
        exact ih hlinks hinto hnames
    · rw [List.filterMap_cons_some hmeta] at hnames
      obtain ⟨hfree, hrest⟩ := List.forall_mem_cons.mp hnames.free
      obtain ⟨hother, hdistinct⟩ := List.nodup_cons.mp hnames.distinct
      obtain ⟨place, k, hleads⟩ := hinto.leads
      obtain ⟨name, hname⟩ := exists_firstFile hparents hcurrent hleads (hdate _) hfree
      have hvacant : Vacant fs (firstFile currentDir transformDateToString resStruct fs metaData) :=
        ⟨hfree, place, k, by rw [hname, List.nil_append, List.dropLast_concat]; exact hleads⟩
      refine ⟨fun metaData' hsome => ?_, fun fs' hfs' => ?_⟩
      · obtain rfl := Option.some.inj (hmeta.symm.trans hsome)
        exact ⟨hlink metaData hmeta, 0, Nat.zero_le _, Or.inl rfl, fun j hj => absurd hj (Nat.not_lt_zero j), hvacant⟩
      · rw [restoreOneFile_eq hmeta, (createFile_of_free hfree).2, createAt_eq hparents] at hfs'
        obtain ⟨node, hnode⟩ := @exists_restoredNode resStruct metaData (hlink metaData hmeta)
        rw [hnode] at hfs'
        have hkept : Kept fs fs' := by
          rw [← Option.some.inj hfs']
          exact kept_make pathRules _ node
        have hsame : firstFile currentDir transformDateToString resStruct fs' =
            firstFile currentDir transformDateToString resStruct fs := funext (firstFile_of_kept hinto hkept)
        refine ih hlinks (canRestoreInto_of_kept hinto hkept) ⟨?_, hsame ▸ hdistinct⟩
        rw [hsame, ← Option.some.inj hfs']
        intro file hfile
        obtain ⟨metaData', -, rfl⟩ := List.mem_map.mp hfile
        exact free_of_created hparents hcurrent hinto hdate hfree (hrest _ hfile) (fun heq => hother (heq ▸ hfile)) node

end NeverOverwritesAux

open NeverOverwritesAux

/-- Every entry is created at a file that did not exist, no file is created twice, and everything that was there is unchanged,
exactly when each entry can be restored where the restoring has come to it. -/
theorem neverOverwrites_iff (currentDir : Location) (transformDateToString : UInt64 → Option CString)
    (resStruct : ResStruct) (hparents : resStruct.opt.parents = false) (fs : LocalFiles) (list : List ServerMetaData) :
    NeverOverwrites currentDir transformDateToString resStruct fs list ↔
      CanRestoreAll currentDir transformDateToString resStruct fs list := by
  constructor
  · rintro ⟨created, final, -, hapart, -, -⟩
    exact RestoredApart.canRestoreAll hparents hapart
  · intro h
    obtain ⟨created, final, hrun, hapart⟩ := exists_restoredApart hparents h
    obtain ⟨hkept, hnodup, -⟩ := RestoredApart.fresh hapart
    exact ⟨created, final, hrun, hapart, hnodup, hkept⟩

/-! ## Versions of a file -/

/-- The directory that is restored into is there. -/
theorem canRestoreInto_restoreDirectory {resStruct : ResStruct} (hwhere : resStruct.opt.whereDir = some (CString.lit "/restore")) :
    CanRestoreInto [] resStruct restoreDirectory where
  isDir := by
    intro whereDir hgiven
    rw [hwhere] at hgiven
    rw [← Option.some.inj hgiven]
    decide +kernel
  leads := by
    have hdest : destination [] resStruct restoreDirectory = str "/restore" := by
      rw [destination, hwhere]
      decide +kernel
    rw [hdest]
    exact ⟨_, _, emptyDestination_restoreDirectory.leads⟩

/-- All versions are restored into a directory. -/
def allVersionsIntoDirectory : ResStruct := ⟨⟨some (CString.lit "/restore"), false, true⟩, fun _ => none⟩

/-- The dates of two evenings. -/
def decemberDate (mtime : UInt64) : Option CString :=
  if mtime = 1482773580 then some (CString.lit "2016-12-26-17-33-00") else some (CString.lit "2016-12-27-17-33-00")

theorem not_mem_decemberDate (mtime : UInt64) : ∀ date ∈ decemberDate mtime, (47 : UInt8) ∉ date.bytes := by
  intro date hdate
  unfold decemberDate at hdate
  split_ifs at hdate
  · rw [← Option.some.inj hdate]
    decide
  · rw [← Option.some.inj hdate]
    decide

/-- A version of a file, and one of a day later. -/
def savedVersion : MetaData := { savedFile with mtime := 1482773580 }

def laterVersion : MetaData := { savedFile with mtime := 1482859980 }

/-- Their names are free, and differ by their dates. -/
theorem namesFree_twoVersions :
    NamesFree [] decemberDate allVersionsIntoDirectory restoreDirectory [savedVersion, laterVersion] := by
  have hfree : ∀ file ∈ [savedVersion, laterVersion].map
      (firstFile [] decemberDate allVersionsIntoDirectory restoreDirectory), lookup pathRules restoreDirectory file = none := by
    decide +kernel
  have hdistinct : ([savedVersion, laterVersion].map
      (firstFile [] decemberDate allVersionsIntoDirectory restoreDirectory)).Nodup := by decide +kernel
  exact ⟨hfree, hdistinct⟩

/-- Two versions of two evenings: each has a name of its own. -/
theorem twoVersions_apart :
    NeverOverwrites [] decemberDate allVersionsIntoDirectory restoreDirectory
      [⟨none, false, some savedVersion⟩, ⟨none, false, some laterVersion⟩] := by
  have hlinks : savedVersion.link ≠ none ∧ laterVersion.link ≠ none := by decide
  refine (neverOverwrites_iff [] decemberDate allVersionsIntoDirectory rfl restoreDirectory _).mpr
    (canRestoreAll_of_namesFree rfl (fun name hname => absurd hname List.not_mem_nil) not_mem_decemberDate ?_
      (canRestoreInto_restoreDirectory rfl) namesFree_twoVersions)
  refine List.forall_mem_cons.mpr ⟨fun metaData hmeta => ?_, List.forall_mem_singleton.mpr fun metaData hmeta => ?_⟩
  · exact Option.some.inj hmeta ▸ hlinks.1
  · exact Option.some.inj hmeta ▸ hlinks.2

/-- Only the latest versions are restored into a directory. -/
def latestIntoDirectory : ResStruct := ⟨⟨some (CString.lit "/restore"), false, false⟩, fun _ => none⟩

/-- Another file. -/
def otherFile : MetaData := { savedFile with name := some (CString.lit "/a/c") }

/-- Two files of one name, and one of another: the program is aborted at the second, and the third is not restored. -/
theorem takenName_aborts :
    restoreListOfSmeta [] decemberDate latestIntoDirectory restoreDirectory
        [⟨none, false, some savedVersion⟩, ⟨none, false, some laterVersion⟩, ⟨none, false, some otherFile⟩] = none ∧
      ¬NeverOverwrites [] decemberDate latestIntoDirectory restoreDirectory
        [⟨none, false, some savedVersion⟩, ⟨none, false, some laterVersion⟩, ⟨none, false, some otherFile⟩] := by
  have hrun : (restoreListOfSmeta [] decemberDate latestIntoDirectory restoreDirectory
      [⟨none, false, some savedVersion⟩, ⟨none, false, some laterVersion⟩, ⟨none, false, some otherFile⟩]).isNone = true := by
    decide +kernel
  rw [Option.isNone_iff_eq_none] at hrun
  refine ⟨hrun, ?_⟩
  rintro ⟨created, final, hfinal, -⟩
  rw [hrun] at hfinal
  exact absurd hfinal.symm (Option.some_ne_none final)

end Sauvegarde
