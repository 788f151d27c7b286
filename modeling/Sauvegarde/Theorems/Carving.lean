import Mathlib.Data.Bool.AllAny
import Mathlib.Data.Set.Finite.Basic
import Sauvegarde.Client.Carving
import Sauvegarde.Lib.Worklist
import Sauvegarde.Theorems.Cached

/-!
# Carving covers the tree

The recursion of the two threads that find the files to save. A directory is carved only after the other thread took its event out of
`save_queue`, so what is still to come is spread over both queues, the enumerator and the program that saves. Seen from far enough
this is a worklist: directories are its jobs, and the entries of a directory its items.
-/

namespace Sauvegarde

namespace CarvingAux

open Worklist (Rules Stock)

/-! ## What stands below a directory -/

section

variable {fs : LocalFiles} {currentDir place : Location} {exclude : CString → Bool} {directory : CString} {e : Entry}

/-- What leads to an entry are directories. -/
theorem dir_on_path (front : List CString) {name : CString} {back : List CString} {last : Bytes}
    {node : FileSystem.Node Bytes Bytes} (hnode : fs.node (place ++ (front ++ name :: back).map CString.bytes ++ [last]) = some node) :
    fs.node (place ++ front.map CString.bytes ++ [name.bytes]) = some .dir := by
  have hsplit : place ++ (front ++ name :: back).map CString.bytes ++ [last] =
      place ++ front.map CString.bytes ++ [name.bytes] ++ (back.map CString.bytes ++ [last]) := by simp
  rw [hsplit] at hnode
  exact fs.dir_of_node (fs.stands hnode) (List.append_ne_nil_of_right_ne_nil _ (List.cons_ne_nil _ _))

/-- An entry below a directory is in it, or below a directory in it that is not excluded. -/
theorem isBelow_iff (hnamed : WellNamed fs) (hopens : gFileEnumerateChildren fs currentDir directory = some place) :
    IsBelow fs currentDir exclude directory e ↔
      (e.directory = directory ∧ ∃ node, fs.node (place ++ [e.name.bytes]) = some node ∧
        e.isDirectory = decide (node = .dir)) ∨
      ∃ name, fs.node (place ++ [CString.bytes name]) = some .dir ∧ exclude (gBuildPath directory name) = false ∧
        IsBelow fs currentDir exclude (gBuildPath directory name) e := by
  constructor
  · rintro ⟨place', path, node, hopens', hdirectory, hnode, htype, hexclude⟩
    obtain rfl : place = place' := Option.some.inj (hopens.symm.trans hopens')
    rcases path with _ | ⟨name, path⟩
    · exact Or.inl ⟨hdirectory, node, by simpa using hnode, htype⟩
    · have hdir : fs.node (place ++ [name.bytes]) = some .dir := by simpa using dir_on_path [] hnode
      refine Or.inr ⟨name, hdir, hexclude [name] (List.prefix_append [name] path) (List.cons_ne_nil _ _), place ++ [name.bytes],
        path, node, gFileEnumerateChildren_gBuildPath hopens (hnamed.fileName hdir) hdir, hdirectory, ?_, htype, ?_⟩
      · simpa using hnode
      · exact fun between hbetween _ =>
          hexclude (name :: between) ((List.prefix_cons_inj name).mpr hbetween) (List.cons_ne_nil _ _)
  · rintro (⟨hdirectory, node, hnode, htype⟩ | ⟨name, hdir, hexcluded, place', path, node, hopens', hdirectory, hnode, htype, hexclude⟩)
    · exact ⟨place, [], node, hopens, hdirectory, by simpa using hnode, htype,
        fun between hbetween hne => absurd (List.prefix_nil.mp hbetween) hne⟩
    · obtain rfl : place ++ [name.bytes] = place' :=
        Option.some.inj ((gFileEnumerateChildren_gBuildPath hopens (hnamed.fileName hdir) hdir).symm.trans hopens')
      refine ⟨place, name :: path, node, hopens, hdirectory, by simpa using hnode, htype, ?_⟩
      intro between hbetween hne
      obtain ⟨first, between, rfl⟩ := List.exists_cons_of_ne_nil hne
      obtain ⟨rfl, hrest⟩ := List.cons_prefix_cons.mp hbetween
      rcases eq_or_ne between [] with rfl | hmore
      · exact hexcluded
      · exact hexclude between hrest hmore

/-- Nothing is below a directory that cannot be listed. -/
theorem not_isBelow (hopens : gFileEnumerateChildren fs currentDir directory = none) :
    ¬ IsBelow fs currentDir exclude directory e := by
  rintro ⟨place, path, node, hopens', -⟩
  rw [hopens] at hopens'
  cases hopens'

/-- The text of a path below a directory stands for what its names lead to from there. -/
theorem gFileNewForPath_pathFrom (hdirectory : directory.bytes ≠ []) {path : List CString}
    (hnames : ∀ name ∈ path, FileName name.bytes) :
    gFileNewForPath currentDir (pathFrom directory path).bytes =
      gFileNewForPath currentDir directory.bytes ++ path.map CString.bytes := by
  unfold pathFrom
  induction path generalizing directory with
  | nil => simp
  | cons name path ih =>
    obtain ⟨hname, hnames⟩ := List.forall_mem_cons.mp hnames
    rw [List.foldl_cons, ih (gBuildPath_ne_nil hdirectory) hnames, gFileNewForPath_gBuildPath currentDir hdirectory hname]
    simp

/-- What is below a directory is named as standing there. -/
theorem isBelow_location (hnamed : WellNamed fs) (h : IsBelow fs currentDir exclude directory e) :
    gFileNewForPath currentDir directory.bytes <+: gFileNewForPath currentDir e.directory.bytes := by
  obtain ⟨place, path, node, hopens, hdirectory, hnode, -⟩ := h
  have hnames : ∀ name ∈ path, FileName name.bytes := by
    intro name hname
    obtain ⟨front, back, rfl⟩ := List.append_of_mem hname
    exact hnamed.fileName (dir_on_path front hnode)
  rw [hdirectory, gFileNewForPath_pathFrom (gFileEnumerateChildren_eq_some.mp hopens).1 hnames]
  exact List.prefix_append _ _

/-- In a finite tree finitely many entries stand below a directory. -/
theorem finite_isBelow (currentDir : Location) (exclude : CString → Bool) (directory : CString)
    (hfinite : {place | fs.node place ≠ none}.Finite) : {e | IsBelow fs currentDir exclude directory e}.Finite := by
  rcases hopens : gFileEnumerateChildren fs currentDir directory with _ | place
  · exact Set.finite_empty.subset fun e he => absurd he (not_isBelow hopens)
  · -- an entry is read off the place where it stands
    refine (hfinite.image fun p => (⟨pathFrom directory ((p.drop place.length).dropLast.map CString.ofBytes),
      CString.ofBytes (p.getLastD []), decide (fs.node p = some .dir)⟩ : Entry)).subset ?_
    rintro ⟨dir, name, isDirectory⟩ ⟨place', path, node, hopens', hdirectory, hnode, htype, -⟩
    obtain rfl : place = place' := Option.some.inj (hopens.symm.trans hopens')
    have htexts : path.map (CString.ofBytes ∘ CString.bytes) = path := by simp [Function.comp_def]
    refine ⟨_, fs.stands hnode, ?_⟩
    simp only at hdirectory hnode htype ⊢
    rw [hnode, htype, hdirectory, List.append_assoc, List.drop_left, List.dropLast_concat, List.map_map, htexts,
      ← List.append_assoc, List.getLastD_concat, CString.ofBytes_bytes]
    simp

end

/-! ## The worklist -/

/-- The entries that an enumerator still gives. -/
def foundEntries : Option (CString × List FileInfo) → List Entry
  | none => []
  | some (directory, infos) => infos.map fun info => (newFileEvent directory info).entry

/-- The directory that an entry leads to, unless it is excluded. -/
def nextDirectory (exclude : CString → Bool) (e : Entry) : Option CString :=
  if e.isDirectory = true ∧ exclude (gBuildPath e.directory e.name) = false then some (gBuildPath e.directory e.name) else none

section

variable (fs : LocalFiles) (currentDir : Location) (exclude : CString → Bool)

/-- Carving as a worklist: a directory yields its entries, and an entry that is a directory leads to that. -/
def carvingRules : Rules CString Entry where
  yields := fun directory items =>
    ∃ enumerator, CarveOneDirectory fs currentDir directory enumerator ∧ items = ↑(foundEntries enumerator)
  leads := nextDirectory exclude

end

section

variable {fs : LocalFiles} {currentDir place : Location} {exclude : CString → Bool} {directory : CString} {e : Entry}

/-- Everything below a directory of a finite tree, each entry once. -/
noncomputable def allBelow (currentDir : Location) (exclude : CString → Bool) (hfinite : {place | fs.node place ≠ none}.Finite)
    (directory : CString) : Multiset Entry :=
  (finite_isBelow currentDir exclude directory hfinite).toFinset.val

variable (hfinite : {place | fs.node place ≠ none}.Finite)

theorem nodup_allBelow : (allBelow currentDir exclude hfinite directory).Nodup := Finset.nodup _

theorem mem_allBelow : e ∈ allBelow currentDir exclude hfinite directory ↔ IsBelow fs currentDir exclude directory e :=
  Set.Finite.mem_toFinset _

/-- What an entry leads to. -/
theorem mem_below {item : Entry} :
    e ∈ (carvingRules fs currentDir exclude).below (allBelow currentDir exclude hfinite) item ↔
      item.isDirectory = true ∧ exclude (gBuildPath item.directory item.name) = false ∧
        IsBelow fs currentDir exclude (gBuildPath item.directory item.name) e := by
  unfold Rules.below carvingRules nextDirectory
  simp only
  split_ifs with h
  · exact (mem_allBelow hfinite).trans ⟨fun hbelow => ⟨h.1, h.2, hbelow⟩, fun hbelow => hbelow.2.2⟩
  · exact ⟨fun hnone => absurd hnone (Multiset.notMem_zero e), fun hbelow => absurd ⟨hbelow.1, hbelow.2.1⟩ h⟩

/-- The entries in a directory, as its enumerator gives them. -/
theorem mem_foundEntries {infos : List FileInfo} (hlists : Lists fs place infos) :
    e ∈ foundEntries (some (directory, infos)) ↔
      e.directory = directory ∧ ∃ node, fs.node (place ++ [e.name.bytes]) = some node ∧ e.isDirectory = decide (node = .dir) := by
  constructor
  · intro he
    obtain ⟨info, hinfo, rfl⟩ := List.mem_map.mp he
    obtain ⟨node, hnode⟩ := Option.ne_none_iff_exists'.mp ((hlists.complete info.name).mp (List.mem_map_of_mem hinfo))
    refine ⟨rfl, node, hnode, decide_eq_decide.mpr ((hlists.types info hinfo).trans ?_)⟩
    rw [hnode, Option.some.injEq]
  · rintro ⟨rfl, node, hnode, htype⟩
    obtain ⟨info, hinfo, hname⟩ := List.mem_map.mp ((hlists.complete e.name).mpr (fs.stands hnode))
    refine List.mem_map.mpr ⟨info, hinfo, ?_⟩
    have hsame := hlists.types info hinfo
    rw [hname, hnode, Option.some.injEq] at hsame
    exact Entry.ext rfl hname ((decide_eq_decide.mpr hsame).trans htype.symm)

/-- The entries in a directory are told apart by their names. -/
theorem nodup_names_foundEntries {infos : List FileInfo} (hlists : Lists fs place infos) :
    ((foundEntries (some (directory, infos))).map Entry.name).Nodup := by
  unfold foundEntries
  rw [List.map_map]
  exact hlists.nodup

/-- What an entry leads to is there once. -/
theorem nodup_below (item : Entry) :
    ((carvingRules fs currentDir exclude).below (allBelow currentDir exclude hfinite) item).Nodup := by
  unfold Rules.below
  cases (carvingRules fs currentDir exclude).leads item with
  | none => exact Multiset.nodup_zero
  | some next => exact nodup_allBelow hfinite

section

variable {infos : List FileInfo} (hnamed : WellNamed fs) (hopens : gFileEnumerateChildren fs currentDir directory = some place)
  (hlists : Lists fs place infos)

include hnamed hopens hlists

/-- What an entry of a directory leads to is named as standing below its name. -/
theorem location_of_below {item : Entry} (hitem : item ∈ foundEntries (some (directory, infos)))
    (he : e ∈ (carvingRules fs currentDir exclude).below (allBelow currentDir exclude hfinite) item) :
    gFileNewForPath currentDir directory.bytes ++ [item.name.bytes] <+: gFileNewForPath currentDir e.directory.bytes := by
  obtain ⟨hin, node, hnode, -⟩ := (mem_foundEntries hlists).mp hitem
  obtain ⟨-, -, hisBelow⟩ := (mem_below hfinite).mp he
  rw [hin] at hisBelow
  rw [← gFileNewForPath_gBuildPath currentDir (gFileEnumerateChildren_eq_some.mp hopens).1 (hnamed.fileName hnode)]
  exact isBelow_location hnamed hisBelow

/-- The entries of a directory and what they lead to are all different. -/
theorem nodup_foundBelow : ((foundEntries (some (directory, infos)) : Multiset Entry) +
    (foundEntries (some (directory, infos)) : Multiset Entry).bind
      ((carvingRules fs currentDir exclude).below (allBelow currentDir exclude hfinite))).Nodup := by
  refine Multiset.nodup_add.mpr ⟨?_, Multiset.nodup_bind.mpr ⟨fun item _ => nodup_below hfinite item, ?_⟩, ?_⟩
  · exact Multiset.coe_nodup.mpr (nodup_names_foundEntries hlists).of_map
  · -- below two entries
    refine ⟨_, rfl, (List.pairwise_map.mp (nodup_names_foundEntries hlists)).imp_of_mem ?_⟩
    intro item item' hitem hitem' hne
    refine Multiset.disjoint_left.mpr fun {e} he he' => hne ?_
    have hfirst := location_of_below hfinite hnamed hopens hlists hitem he
    have hsecond := location_of_below hfinite hnamed hopens hlists hitem' he'
    have hsame := List.prefix_of_prefix_length_le hfirst hsecond (by simp)
    exact CString.ext (by simpa using hsame)
  · -- in the directory and below
    refine Multiset.disjoint_left.mpr fun {e} he he' => ?_
    obtain ⟨item, hitem, he'⟩ := Multiset.mem_bind.mp he'
    have hlength := (location_of_below hfinite hnamed hopens hlists hitem he').length_le
    rw [((mem_foundEntries hlists).mp he).1, List.length_append, List.length_singleton] at hlength
    omega

/-- They are what is below the directory. -/
theorem mem_foundBelow : e ∈ (foundEntries (some (directory, infos)) : Multiset Entry) +
      (foundEntries (some (directory, infos)) : Multiset Entry).bind
        ((carvingRules fs currentDir exclude).below (allBelow currentDir exclude hfinite)) ↔
    IsBelow fs currentDir exclude directory e := by
  rw [isBelow_iff hnamed hopens, Multiset.mem_add, Multiset.mem_coe, mem_foundEntries hlists, Multiset.mem_bind]
  refine or_congr Iff.rfl ⟨?_, ?_⟩
  · rintro ⟨item, hitem, he⟩
    obtain ⟨hin, node, hnode, htype⟩ := (mem_foundEntries hlists).mp hitem
    obtain ⟨hdir, hexclude, hisBelow⟩ := (mem_below hfinite).mp he
    rw [hin] at hexclude hisBelow
    rw [of_decide_eq_true (htype.symm.trans hdir)] at hnode
    exact ⟨item.name, hnode, hexclude, hisBelow⟩
  · rintro ⟨name, hdir, hexclude, hisBelow⟩
    refine ⟨⟨directory, name, true⟩, (mem_foundEntries hlists).mpr ⟨rfl, .dir, hdir, rfl⟩, ?_⟩
    exact (mem_below hfinite).mpr ⟨rfl, hexclude, hisBelow⟩

end

/-- In the end a directory comes to everything below it. -/
theorem totals_carvingRules (hnamed : WellNamed fs) :
    (carvingRules fs currentDir exclude).Totals (allBelow currentDir exclude hfinite) := by
  rintro directory items ⟨enumerator, hcarve, rfl⟩
  unfold CarveOneDirectory at hcarve
  rcases hopens : gFileEnumerateChildren fs currentDir directory with _ | place
  · rw [hopens] at hcarve
    have hnothing : allBelow currentDir exclude hfinite directory = 0 :=
      Multiset.eq_zero_iff_forall_notMem.mpr fun e he => not_isBelow hopens ((mem_allBelow hfinite).mp he)
    rw [hnothing, hcarve]
    rfl
  · rw [hopens] at hcarve
    obtain ⟨infos, hlists, rfl⟩ := hcarve
    refine ((nodup_allBelow hfinite).ext (nodup_foundBelow hfinite hnamed hopens hlists)).mpr fun e => ?_
    exact (mem_allBelow hfinite).trans (mem_foundBelow hfinite hnamed hopens hlists).symm

end

/-! ## What the saving of a file puts into `dir_queue` -/

/-- The program puts nothing into `dir_queue`. -/
abbrev Quiet {α : Type} (p : ClientProg α) : Prop := p.Calls fun op => op.pushedDirectory = none

theorem quiet_postUrl (url : String) (readbuffer : Option Json) (held : List HashData) :
    Quiet (ClientProg.postUrl url readbuffer held) := ⟨rfl, fun _ => trivial⟩

theorem quiet_dbSaveBuffer (url : String) (buffer : Option Json) (held : List HashData) :
    Quiet (ClientProg.dbSaveBuffer url buffer held) := ⟨rfl, fun _ => trivial⟩

theorem quiet_dbSaveMetaData (metaData : MetaData) (onlyMeta : Bool) : Quiet (ClientProg.dbSaveMetaData metaData onlyMeta) :=
  ⟨rfl, fun _ => trivial⟩

theorem quiet_crash {α : Type} : Quiet (ClientProg.crash : ClientProg α) := ⟨rfl, fun answer => answer.elim⟩

theorem quiet_sendMetaDataToServer (main : MainStruct) (metaData : MetaData) (dataSent : Bool) :
    Quiet (sendMetaDataToServer main metaData dataSent) := by
  refine (quiet_postUrl _ _ _).bind fun answer => ?_
  cases answer with
  | none => exact (quiet_dbSaveBuffer _ _ _).bind fun _ => trivial
  | some buffer => trivial

theorem quiet_insertArrayInRootAndSend (array : List Json) (held : List HashData) :
    Quiet (insertArrayInRootAndSend array held) := by
  refine (quiet_postUrl _ _ _).bind fun answer => ?_
  cases answer with
  | none => exact quiet_dbSaveBuffer _ _ _
  | some _ => trivial

theorem quiet_sendAllLoop (limit : Int64) (hashList : List HashData) :
    ∀ hashDataList array bytes, Quiet (sendAllLoop limit hashDataList array bytes hashList) := by
  induction hashList with
  | nil =>
    intro hashDataList array bytes
    unfold sendAllLoop
    split_ifs
    · exact (quiet_insertArrayInRootAndSend _ _).bind fun _ => trivial
    · trivial
  | cons hashData hashList ih =>
    intro hashDataList array bytes
    unfold sendAllLoop
    cases findHashInList hashDataList hashData.hash with
    | none => exact quiet_crash
    | some found =>
      simp only
      split_ifs
      · exact (quiet_insertArrayInRootAndSend _ _).bind fun _ => ih _ _ _
      · exact ih _ _ _

theorem quiet_sendAllDataToServer (main : MainStruct) (hashDataList : List HashData) (answer : Option Json) :
    Quiet (sendAllDataToServer main hashDataList answer) := by
  unfold sendAllDataToServer
  cases answer.bind Json.loads with
  | none => trivial
  | some root =>
    simp only
    split_ifs
    · exact quiet_sendAllLoop _ _ _ _ _
    · trivial

theorem quiet_sendLoop (hashList : List HashData) : ∀ hashDataList, Quiet (sendLoop hashDataList hashList) := by
  induction hashList with
  | nil => exact fun _ => trivial
  | cons hashData hashList ih =>
    intro hashDataList
    unfold sendLoop
    cases findHashInList hashDataList hashData.hash with
    | none => exact quiet_crash
    | some found =>
      refine (quiet_postUrl _ _ _).bind fun answer => ?_
      cases answer with
      | none => exact (quiet_dbSaveBuffer _ _ _).bind fun _ => ih _
      | some _ => exact ih _

theorem quiet_sendDataToServer (hashDataList : List HashData) (answer : Option Json) :
    Quiet (sendDataToServer hashDataList answer) := by
  unfold sendDataToServer
  cases answer.bind Json.loads with
  | none => trivial
  | some root =>
    simp only
    split_ifs
    · exact quiet_sendLoop _ _
    · trivial

theorem quiet_letsSendAllThatNow (main : MainStruct) (hashDataList savedList : List HashData) :
    Quiet (letsSendAllThatNow main hashDataList savedList) := by
  have hhashArray : Quiet (sendHashArrayToServer hashDataList) := by
    unfold sendHashArrayToServer
    split_ifs
    · refine (quiet_postUrl _ _ _).bind fun answer => ?_
      cases answer <;> trivial
    · trivial
  exact hhashArray.bind fun answer => (quiet_sendAllDataToServer main hashDataList answer).bind fun _ => trivial

section

variable (sha256 : Bytes → Hash) (z : Zlib)

theorem quiet_processBlocks (main : MainStruct) (reads : List Bytes) : ∀ hashDataList savedList readBytes,
    Quiet (processBlocks sha256 z main reads hashDataList savedList readBytes) := by
  induction reads with
  | nil => exact fun _ _ _ => trivial
  | cons buffer reads ih =>
    intro hashDataList savedList readBytes
    unfold processBlocks
    simp only
    split_ifs
    · exact (quiet_letsSendAllThatNow _ _ _).bind fun _ => ih _ _ _
    · exact ih _ _ _

theorem quiet_processStream (main : MainStruct) (source : FileSource) : Quiet (processStream sha256 z main source) := by
  unfold processStream
  by_cases hopens : source.opens = true
  · rw [if_pos hopens]
    refine (quiet_processBlocks sha256 z main source.reads [] [] 0).bind ?_
    rintro ⟨hashDataList, savedList, readBytes⟩
    dsimp only
    split
    · trivial
    · split
      · exact (quiet_letsSendAllThatNow _ _ _).bind fun _ => trivial
      · trivial
  · rw [if_neg hopens]
    trivial

theorem quiet_processSmallFileNotInCache (main : MainStruct) (metaData : MetaData) (source : FileSource) :
    Quiet (processSmallFileNotInCache sha256 z main metaData source) := by
  unfold processSmallFileNotInCache
  generalize (if metaData.fileType = G_FILE_TYPE_REGULAR then _ else _ : List HashData) = list
  refine (quiet_sendMetaDataToServer _ _ _).bind fun answer => ?_
  dsimp only [Prog.bind_eq]
  split
  · exact (quiet_sendDataToServer _ _).bind fun _ => quiet_dbSaveMetaData _ _
  · exact (quiet_sendAllDataToServer _ _ _).bind fun _ => quiet_dbSaveMetaData _ _

theorem quiet_processBigFileNotInCache (main : MainStruct) (metaData : MetaData) (source : FileSource) :
    Quiet (processBigFileNotInCache sha256 z main metaData source) := by
  refine (quiet_processStream sha256 z main source).bind fun savedList => ?_
  refine (quiet_sendMetaDataToServer _ _ _).bind fun answer => ?_
  cases answer with
  | none => trivial
  | some _ => exact quiet_dbSaveMetaData _ _

theorem quiet_processFile (main : MainStruct) (metaData : MetaData) (source : FileSource) :
    Quiet (processFile sha256 z main metaData source) := by
  unfold processFile
  split
  · split
    · exact quiet_processSmallFileNotInCache sha256 z main metaData source
    · exact quiet_processBigFileNotInCache sha256 z main metaData source
  · trivial

/-- The directories that are still to be pushed, and the operations that push them in order. -/
def pushRules : Prog.Rules ClientOp ClientRes (List CString) where
  ok := fun _ _ => True
  pre := fun rest op => op.pushedDirectory.toList <+: rest
  next := fun rest op _ => rest.drop op.pushedDirectory.toList.length

/-- The saving of the file of an event pushes the directory that its entry leads to, and no other. -/
theorem wp_saveOneFile (exclude : CString → Bool) (opt : Options) (event : FileEvent) (inCache : Bool) (source : FileSource) :
    (saveOneFile sha256 z (fileOfEvent exclude opt event inCache source)).wp pushRules (fun _ rest => rest = [])
      (nextDirectory exclude event.entry).toList := by
  have hname : event.entry.directory = event.directory ∧ event.entry.name = event.fileinfo.name := ⟨rfl, rfl⟩
  unfold saveOneFile nextDirectory
  rw [hname.1, hname.2]
  by_cases hexclude : exclude (gBuildPath event.directory event.fileinfo.name) = false
  · have hfile : (fileOfEvent exclude opt event inCache source).excluded = false ∧
        (fileOfEvent exclude opt event inCache source).metaData.fileType = event.fileinfo.fileType ∧
        (fileOfEvent exclude opt event inCache source).metaData.name =
          some (gBuildPath event.directory event.fileinfo.name) := by
      simp [fileOfEvent, getMetaDataFromFileinfo, hexclude, getFileAttributes]
    rw [if_pos hfile.1, hfile.2.1, hfile.2.2]
    refine Prog.wp_seq ((quiet_processFile sha256 z _ _ _).wp fun op hquiet => ?_) fun _ rest hrest => ?_
    · simp [pushRules, hquiet]
    · rw [hrest]
      by_cases hdirectory : event.fileinfo.fileType = G_FILE_TYPE_DIRECTORY
      · rw [if_pos hdirectory, if_pos ⟨decide_eq_true hdirectory, hexclude⟩]
        exact ⟨List.prefix_refl _, fun _ _ => rfl⟩
      · rw [if_neg hdirectory, if_neg fun h => hdirectory (of_decide_eq_true h.1)]
        rfl
  · have hfile : (fileOfEvent exclude opt event inCache source).excluded = true := by
      simp [fileOfEvent, getMetaDataFromFileinfo, hexclude]
    rw [if_neg (by simp [hfile]), if_neg fun h => hexclude h.2]
    rfl

end

/-! ## The threads work off the list -/

/-- What the thread that saves files will still push: nothing when it waits. -/
def WillPush : Option (ClientProg Unit) → List CString → Prop
  | none, rest => rest = []
  | some p, rest => p.wp pushRules (fun _ left => left = []) rest

/-- The threads as parties of the worklist, when the second one will still push `rest`. -/
def stockOf (s : Carving) (rest : List CString) : Stock CString Entry where
  waiting := ↑(s.listed ++ s.dirQueue ++ rest)
  found := ↑(foundEntries s.enumerator)
  inHand := ↑(s.saveQueue.map FileEvent.entry)
  handed := ↑(s.pushed.map FileEvent.entry)

section

variable {fs : LocalFiles} {currentDir : Location} {exclude : CString → Bool} {sha256 : Bytes → Hash} {z : Zlib}
  {s s' : Carving} {rest : List CString}

/-- The order of a queue does not matter for the worklist. -/
theorem coe_append_singleton {α : Type} (list : List α) (a : α) : (↑(list ++ [a]) : Multiset α) = ↑(a :: list) :=
  Multiset.coe_eq_coe.mpr (List.perm_append_singleton a list)

/-- A directory is taken from those that wait, and begun. -/
theorem steps_begin {directory : CString} {enumerator : Option (CString × List FileInfo)} {waiting : List CString}
    (hidle : s.enumerator = none) (hcarve : CarveOneDirectory fs currentDir directory enumerator)
    (hwaiting : List.Perm (s.listed ++ s.dirQueue ++ rest) (directory :: waiting)) :
    Worklist.Steps (carvingRules fs currentDir exclude) (stockOf s rest)
      ⟨↑waiting, ↑(foundEntries enumerator), ↑(s.saveQueue.map FileEvent.entry), ↑(s.pushed.map FileEvent.entry)⟩ := by
  have hwaits : (stockOf s rest).waiting = directory ::ₘ ↑waiting := Multiset.coe_eq_coe.mpr hwaiting
  have hbegin : Worklist.Step (carvingRules fs currentDir exclude) (stockOf s rest) _ :=
    Worklist.Step.begin hwaits ⟨enumerator, hcarve, rfl⟩
  have hfound : (stockOf s rest).found = 0 := by rw [stockOf, hidle]; rfl
  rw [hfound, add_zero] at hbegin
  exact Relation.ReflTransGen.single hbegin

/-- A step of a thread is a step of the worklist, or none. -/
theorem stock_step (h : CarvingStep fs currentDir exclude sha256 z s s') (hrest : WillPush s.saving rest) :
    ∃ rest', WillPush s'.saving rest' ∧
      Worklist.Steps (carvingRules fs currentDir exclude) (stockOf s rest) (stockOf s' rest') := by
  cases h with
  | @carveListed directory listed enumerator hidle hlisted hcarve =>
    refine ⟨rest, hrest, steps_begin hidle hcarve ?_⟩
    rw [hlisted]
    exact List.Perm.refl _
  | @nextFile directory fileinfo infos hgives =>
    refine ⟨rest, hrest, Relation.ReflTransGen.single ?_⟩
    have hfound : (stockOf s rest).found =
        (newFileEvent directory fileinfo).entry ::ₘ ↑(foundEntries (some (directory, infos))) := by
      rw [stockOf, hgives]
      rfl
    have hhand : Worklist.Step (carvingRules fs currentDir exclude) (stockOf s rest) _ := Worklist.Step.hand hfound
    simpa [stockOf, coe_append_singleton] using hhand
  | @close directory hgives =>
    refine ⟨rest, hrest, ?_⟩
    have hsame : stockOf s rest = stockOf { s with enumerator := none } rest := by
      rw [stockOf, hgives]
      rfl
    rw [hsame]
  | @carveQueued directory dirQueue enumerator hidle hlisted hqueue hcarve =>
    refine ⟨rest, hrest, steps_begin hidle hcarve ?_⟩
    rw [hlisted, hqueue]
    exact List.Perm.refl _
  | @popEvent event saveQueue inCache source hwaits hqueue =>
    rw [hwaits] at hrest
    refine ⟨(nextDirectory exclude event.entry).toList, wp_saveOneFile sha256 z exclude s.opt event inCache source,
      Relation.ReflTransGen.single ?_⟩
    have hinHand : (stockOf s rest).inHand = event.entry ::ₘ ↑(saveQueue.map FileEvent.entry) := by
      rw [stockOf, hqueue]
      rfl
    have hhandle : Worklist.Step (carvingRules fs currentDir exclude) (stockOf s rest) _ := Worklist.Step.handle hinHand
    have hleads : (carvingRules fs currentDir exclude).leads event.entry = nextDirectory exclude event.entry := rfl
    have hnothing : rest = [] := hrest
    rw [hleads, hnothing] at hhandle
    rw [hnothing]
    cases hnext : nextDirectory exclude event.entry with
    | none => simpa [stockOf, hnext] using hhandle
    | some next => simpa [stockOf, hnext, ← List.append_assoc, coe_append_singleton] using hhandle
  | @operation op k answer hsaving =>
    rw [hsaving] at hrest
    obtain ⟨⟨more, rfl⟩, hleft⟩ := hrest
    refine ⟨more, ?_, ?_⟩
    · have hafter := hleft answer trivial
      have hdrop : pushRules.next (op.pushedDirectory.toList ++ more) op answer = more := List.drop_left
      rwa [hdrop] at hafter
    · have hsame : stockOf s (op.pushedDirectory.toList ++ more) =
          stockOf { s with saving := some (k answer), dirQueue := s.dirQueue ++ op.pushedDirectory.toList } more := by
        simp [stockOf]
      rw [hsame]
  | saved hsaving =>
    rw [hsaving] at hrest
    refine ⟨rest, hrest, ?_⟩
    exact Relation.ReflTransGen.refl

/-- Any interleaving of the threads is a run of the worklist. -/
theorem stock_run (h : CarvingRun fs currentDir exclude sha256 z s s') (hrest : WillPush s.saving rest) :
    ∃ rest', WillPush s'.saving rest' ∧
      Worklist.Steps (carvingRules fs currentDir exclude) (stockOf s rest) (stockOf s' rest') := by
  induction h with
  | refl => exact ⟨rest, hrest, Relation.ReflTransGen.refl⟩
  | tail _ hstep ih =>
    obtain ⟨middle, hmiddle, hsteps⟩ := ih
    obtain ⟨rest', hrest', hmore⟩ := stock_step hstep hmiddle
    exact ⟨rest', hrest', hsteps.trans hmore⟩

open scoped Classical in
/-- An entry is as often below directories as directories have it below them. -/
theorem count_allBelow (hfinite : {place | fs.node place ≠ none}.Finite) (dirnameList : List CString) (e : Entry) :
    ((dirnameList : Multiset CString).bind (allBelow currentDir exclude hfinite)).count e =
      dirnameList.countP fun directory => IsBelow fs currentDir exclude directory e := by
  induction dirnameList with
  | nil => rfl
  | cons directory dirnameList ih =>
    rw [← Multiset.cons_coe, Multiset.cons_bind, Multiset.count_add, ih, List.countP_cons,
      Multiset.count_eq_of_nodup (nodup_allBelow hfinite), add_comm]
    simp only [mem_allBelow, decide_eq_true_eq]

end

end CarvingAux

open CarvingAux

open scoped Classical in
/-- When both queues are empty and both threads wait, every entry was put into `save_queue` once for each listed directory that it is
strictly below without an excluded directory between the two, and nothing else was. -/
theorem carving_covers_tree {fs : LocalFiles} (currentDir : Location) (exclude : CString → Bool) (sha256 : Bytes → Hash) (z : Zlib)
    (opt : Options) (dirnameList : List CString) {s : Carving} (hfinite : {place | fs.node place ≠ none}.Finite)
    (hnamed : WellNamed fs) (hrun : CarvingRun fs currentDir exclude sha256 z (Carving.started opt dirnameList) s)
    (hidle : s.Idle) (e : Entry) :
    (s.pushed.map FileEvent.entry).count e =
      dirnameList.countP fun directory => IsBelow fs currentDir exclude directory e := by
  have hstart : WillPush (Carving.started opt dirnameList).saving [] := rfl
  obtain ⟨rest, hrest, hsteps⟩ := stock_run hrun hstart
  rw [hidle.saving] at hrest
  have hnothing : rest = [] := hrest
  have hbegin : stockOf (Carving.started opt dirnameList) [] = ⟨↑dirnameList, 0, 0, 0⟩ := by
    simp [stockOf, Carving.started, foundEntries]
  rw [hbegin] at hsteps
  have hhanded := hsteps.handed_of_done (totals_carvingRules hfinite hnamed)
    (by simp [stockOf, hidle.listed, hidle.dirQueue, hnothing]) (by simp [stockOf, hidle.enumerator, foundEntries])
    (by simp [stockOf, hidle.saveQueue])
  rw [← count_allBelow hfinite dirnameList e, ← hhanded]
  exact (Multiset.coe_count e _).symm

/-! ## A directory in a directory -/

/-- A directory with an empty directory in it, and the root. -/
def homePlaces : List Location := [[], [str "home"], [str "home", str "docs"]]

/-- These are all there is. -/
def homeFiles : LocalFiles where
  node := fun p => if p ∈ homePlaces then some .dir else none
  root := rfl
  inDir := by
    intro place name h
    have hmem : place ++ [name] ∈ homePlaces := by_contra fun hnot => h (if_neg hnot)
    have hparent : ∀ p ∈ homePlaces, p.dropLast ∈ homePlaces := by decide
    have hplace := hparent _ hmem
    rw [List.dropLast_concat] at hplace
    exact if_pos hplace

/-- What is told of the directory in the directory. -/
def docsInfo : FileInfo :=
  ⟨CString.lit "docs", G_FILE_TYPE_DIRECTORY, 2, none, none, 0, 0, 0, 0, 0, 16877, 4096, none⟩

/-- Nothing is excluded and nothing adapts. -/
def homeOptions : Options := ⟨false, 16384, defaultMain⟩

theorem wellNamed_homeFiles : WellNamed homeFiles := by
  intro place name h
  have hmem : place ++ [name] ∈ homePlaces := by_contra fun hnot => h (if_neg hnot)
  have hlast : ∀ p ∈ homePlaces, p.getLast? ∈ [none, some (str "home"), some (str "docs")] := by decide
  have hname := hlast _ hmem
  rw [List.getLast?_concat] at hname
  have hcases : name = str "home" ∨ name = str "docs" := by simpa using hname
  rcases hcases with rfl | rfl <;> exact ⟨by decide, List.all_iff_forall_prop.mp (by decide)⟩

theorem finite_homeFiles : {place | homeFiles.node place ≠ none}.Finite :=
  (List.finite_toSet homePlaces).subset fun _ hplace => by_contra fun hnot => hplace (if_neg hnot)

/-- What the enumerator of the directory gives. -/
theorem lists_home : Lists homeFiles [str "home"] [docsInfo] where
  nodup := List.nodup_singleton _
  complete := by
    intro name
    have hmem : [str "home"] ++ [name.bytes] ∈ homePlaces ↔ name.bytes = str "docs" := by simp [homePlaces]
    have hdocs : docsInfo.name.bytes = str "docs" := by decide
    have hnode : homeFiles.node ([str "home"] ++ [name.bytes]) ≠ none ↔ [str "home"] ++ [name.bytes] ∈ homePlaces := by
      simp [homeFiles]
    rw [hnode, hmem, ← hdocs, List.map_singleton, List.mem_singleton, CString.ext_iff]
  types := List.forall_mem_singleton.mpr ⟨fun _ => by decide, fun _ => rfl⟩

theorem lists_docs : Lists homeFiles [str "home", str "docs"] [] where
  nodup := List.nodup_nil
  complete := by
    intro name
    simp [homeFiles, homePlaces]
  types := fun _ hinfo => absurd hinfo List.not_mem_nil

/-- The directory that is in the cache is only pushed. -/
theorem saveOneFile_docs (source : FileSource) :
    saveOneFile zeroDigest storingZlib
        (fileOfEvent (fun _ => false) homeOptions (newFileEvent (CString.lit "/home") docsInfo) true source) =
      ClientProg.dirQueuePush (some (gBuildPath (CString.lit "/home") (CString.lit "docs"))) := rfl

/-- The two threads end up with the directory pushed once, and nothing else. -/
theorem carving_covers_home : ∃ s : Carving, s.Idle ∧ s.pushed = [newFileEvent (CString.lit "/home") docsInfo] ∧
    ∀ e, (s.pushed.map FileEvent.entry).count e = [CString.lit "/home"].countP
      (fun directory => @decide (IsBelow homeFiles [] (fun _ => false) directory e) (Classical.propDecidable _)) := by
  have hhome : gFileEnumerateChildren homeFiles [] (CString.lit "/home") = some [str "home"] := by decide +kernel
  have hdocs : gFileEnumerateChildren homeFiles [] (gBuildPath (CString.lit "/home") (CString.lit "docs")) =
      some [str "home", str "docs"] := by decide +kernel
  have hcarveHome : CarveOneDirectory homeFiles [] (CString.lit "/home") (some (CString.lit "/home", [docsInfo])) := by
    unfold CarveOneDirectory
    rw [hhome]
    exact ⟨_, lists_home, rfl⟩
  have hcarveDocs : CarveOneDirectory homeFiles [] (gBuildPath (CString.lit "/home") (CString.lit "docs"))
      (some (gBuildPath (CString.lit "/home") (CString.lit "docs"), [])) := by
    unfold CarveOneDirectory
    rw [hdocs]
    exact ⟨_, lists_docs, rfl⟩
  have hrun : ∃ s, CarvingRun homeFiles [] (fun _ => false) zeroDigest storingZlib
      (Carving.started homeOptions [CString.lit "/home"]) s ∧ s.Idle ∧
        s.pushed = [newFileEvent (CString.lit "/home") docsInfo] := by
    have answer : ClientRes (.dirQueuePush (some (gBuildPath (CString.lit "/home") (CString.lit "docs")))) := ()
    refine ⟨_, .head (.carveListed rfl rfl hcarveHome) (.head (.nextFile rfl) (.head (.close rfl)
      (.head (.popEvent true ⟨false, [], none, by decide⟩ rfl rfl) (.head (.operation answer (congrArg some (saveOneFile_docs _)))
        (.head (.saved rfl) (.head (.carveQueued rfl rfl rfl hcarveDocs) (.head (.close rfl) .refl))))))), ?_, ?_⟩
    · exact ⟨rfl, rfl, rfl, rfl, rfl⟩
    · rfl
  obtain ⟨s, hrun, hidle, hpushed⟩ := hrun
  exact ⟨s, hidle, hpushed, carving_covers_tree [] (fun _ => false) zeroDigest storingZlib homeOptions [CString.lit "/home"]
    finite_homeFiles wellNamed_homeFiles hrun hidle⟩

end Sauvegarde
