import Sauvegarde.Restore.CreateFile

/-!
# Free names

The file that `create_file` chooses for an entry. When the whole paths are not asked for, each of the names that it tries names a
file in the destination, or the destination itself or its parent, which are there.
-/

namespace Sauvegarde

open FileSystem

section

variable (currentDir : Location) (transformDateToString : UInt64 → Option CString) (resStruct : ResStruct)

/-- The `basename` of `create_file`. -/
def basenameOf (metaData : MetaData) : Option Bytes :=
  let name := metaData.name.map CString.bytes
  if resStruct.opt.parents then name else name.map gPathGetBasename

/-- The `the_date` of `create_file`. -/
def theDateOf (metaData : MetaData) : Option Bytes :=
  if resStruct.opt.allVersions then (transformDateToString metaData.mtime).map CString.bytes else none

/-- The `newname` of `create_file`. -/
def newnameOf (metaData : MetaData) : Option Bytes :=
  if resStruct.opt.allVersions then
    some ((theDateOf transformDateToString resStruct metaData).getD (str "(null)") ++ str "_" ++
      (basenameOf resStruct metaData).getD (str "(null)"))
  else basenameOf resStruct metaData

/-- The name that is tried for an entry after `i` others. -/
def candidateFilename (fs : LocalFiles) (metaData : MetaData) (i : Nat) : Bytes :=
  gBuildFilenameOf (destination currentDir resStruct fs :: (candidateName resStruct.opt.allVersions (basenameOf resStruct metaData)
    (newnameOf transformDateToString resStruct metaData) (theDateOf transformDateToString resStruct metaData) i).toList)

/-- What `create_file` gets from `get_unique_filename` for an entry. -/
def uniqueFilename (fs : LocalFiles) (metaData : MetaData) : Option UniqueFilename :=
  getUniqueFilename fs currentDir resStruct.opt.allVersions (basenameOf resStruct metaData) (destination currentDir resStruct fs)
    (newnameOf transformDateToString resStruct metaData) (theDateOf transformDateToString resStruct metaData)

/-- The file that is chosen for an entry. -/
def chosenFile (fs : LocalFiles) (metaData : MetaData) : Option Location :=
  (uniqueFilename currentDir transformDateToString resStruct fs metaData).map fun unique =>
    gFileNewForPath currentDir unique.filename

/-- What `create_file` creates under a name. -/
def createAt (fs : LocalFiles) (metaData : MetaData) (filename : Bytes) : LocalFiles :=
  let file := gFileNewForPath currentDir filename
  if metaData.link = some (CString.lit "") then
    let fs := if resStruct.opt.parents then createDirectory fs currentDir (gPathGetDirname filename) else fs
    gFileReplace fs file
      (restoreDataToStream resStruct.getHashArray metaData.hashDataList (calculateMaxNumberOfHashs metaData.size))
  else makeSymbolicLink fs file metaData.link

/-- The file that is tried first for an entry. -/
def firstFile (fs : LocalFiles) (metaData : MetaData) : Location :=
  gFileNewForPath currentDir (candidateFilename currentDir transformDateToString resStruct fs metaData 0)

/-- The name of an entry is freed twice: there is one, and its file exists. -/
def FreedTwice (fs : LocalFiles) (metaData : MetaData) : Prop :=
  newnameOf transformDateToString resStruct metaData ≠ none ∧
    lookup pathRules fs (firstFile currentDir transformDateToString resStruct fs metaData) ≠ none

instance (fs : LocalFiles) (metaData : MetaData) : Decidable (FreedTwice currentDir transformDateToString resStruct fs metaData) :=
  inferInstanceAs (Decidable (_ ∧ _))

/-- What an entry is restored as: an entry without a text for its link is not created. -/
def restoredNode (metaData : MetaData) : Option (Node Bytes Bytes) :=
  if metaData.link = some (CString.lit "") then
    some (.file
      (restoreDataToStream resStruct.getHashArray metaData.hashDataList (calculateMaxNumberOfHashs metaData.size)))
  else metaData.link.map fun link => .link link.bytes

end

variable {currentDir : Location} {transformDateToString : UInt64 → Option CString} {resStruct : ResStruct} {fs : LocalFiles}

theorem fileExists_eq_false_iff {filename : Bytes} :
    fileExists fs currentDir filename = false ↔ lookup pathRules fs (gFileNewForPath currentDir filename) = none := by
  rw [fileExists, gFileQueryExists, Option.isSome_eq_false_iff, Option.isNone_iff_eq_none]

/-! ## The loop -/

/-- The name that the loop ends with is the first of the candidates that is free. -/
theorem firstFreeName_eq_some_iff {filename : Nat → Bytes} {left : Nat} : ∀ {i : Nat} {chosen : Bytes},
    firstFreeName fs currentDir filename left i = some chosen ↔
      ∃ j, j < left ∧ filename (i + j) = chosen ∧ fileExists fs currentDir chosen = false ∧
        ∀ j' < j, fileExists fs currentDir (filename (i + j')) = true := by
  induction left with
  | zero =>
    intro i chosen
    rw [firstFreeName]
    refine ⟨fun h => absurd h.symm (Option.some_ne_none chosen), ?_⟩
    rintro ⟨j, hj, -⟩
    exact absurd hj (Nat.not_lt_zero j)
  | succ left ih =>
    intro i chosen
    rw [firstFreeName]
    by_cases hfree : fileExists fs currentDir (filename i) = true
    · rw [if_pos hfree, ih]
      constructor
      · rintro ⟨j, hj, hchosen, hnone, hbefore⟩
        refine ⟨j + 1, by omega, by rw [← hchosen, Nat.add_right_comm, Nat.add_assoc], hnone, fun j' hj' => ?_⟩
        rcases j' with _ | j'
        · exact hfree
        · rw [Nat.add_comm j', ← Nat.add_assoc]
          exact hbefore j' (by omega)
      · rintro ⟨j, hj, hchosen, hnone, hbefore⟩
        rcases j with _ | j
        · rw [Nat.add_zero] at hchosen
          rw [hchosen, hnone] at hfree
          exact absurd hfree (by decide)
        · refine ⟨j, by omega, by rw [← hchosen, Nat.add_right_comm, Nat.add_assoc], hnone, fun j' hj' => ?_⟩
          rw [Nat.add_right_comm, Nat.add_assoc]
          exact hbefore (j' + 1) (by omega)
    · rw [if_neg hfree]
      constructor
      · intro h
        obtain rfl := Option.some.inj h
        exact ⟨0, Nat.succ_pos left, rfl, Bool.eq_false_of_not_eq_true hfree, fun j' hj' => absurd hj' (Nat.not_lt_zero j')⟩
      · rintro ⟨j, -, hchosen, -, hbefore⟩
        rcases j with _ | j
        · exact congrArg some hchosen
        · exact absurd (hbefore 0 (Nat.succ_pos j)) hfree

/-! ## What is created -/

theorem createFile_eq_unique (fs : LocalFiles) (metaData : MetaData) :
    createFile currentDir transformDateToString resStruct fs metaData =
      (uniqueFilename currentDir transformDateToString resStruct fs metaData).bind fun unique =>
        if unique.newnameFreed then none else some (createAt currentDir resStruct fs metaData unique.filename) := rfl

/-- A name is freed twice when `get_unique_filename` has freed it. -/
theorem newnameFreed_iff {metaData : MetaData} {unique : UniqueFilename}
    (h : uniqueFilename currentDir transformDateToString resStruct fs metaData = some unique) :
    unique.newnameFreed = true ↔ FreedTwice currentDir transformDateToString resStruct fs metaData := by
  obtain ⟨chosen, -, rfl⟩ := Option.map_eq_some_iff.mp h
  rw [Bool.and_eq_true, Option.isSome_iff_ne_none, fileExists, gFileQueryExists, Option.isSome_iff_ne_none]
  rfl

/-- An entry whose first file does not exist is created there. -/
theorem createFile_of_free {metaData : MetaData}
    (hfree : lookup pathRules fs (firstFile currentDir transformDateToString resStruct fs metaData) = none) :
    chosenFile currentDir transformDateToString resStruct fs metaData =
        some (firstFile currentDir transformDateToString resStruct fs metaData) ∧
      createFile currentDir transformDateToString resStruct fs metaData =
        some (createAt currentDir resStruct fs metaData
          (candidateFilename currentDir transformDateToString resStruct fs metaData 0)) := by
  have hfirst : fileExists fs currentDir (candidateFilename currentDir transformDateToString resStruct fs metaData 0) = false :=
    fileExists_eq_false_iff.mpr hfree
  have hchosen : firstFreeName fs currentDir (candidateFilename currentDir transformDateToString resStruct fs metaData) (2 ^ 32 + 1) 0 =
      some (candidateFilename currentDir transformDateToString resStruct fs metaData 0) :=
    firstFreeName_eq_some_iff.mpr ⟨0, by decide, rfl, hfirst, fun j hj => absurd hj (Nat.not_lt_zero j)⟩
  obtain ⟨unique, hunique, hname⟩ : ∃ unique, uniqueFilename currentDir transformDateToString resStruct fs metaData = some unique ∧
      unique.filename = candidateFilename currentDir transformDateToString resStruct fs metaData 0 :=
    ⟨_, congrArg (Option.map _) hchosen, rfl⟩
  have hkept : ¬unique.newnameFreed = true := fun h => ((newnameFreed_iff hunique).mp h).2 hfree
  rw [createFile_eq_unique, chosenFile, hunique, Option.bind_some, if_neg hkept, Option.map_some, hname]
  exact ⟨rfl, rfl⟩

/-- An entry that is created is created under the name that was chosen, which was not freed twice. -/
theorem createFile_eq_some_iff {metaData : MetaData} {fs' : LocalFiles} :
    createFile currentDir transformDateToString resStruct fs metaData = some fs' ↔
      ¬FreedTwice currentDir transformDateToString resStruct fs metaData ∧
        ∃ unique, uniqueFilename currentDir transformDateToString resStruct fs metaData = some unique ∧
          createAt currentDir resStruct fs metaData unique.filename = fs' := by
  rw [createFile_eq_unique, Option.bind_eq_some_iff]
  constructor
  · rintro ⟨unique, hunique, h⟩
    split_ifs at h with hfreed
    exact ⟨fun htwice => hfreed ((newnameFreed_iff hunique).mpr htwice), unique, hunique, Option.some.inj h⟩
  · rintro ⟨honce, unique, hunique, h⟩
    exact ⟨unique, hunique, by rw [if_neg fun hfreed => honce ((newnameFreed_iff hunique).mp hfreed), h]⟩

/-- Without the whole paths an entry is made as it is restored. -/
theorem createAt_eq (hparents : resStruct.opt.parents = false) (fs : LocalFiles) (metaData : MetaData) (filename : Bytes) :
    createAt currentDir resStruct fs metaData filename =
      match restoredNode resStruct metaData with
      | none => fs
      | some node => make pathRules fs (gFileNewForPath currentDir filename) node := by
  unfold createAt restoredNode
  simp only [hparents, Bool.false_eq_true, if_false]
  by_cases hlink : metaData.link = some (CString.lit "")
  · simp only [if_pos hlink]
    rfl
  · simp only [if_neg hlink]
    rcases metaData.link with _ | link <;> rfl

/-- What stands somewhere still stands there when an entry is created. -/
theorem kept_createFile {metaData : MetaData} {fs' : LocalFiles}
    (h : createFile currentDir transformDateToString resStruct fs metaData = some fs') : Kept fs fs' := by
  obtain ⟨-, unique, -, rfl⟩ := createFile_eq_some_iff.mp h
  unfold createAt
  simp only
  split_ifs
  · exact (kept_makeDirectories pathRules _ _).trans (kept_make pathRules _ _)
  · exact kept_make pathRules _ _
  · unfold makeSymbolicLink
    rcases metaData.link with _ | link
    · exact Kept.refl fs
    · exact kept_make pathRules _ _

/-- What stands somewhere still stands there when entries are restored. -/
theorem kept_restoreOneFile {elem : ServerMetaData} {fs' : LocalFiles}
    (h : restoreOneFile currentDir transformDateToString resStruct fs elem = some fs') : Kept fs fs' := by
  unfold restoreOneFile at h
  rcases hmeta : elem.metaData with _ | metaData
  · rw [hmeta] at h
    obtain rfl := Option.some.inj h
    exact Kept.refl fs
  · rw [hmeta] at h
    exact kept_createFile h

theorem kept_restoreListOfSmeta {list : List ServerMetaData} : ∀ {fs fs' : LocalFiles},
    restoreListOfSmeta currentDir transformDateToString resStruct fs list = some fs' → Kept fs fs' := by
  induction list with
  | nil =>
    intro fs fs' h
    obtain rfl := Option.some.inj h
    exact Kept.refl fs
  | cons elem list ih =>
    intro fs fs' h
    obtain ⟨fs₁, hone, hrest⟩ := Option.bind_eq_some_iff.mp h
    exact (kept_restoreOneFile hone).trans (ih hrest)

/-! ## The names that are tried -/

/-- A base name is one name, or the separator of the root. -/
theorem gPathGetBasename_name (fileName : Bytes) :
    gPathGetBasename fileName = [47] ∨ (gPathGetBasename fileName ≠ [] ∧ (47 : UInt8) ∉ gPathGetBasename fileName) := by
  unfold gPathGetBasename
  split_ifs with hnil hseps
  · exact Or.inr (by decide)
  · exact Or.inl rfl
  · refine Or.inr ⟨fun hempty => ?_, fun hmem => ?_⟩
    · have hlast := List.rdropWhile_last_not (fun c : UInt8 => decide (c = 47)) fileName hseps
      have hall := List.rtakeWhile_eq_nil_iff.mp hempty hseps
      simp only [decide_not, Bool.not_eq_true', decide_eq_false_iff_not, not_not, decide_eq_true_eq] at hlast hall
      exact hlast hall
    · simpa using List.mem_rtakeWhile_imp hmem

/-- Characters behind others, a dash or an underscore among them, are the name of a file. -/
theorem fileName_behind {front name : Bytes} (hfront : (47 : UInt8) ∉ front) (hmark : (45 : UInt8) ∈ front ∨ (95 : UInt8) ∈ front)
    (hname : (47 : UInt8) ∉ name) : FileName (front ++ name) := by
  have hne : front ≠ [] := by
    rcases hmark with h | h <;> exact List.ne_nil_of_mem h
  have hdots : ∀ text : Bytes, (∀ c ∈ text, c = 46) → front ++ name ≠ text := by
    rintro text htext rfl
    rcases hmark with h | h
    · exact absurd (htext _ (List.mem_append_left _ h)) (by decide)
    · exact absurd (htext _ (List.mem_append_left _ h)) (by decide)
  have hhere : ∀ c ∈ str ".", c = 46 := by simp [str]
  have hparent : ∀ c ∈ str "..", c = 46 := by simp [str]
  exact ⟨List.append_ne_nil_of_left_ne_nil hne _, fun h => (List.mem_append.mp h).elim hfront hname, hdots _ hhere,
    hdots _ hparent⟩

/-- The separator of the root behind such characters is left out. -/
theorem components_behind {front name : Bytes} (hfront : (47 : UInt8) ∉ front) (hmark : (45 : UInt8) ∈ front ∨ (95 : UInt8) ∈ front)
    (hname : name = [47] ∨ (47 : UInt8) ∉ name) : ∃ n, Paths.components 47 (front ++ name) = [n] ∧ FileName n := by
  rcases hname with rfl | hname
  · have hfile := fileName_behind hfront hmark List.not_mem_nil
    rw [List.append_nil] at hfile
    refine ⟨front, ?_, hfile⟩
    rw [Paths.components_append_cons, Paths.components_name hfront hfile.nonempty, Paths.components_nil, List.append_nil]
  · have hfile := fileName_behind hfront hmark hname
    exact ⟨_, Paths.components_name hfile.noSeparator hfile.nonempty, hfile⟩

/-- Where a name stands that is put behind that of the destination. -/
theorem gFileNewForPath_pair (currentDir : Location) {whereDir : Bytes} (hwhere : whereDir ≠ []) (name : Bytes) :
    gFileNewForPath currentDir (gBuildFilenameOf [whereDir, name]) =
      Paths.resolve (str ".") (str "..") (gFileNewForPath currentDir whereDir) (Paths.components 47 name) := by
  unfold gFileNewForPath
  rw [head?_gBuildFilenameOf hwhere, components_gBuildFilenameOf, List.flatMap_cons, List.flatMap_singleton]
  exact List.foldl_append

/-- Where the destination itself stands. -/
theorem gFileNewForPath_single (currentDir : Location) {whereDir : Bytes} (hwhere : whereDir ≠ []) :
    gFileNewForPath currentDir (gBuildFilenameOf [whereDir]) = gFileNewForPath currentDir whereDir := by
  unfold gFileNewForPath
  rw [head?_gBuildFilenameOf hwhere, components_gBuildFilenameOf, List.flatMap_singleton]

/-- A name of a file in the destination, or the destination itself or its parent. -/
def NamesFile (dest file : Location) : Prop := (∃ name, FileName name ∧ file = dest ++ [name]) ∨ file <+: dest

/-- A name that is made of a base name names a file. -/
theorem namesFile_behind {whereDir : Bytes} (hwhere : whereDir ≠ []) {front name : Bytes} (hfront : (47 : UInt8) ∉ front)
    (hmark : (45 : UInt8) ∈ front ∨ (95 : UInt8) ∈ front) (hname : name = [47] ∨ (47 : UInt8) ∉ name) :
    NamesFile (gFileNewForPath currentDir whereDir) (gFileNewForPath currentDir (gBuildFilenameOf [whereDir, front ++ name])) := by
  obtain ⟨n, hcomponents, hn⟩ := components_behind hfront hmark hname
  refine Or.inl ⟨n, hn, ?_⟩
  rw [gFileNewForPath_pair currentDir hwhere, hcomponents]
  exact @resolve_append _ [] [n] (List.forall_mem_singleton.mpr hn)

/-- A base name names a file, or the destination or its parent. -/
theorem namesFile_basename {whereDir : Bytes} (hwhere : whereDir ≠ []) {name : Bytes}
    (hname : name = [47] ∨ (name ≠ [] ∧ (47 : UInt8) ∉ name)) :
    NamesFile (gFileNewForPath currentDir whereDir) (gFileNewForPath currentDir (gBuildFilenameOf [whereDir, name])) := by
  rw [gFileNewForPath_pair currentDir hwhere]
  rcases hname with rfl | ⟨hne, hclear⟩
  · rw [Paths.components_cons, Paths.components_nil]
    exact Or.inr (List.prefix_refl _)
  · rw [Paths.components_name hclear hne, Paths.resolve, List.foldl_cons, List.foldl_nil, Paths.step]
    split_ifs with hhere hparent
    · exact Or.inr (List.prefix_refl _)
    · exact Or.inr (List.dropLast_prefix _)
    · exact Or.inl ⟨name, ⟨hne, hclear, hhere, hparent⟩, rfl⟩

/-- Every name that is tried for an entry names a file in the destination, or the destination itself or its parent. -/
theorem namesFile_candidateFilename (hparents : resStruct.opt.parents = false) {metaData : MetaData}
    (hdate : ∀ date ∈ transformDateToString metaData.mtime, (47 : UInt8) ∉ date.bytes) (i : Nat) :
    NamesFile (gFileNewForPath currentDir (destination currentDir resStruct fs))
      (gFileNewForPath currentDir (candidateFilename currentDir transformDateToString resStruct fs metaData i)) := by
  have hwhere := destination_ne_nil currentDir resStruct fs
  have hbase : ∀ name ∈ basenameOf resStruct metaData, name = [47] ∨ (name ≠ [] ∧ (47 : UInt8) ∉ name) := by
    intro name hname
    unfold basenameOf at hname
    rw [hparents] at hname
    obtain ⟨fileName, -, rfl⟩ := Option.map_eq_some_iff.mp hname
    exact gPathGetBasename_name fileName
  have hnull : (47 : UInt8) ∉ str "(null)" := by decide
  have hname : (basenameOf resStruct metaData).getD (str "(null)") = [47] ∨
      (47 : UInt8) ∉ (basenameOf resStruct metaData).getD (str "(null)") := by
    rcases hb : basenameOf resStruct metaData with _ | name
    · exact Or.inr hnull
    · exact (hbase name hb).imp id And.right
  have hday : (47 : UInt8) ∉ (theDateOf transformDateToString resStruct metaData).getD (str "(null)") := by
    unfold theDateOf
    split_ifs
    · rcases hd : transformDateToString metaData.mtime with _ | date
      · exact hnull
      · exact hdate date hd
    · exact hnull
  have hunderscore : str "_" = [95] := by decide
  have hdash : str "-" = [45] := by decide
  unfold candidateFilename
  rcases i with _ | i
  · rw [candidateName, newnameOf]
    split_ifs
    · exact namesFile_behind hwhere (by simp [hday, hunderscore]) (Or.inr (by simp [hunderscore])) hname
    · rcases hb : basenameOf resStruct metaData with _ | name
      · rw [Option.toList_none, gFileNewForPath_single currentDir hwhere]
        exact Or.inr (List.prefix_refl _)
      · exact namesFile_basename hwhere (hbase name hb)
  · have hnumber : (47 : UInt8) ∉ Decimal.printInt (UInt32.ofNat i).toInt32.toInt :=
      Decimal.not_mem_printInt (by decide)
    rw [candidateName]
    generalize Decimal.printInt (UInt32.ofNat i).toInt32.toInt = number at hnumber ⊢
    split_ifs
    · exact namesFile_behind hwhere (by simp [hday, hunderscore, hdash, hnumber]) (Or.inr (by simp [hunderscore])) hname
    · exact namesFile_behind hwhere (by simp [hdash, hnumber]) (Or.inl (by simp [hdash])) hname

end Sauvegarde
