import Sauvegarde.Restore.Files
import Sauvegarde.Server.FileList
import Sauvegarde.Theorems.FlatFile
import Sauvegarde.Theorems.Wire

/-!
# The newest version

Which file is restored of those that the server has read: on its way the list is turned over twice and sorted twice, and may lose
its older versions.
-/

namespace Sauvegarde

open StableSort

/-- A record as it arrives at the client. -/
def arrived (hostname : CString) (m : MetaData) : ServerMetaData :=
  fillsServerMetaDataFromJson (convertMetaDataToJson m (some hostname) false)

namespace NewestAux

variable (collateKeyForFilename : CString → CString)

variable (filters : Filters) (query : Query) (latest : Bool) (reads : List Bytes)

/-- The server's list holds records that were read. -/
theorem mem_of_mem_fileList {m : MetaData} (h : m ∈ fileList collateKeyForFilename filters query latest reads) :
    m ∈ readRecords filters query reads := by
  have hsorted : ∀ m, m ∈ gListSort (compareMetaData collateKeyForFilename) (getFileListFromRegexAndQuery filters query reads) →
      m ∈ readRecords filters query reads := fun m hm => by
    rw [gListSort_compareMetaData, List.mem_insertionSort, getFileListFromRegexAndQuery_eq, List.mem_reverse] at hm
    exact hm
  unfold fileList at h
  rcases latest
  · exact hsorted m h
  · exact hsorted m (mem_of_mem_keepLatests h)

/-- Of the greatest records in the server's list the one that was stored last comes first. -/
theorem head?_greatest_fileList {x : MetaData}
    (hx : IsLastGreatest (NotBehind collateKeyForFilename) (readRecords filters query reads) x) :
    (greatest (NotBehind collateKeyForFilename) x (fileList collateKeyForFilename filters query latest reads)).head? = some x := by
  obtain ⟨hmax, hlast⟩ := hx.spec
  have hmaxRead : ∀ m ∈ getFileListFromRegexAndQuery filters query reads, NotBehind collateKeyForFilename m x := fun m hm => by
    rw [getFileListFromRegexAndQuery_eq, List.mem_reverse] at hm
    exact hmax m hm
  have hsorted : (greatest (NotBehind collateKeyForFilename) x
      (gListSort (compareMetaData collateKeyForFilename) (getFileListFromRegexAndQuery filters query reads))).head? = some x := by
    rw [gListSort_compareMetaData, greatest_insertionSort hmaxRead, getFileListFromRegexAndQuery_eq, greatest_reverse,
      List.head?_reverse, hlast]
  unfold fileList
  rcases latest
  · exact hsorted
  · have hpairwise : (gListSort (compareMetaData collateKeyForFilename)
        (getFileListFromRegexAndQuery filters query reads)).Pairwise (NotBehind collateKeyForFilename) := by
      rw [gListSort_compareMetaData]
      exact List.pairwise_insertionSort _ _
    have hkept := greatest_keepLatests hpairwise fun m hm => hmaxRead m (by
      rwa [gListSort_compareMetaData, List.mem_insertionSort] at hm)
    simp only [if_true]
    rw [hkept, List.head?_take, if_neg Nat.one_ne_zero, hsorted]

variable {collateKeyForFilename}

/-- A record arrives with its name and its time of modification. -/
theorem arrived_spec (hostname : CString) (m : MetaData) :
    ∃ m', (arrived hostname m).metaData = some m' ∧ m'.name = m.name ∧ m'.mtime = m.mtime := by
  obtain ⟨_, _, hget⟩ := WireAux.finds_convertMetaDataToJson m (some hostname) false
  refine ⟨_, rfl, ?_, ?_⟩
  · simp only [getStringFromJsonRoot, getJsonValueFromJsonRoot, hget, String.reduceEq, if_true, if_false,
      WireAux.stringValue_map_str]
  · simp only [getGuint64FromJsonRoot, getJsonValueFromJsonRoot, hget, String.reduceEq, if_true, if_false,
      Json.integerValue_int, UInt64.toUInt64_toInt64]

/-- Records that arrived compare as they did before. -/
theorem compareFilenames_arrived (hostname : CString) (a b : MetaData) :
    NotBehind collateKeyForFilename a b ↔
      compareFilenames collateKeyForFilename (arrived hostname a) (arrived hostname b) ≤ 0 := by
  obtain ⟨a', ha, haName, haTime⟩ := arrived_spec hostname a
  obtain ⟨b', hb, hbName, hbTime⟩ := arrived_spec hostname b
  unfold compareFilenames
  rw [ha, hb]
  simp only
  rw [compareMetaData_le_zero, notBehind_iff, notBehind_iff, nameKey, nameKey, nameKey, nameKey, haName, hbName, haTime, hbTime]

/-- The client takes the list out of the answer turned over. -/
theorem extractSmetaGslist_answer (list : List MetaData) (hostname : CString) :
    extractSmetaGslistFromJsonArray (insertJsonValueIntoJsonRoot (Json.obj []) "file_list"
      (some (convertMetaDataListToJsonArray list (some hostname) false))) = list.reverse.map (arrived hostname) := by
  unfold extractSmetaGslistFromJsonArray
  rw [prependEach_eq, List.append_nil, List.map_reverse]
  exact congrArg List.reverse (List.map_map ..)

/-- The list of the client: the server's, turned over and sorted again. -/
theorem getFilesFromServer_eq (hostname : CString)
    (hjson : ∀ m ∈ readRecords filters query reads, convertMetaDataToJsonString m (some hostname) false ≠ none) :
    getFilesFromServer collateKeyForFilename
        (fileGetListOfFiles collateKeyForFilename filters query hostname latest (some reads)) =
      ((fileList collateKeyForFilename filters query latest reads).reverse.insertionSort
        (NotBehind collateKeyForFilename)).map (arrived hostname) := by
  have hwritten : (convertMetaDataListToJsonArray (fileList collateKeyForFilename filters query latest reads) (some hostname)
      false).wellEncoded = true := by
    unfold convertMetaDataListToJsonArray
    rw [Json.wellEncoded, Json.wellEncodedAll_iff]
    intro v hv
    obtain ⟨m, hm, rfl⟩ := List.mem_map.mp hv
    by_contra hnot
    exact hjson m (mem_of_mem_fileList _ _ _ _ _ hm) (if_neg hnot)
  have hanswer : fileGetListOfFiles collateKeyForFilename filters query hostname latest (some reads) =
      some (Json.obj [("file_list", convertMetaDataListToJsonArray
        (fileList collateKeyForFilename filters query latest reads) (some hostname) false)]) := by
    refine if_pos ?_
    exact wellEncoded_insert rfl (by simpa using hwritten) "file_list"
  rw [hanswer, List.map_insertionSort (NotBehind collateKeyForFilename)
    (fun a b => compareFilenames collateKeyForFilename a b ≤ 0) (arrived hostname) _
    fun a _ b _ => compareFilenames_arrived hostname a b]
  unfold getFilesFromServer gListSort
  simp only [Option.bind_some, Json.loads]
  congr 1
  exact extractSmetaGslist_answer _ hostname

/-- What is restored is the greatest record, and of several the one that was stored last. -/
theorem restoreLastFile_eq (hostname : CString)
    (hjson : ∀ m ∈ readRecords filters query reads, convertMetaDataToJsonString m (some hostname) false ≠ none) {x : MetaData}
    (hx : IsLastGreatest (NotBehind collateKeyForFilename) (readRecords filters query reads) x) :
    restoreLastFile collateKeyForFilename
        (fileGetListOfFiles collateKeyForFilename filters query hostname latest (some reads)) =
      (arrived hostname x).metaData := by
  have hmax := hx.spec.1
  have hfirst := head?_greatest_fileList collateKeyForFilename filters query latest reads hx
  generalize hlist : fileList collateKeyForFilename filters query latest reads = list at hfirst
  have hlistMax : ∀ m ∈ list.reverse, NotBehind collateKeyForFilename m x := fun m hm => by
    rw [List.mem_reverse, ← hlist] at hm
    exact hmax m (mem_of_mem_fileList collateKeyForFilename filters query latest reads hm)
  -- turned over, the greatest records end with the one that came first
  have hgreatest : (greatest (NotBehind collateKeyForFilename) x
      (list.reverse.insertionSort (NotBehind collateKeyForFilename))).getLast? = some x := by
    rw [greatest_insertionSort hlistMax, greatest_reverse, List.getLast?_reverse, hfirst]
  have hmem := ((mem_greatest _).mp (List.mem_of_getLast? hgreatest)).1
  rw [getLast?_greatest (List.pairwise_insertionSort _ _) hmem] at hgreatest
  unfold restoreLastFile
  rw [getFilesFromServer_eq filters query latest reads hostname hjson, hlist, List.getLast?_map, hgreatest]
  rfl

/-- The records that are read are those that were stored, when each of them keeps to its line. -/
theorem readRecords_stored {smetas : List ServerMetaData} {reads : List Bytes}
    (hlines : ∀ smeta ∈ smetas, smeta.hostname ≠ none ∧ ∃ m, smeta.metaData = some m ∧ LineOk (smetaLine m))
    (hreads : IsReading (smetas.foldl fileStoreSmeta []) reads) :
    readRecords filters query reads = smetas.filterMap fun smeta =>
      smeta.metaData.bind fun m => extractFromLine filters query (smetaLine m) := by
  have hhanded := congrArg (List.filterMap fun line => line.bind (extractFromLine filters query))
    (FlatFileAux.handedLines_stored hlines hreads)
  rw [List.filterMap_map, List.filterMap_map] at hhanded
  exact hhanded.trans (congrArg (fun f => smetas.filterMap f) (funext fun smeta => Option.bind_map ..))

end NewestAux

/-- Whatever was stored for a host and however its file is read, and whether the latest versions are asked for or all: the record
that is restored is, of those that are read back and that the query selects, the greatest by the key of its name, then by its time of
modification, then by the order in which they were stored; when none is selected none is restored. The records that are read back are
the stored ones when each of them keeps to its line; a record with a quote in its owner takes the one behind it into its line, and
neither is read back as it was. The strings of the records are UTF-8, as those that are received as JSON. -/
theorem restoreLastFile_isLastGreatest (collateKeyForFilename : CString → CString) (filters : Filters) (query : Query)
    (hostname : CString) (latest : Bool) {smetas : List ServerMetaData} {reads : List Bytes}
    (hreads : IsReading (smetas.foldl fileStoreSmeta []) reads)
    (hjson : ∀ m ∈ readRecords filters query reads, convertMetaDataToJsonString m (some hostname) false ≠ none) :
    let restored := restoreLastFile collateKeyForFilename
      (fileGetListOfFiles collateKeyForFilename filters query hostname latest (some reads))
    (readRecords filters query reads = [] → restored = none) ∧
      (readRecords filters query reads ≠ [] → ∃ m,
        IsLastGreatest (NotBehind collateKeyForFilename) (readRecords filters query reads) m ∧
          restored = (arrived hostname m).metaData) ∧
      ((∀ smeta ∈ smetas, smeta.hostname ≠ none ∧ ∃ m, smeta.metaData = some m ∧ LineOk (smetaLine m)) →
        readRecords filters query reads = smetas.filterMap fun smeta =>
          smeta.metaData.bind fun m => extractFromLine filters query (smetaLine m)) := by
  intro restored
  refine ⟨fun hnone => ?_, fun hsome => ?_, fun hlines => ?_⟩
  · have hempty : fileList collateKeyForFilename filters query latest reads = [] := by
      refine List.eq_nil_iff_forall_not_mem.mpr fun m hm => ?_
      have hread := NewestAux.mem_of_mem_fileList _ _ _ _ _ hm
      rw [hnone] at hread
      exact List.not_mem_nil hread
    show restoreLastFile _ _ = none
    unfold restoreLastFile
    rw [NewestAux.getFilesFromServer_eq filters query latest reads hostname hjson, hempty]
    rfl
  · obtain ⟨m, hm⟩ := exists_isLastGreatest (NotBehind collateKeyForFilename) hsome
    exact ⟨m, hm, NewestAux.restoreLastFile_eq filters query latest reads hostname hjson hm⟩
  · exact NewestAux.readRecords_stored filters query hlines hreads

/-- A version of a file, of a size. -/
def versionOf (size : UInt64) : MetaData :=
  { newMetaData with
    mtime := 1432129404
    size := size
    owner := some (CString.lit "root")
    group := some (CString.lit "root")
    uid := 0
    gid := 0
    name := some (CString.lit "/etc/motd")
    link := some (CString.lit "") }

/-- It may be stored. -/
theorem values_versionOf (size : UInt64) : FlatFileAux.Values (versionOf size) (CString.lit "root") (CString.lit "root")
    (CString.lit "/etc/motd") (CString.lit "") [] where
  hasOwner := rfl
  ownerPlain := List.all_iff_forall_prop.mp (by decide)
  hasGroup := rfl
  groupPlain := List.all_iff_forall_prop.mp (by decide)
  hasName := rfl
  hasLink := rfl
  hashs := rfl

/-- Of two versions with the same time the one that was stored last is restored. -/
theorem laterVersion_isRestored :
    let smetas : List ServerMetaData :=
      [⟨some (CString.lit "host"), true, some (versionOf 1)⟩, ⟨some (CString.lit "host"), true, some (versionOf 2)⟩]
    restoreLastFile id (fileGetListOfFiles id passFilters rootQuery (CString.lit "host") true
      (some ((smetas.foldl fileStoreSmeta []).map fun c => [c]))) = (arrived (CString.lit "host") (versionOf 2)).metaData := by
  intro smetas
  have hreads := isReading_bytes (smetas.foldl fileStoreSmeta [])
  have hlines : ∀ smeta ∈ smetas, smeta.hostname ≠ none ∧ ∃ m, smeta.metaData = some m ∧ LineOk (smetaLine m) := by
    intro smeta hsmeta
    have hline : ∀ size, LineOk (smetaLine (versionOf size)) := fun size =>
      FlatFileAux.Storable.line (values_versionOf size).storable
    rcases List.mem_pair.mp hsmeta with rfl | rfl
    · exact ⟨by simp, _, rfl, hline 1⟩
    · exact ⟨by simp, _, rfl, hline 2⟩
  have hread : readRecords passFilters rootQuery ((smetas.foldl fileStoreSmeta []).map fun c => [c]) =
      [versionOf 1, versionOf 2] := by
    have hselected : ∀ size, extractFromLine passFilters rootQuery (smetaLine (versionOf size)) = some (versionOf size) :=
      fun size => by
        rw [(values_versionOf size).extractFromLine_eq]
        exact if_pos ⟨fun _ _ => rfl, rfl, rfl, rfl, rfl, rfl⟩
    rw [NewestAux.readRecords_stored _ _ hlines hreads]
    simp [smetas, hselected]
  obtain ⟨-, hrestored, -⟩ := restoreLastFile_isLastGreatest id passFilters rootQuery (CString.lit "host") true hreads
    fun m hm => by
      rw [hread] at hm
      rcases List.mem_pair.mp hm with rfl | rfl <;> decide
  obtain ⟨m, ⟨before, after, hlist, -, hafter⟩, heq⟩ := hrestored (by rw [hread]; simp)
  rw [hread] at hlist
  refine heq.trans ?_
  rcases before with _ | ⟨first, before⟩
  · obtain ⟨rfl, rfl⟩ := List.cons.inj hlist
    exact absurd (show NotBehind id (versionOf 1) (versionOf 2) from le_of_eq rfl) (hafter _ List.mem_cons_self)
  · rcases before with _ | ⟨second, before⟩
    · rw [(List.cons.inj (List.cons.inj hlist).2).1]
    · simp at hlist

end Sauvegarde
