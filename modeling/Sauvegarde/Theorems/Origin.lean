import Sauvegarde.Theorems.Restoring
import Sauvegarde.Theorems.Sending

/-!
# What a file sends

Every request that `save_one_file` makes for a file, whatever it is answered: the blocks in it are blocks of the file, the record in
it is the record of the file, and when the file is done with its record was accepted or kept.
-/

namespace Sauvegarde

/-- A file that `save_one_file` saves: it is not excluded and not in the cache. -/
def FileToSave.Saved (file : FileToSave) : Prop := file.excluded = false ∧ file.metaData.inCache = false

/-- All the blocks of the file are read: every read succeeds, and a small file is a regular one. -/
def FileToSave.ReadWhole (file : FileToSave) : Prop :=
  file.source.opens = true ∧ file.source.failsAfter = none ∧
    (file.metaData.size < CLIENT_SMALL_FILE_SIZE → file.metaData.fileType = G_FILE_TYPE_REGULAR)

section

variable (sha256 : Bytes → Hash) (z : Zlib)

/-- A block of a file, with its hash. -/
def BlockOf (file : FileToSave) (hd : HashData) : Prop :=
  ∃ buffer ∈ file.source.blocks, hd = hashDataOfBuffer sha256 z file.main.cmptype buffer

/-- The record of a file as the server reads it, when it can be written: with the user id for the group id, and with the hashs of all
its blocks in their order when all of them are read. -/
def RecordOf (file : FileToSave) (smeta : ServerMetaData) : Prop :=
  file.Writable ∧
    ∃ list m, smeta = ⟨some file.main.hostname, decide (CLIENT_SMALL_FILE_SIZE ≤ file.metaData.size), some m⟩ ∧
      MetaData.Same { file.metaData with gid := file.metaData.uid, hashDataList := list } m ∧ AllHashed list ∧
        (file.ReadWhole → HashsAre list (file.blockHashs sha256))

/-- A request that is made for a file. -/
structure RequestOf (file : FileToSave) (url : String) (body : Json) : Prop where
  blocks : ∀ hd ∈ broughtBlocks url body, BlockOf sha256 z file hd
  records : ∀ smeta ∈ recordsOf url body, file.Saved ∧ RecordOf sha256 file smeta

/-- An operation whose request, if it has one, is made for a file. -/
def OpOf (file : FileToSave) (op : ClientOp) : Prop :=
  ∀ url body, op.request = some (url, body) → RequestOf sha256 z file url body

/-- The record of the file was accepted by the server, or stored with `db_save_buffer`. -/
def RecordKept (file : FileToSave) (history : List ClientEvent) : Prop :=
  ∃ e ∈ history, acceptedOrKept e ∧ ∃ smeta ∈ e.op.records, RecordOf sha256 file smeta

end

namespace OriginAux

open SavingAux CachedAux BigFileAux

variable {sha256 : Bytes → Hash} {z : Zlib} {file : FileToSave}

/-! ## Requests -/

/-- What was kept is kept when more happens. -/
theorem RecordKept.mono {history history' : List ClientEvent} (h : RecordKept sha256 file history)
    (hsub : ∀ e ∈ history, e ∈ history') : RecordKept sha256 file history' := by
  obtain ⟨e, he, hkept⟩ := h
  exact ⟨e, hsub e he, hkept⟩

/-- The blocks of a file are blocks. -/
theorem allBlocks_of_blockOf (hz : z.Writes) {list : List HashData} (h : ∀ hd ∈ list, BlockOf sha256 z file hd) : AllBlocks list := by
  intro hd hhd
  obtain ⟨buffer, hbuffer, rfl⟩ := h hd hhd
  exact ⟨sha256 buffer, isBlock_hashDataOfBuffer sha256 hz file.main.cmptype_allowed (file.source.blocks_len buffer hbuffer)⟩

/-- An operation without a request. -/
theorem opOf_of_noRequest {op : ClientOp} (h : op.request = none) : OpOf sha256 z file op :=
  fun _ _ hrequest => absurd (h.symm.trans hrequest) (by simp)

/-- A request that is posted or kept, when it can be written. -/
theorem opOf_of_body {op : ClientOp} {url : String} {body? : Option Json} (hop : op.request = body?.map fun body => (url, body))
    (h : ∀ body, body? = some body → RequestOf sha256 z file url body) : OpOf sha256 z file op := by
  intro url' body hrequest
  obtain ⟨body', hbody, heq⟩ := Option.map_eq_some_iff.mp (hop.symm.trans hrequest)
  obtain ⟨rfl, rfl⟩ := Prod.mk.inj heq
  exact h _ hbody

/-- A request that asks for hashs brings nothing. -/
theorem requestOf_hashArray (body : Json) : RequestOf sha256 z file "/Hash_Array.json" body where
  blocks := fun _ hhd => absurd hhd List.not_mem_nil
  records := fun _ hsmeta => absurd ((recordsOf_data body).2.2 ▸ hsmeta) (Set.notMem_empty _)

/-- The request with an array of blocks of the file. -/
theorem requestOf_dataArray (hz : z.Writes) {sent : List HashData} (hsent : ∀ hd ∈ sent, BlockOf sha256 z file hd) {body : Json}
    (hbody : (dataArrayRoot (blockArray sent)).dumps = some body) : RequestOf sha256 z file "/Data_Array.json" body where
  blocks := by
    obtain ⟨body', hbody', hqueue⟩ := dataArray_queue (allBlocks_of_blockOf hz hsent)
    obtain rfl := Option.some.inj (hbody.symm.trans hbody')
    rwa [broughtBlocks, hqueue]
  records := fun _ hsmeta => absurd ((recordsOf_data body).2.1 ▸ hsmeta) (Set.notMem_empty _)

/-- The request with one block of the file. -/
theorem requestOf_data (hz : z.Writes) {hd : HashData} (hhd : BlockOf sha256 z file hd) {body : Json}
    (hbody : convertHashDataToString hd = some body) : RequestOf sha256 z file "/Data.json" body where
  blocks := by
    obtain ⟨buffer, hbuffer, heq⟩ := hhd
    obtain ⟨bytes, hblock, _⟩ :=
      isBlock_hashDataOfBuffer sha256 hz file.main.cmptype_allowed (file.source.blocks_len buffer hbuffer)
    obtain ⟨body', hbody', hqueue⟩ := data_queue (heq ▸ hblock)
    obtain rfl := Option.some.inj (hbody.symm.trans hbody')
    intro hd' hhd'
    rw [broughtBlocks, hqueue] at hhd'
    exact List.mem_singleton.mp hhd' ▸ ⟨buffer, hbuffer, heq⟩
  records := fun _ hsmeta => absurd ((recordsOf_data body).1 ▸ hsmeta) (Set.notMem_empty _)

/-- The record that is written with a list of hashs is the record of the file. -/
theorem recordOf_fills (hwritable : file.Writable) {list : List HashData} (hhashed : AllHashed list)
    (hwhole : file.ReadWhole → HashsAre list (file.blockHashs sha256)) :
    RecordOf sha256 file (fillsServerMetaDataFromJson (convertMetaDataToJson { file.metaData with hashDataList := list }
      (some file.main.hostname) (decide (CLIENT_SMALL_FILE_SIZE ≤ file.metaData.size)))) := by
  obtain ⟨hs, hhs⟩ := hhashed.exists_hashs
  have hfills := @WireAux.fills_convertMetaDataToJson { file.metaData with hashDataList := list } hs hhs
  refine ⟨hwritable, list, _, hfills _ _, ?_, hhashed, hwhole⟩
  exact {
    fileType := rfl, mode := rfl, atime := rfl, ctime := rfl, mtime := rfl, size := rfl, inode := rfl, owner := rfl,
    group := rfl, uid := rfl, gid := rfl, name := rfl, link := rfl
    hashs := by
      rw [show list.map HashData.hash = _ from hhs, List.map_map]
      rfl }

/-- The request with the record of the file brings that record, and no block. -/
theorem requestOf_meta (hsaved : file.Saved) {list : List HashData} (hhashed : AllHashed list)
    (hwhole : file.ReadWhole → HashsAre list (file.blockHashs sha256)) {body : Json}
    (hbody : convertMetaDataToJsonString { file.metaData with hashDataList := list } (some file.main.hostname)
      (decide (CLIENT_SMALL_FILE_SIZE ≤ file.metaData.size)) = some body) :
    RequestOf sha256 z file "/Meta.json" body ∧ ∃ smeta ∈ recordsOf "/Meta.json" body, RecordOf sha256 file smeta := by
  obtain ⟨hs, hhs⟩ := hhashed.exists_hashs
  have hwritten := record_written_iff hhs (Eq.refl (decide (CLIENT_SMALL_FILE_SIZE ≤ file.metaData.size)))
  have hrecord := recordOf_fills (hwritten.mp (hbody ▸ Option.some_ne_none body)) hhashed hwhole
  rw [convertMetaDataToJsonString, Json.dumps] at hbody
  split at hbody
  · obtain rfl := Option.some.inj hbody
    have hsmeta : convertJsonToSmetaData (convertMetaDataToJson { file.metaData with hashDataList := list }
        (some file.main.hostname) (decide (CLIENT_SMALL_FILE_SIZE ≤ file.metaData.size))) = some (fillsServerMetaDataFromJson
          (convertMetaDataToJson { file.metaData with hashDataList := list } (some file.main.hostname)
            (decide (CLIENT_SMALL_FILE_SIZE ≤ file.metaData.size)))) := rfl
    generalize hbody : convertMetaDataToJson { file.metaData with hashDataList := list } (some file.main.hostname)
      (decide (CLIENT_SMALL_FILE_SIZE ≤ file.metaData.size)) = body at *
    obtain ⟨_, list', m, heq, _⟩ := id hrecord
    rw [heq] at hrecord hsmeta
    have hprocessed : ∀ backend files, (processReceivedData backend files "/Meta.json" body).metaQueue =
        [⟨some file.main.hostname, decide (CLIENT_SMALL_FILE_SIZE ≤ file.metaData.size), some m⟩] ∧
        (processReceivedData backend files "/Meta.json" body).dataQueue = [] := by
      intro backend files
      rw [processReceivedData_meta, answerMetaJsonPostRequest, hsmeta]
      exact ⟨rfl, rfl⟩
    refine ⟨⟨fun hd hhd => ?_, ?_⟩, _, ⟨none, fun _ => none, ?_⟩, hrecord⟩
    · rw [broughtBlocks, (hprocessed _ _).2] at hhd
      exact absurd hhd List.not_mem_nil
    · rintro smeta ⟨backend, files, hmem⟩
      rw [(hprocessed _ _).1] at hmem
      exact ⟨hsaved, List.mem_singleton.mp hmem ▸ hrecord⟩
    · rw [(hprocessed _ _).1]
      exact List.mem_singleton_self _
  · cases hbody

/-! ## What is sent -/

/-- `insert_array_in_root_and_send`. -/
theorem insertArrayInRootAndSend_origin (hz : z.Writes) {sent : List HashData} (hsent : ∀ hd ∈ sent, BlockOf sha256 z file hd)
    (held : List HashData) :
    (insertArrayInRootAndSend (blockArray sent) held).AllRuns (OpOf sha256 z file) fun _ _ => True := by
  have hrequest : ∀ body, (dataArrayRoot (blockArray sent)).dumps = some body → RequestOf sha256 z file "/Data_Array.json" body :=
    fun body => requestOf_dataArray hz hsent
  unfold insertArrayInRootAndSend
  refine Prog.allRuns_call.mpr ⟨opOf_of_body rfl hrequest, ?_⟩
  rintro (_ | answer)
  · exact Prog.allRuns_call.mpr ⟨opOf_of_body rfl hrequest, fun _ => Prog.allRuns_ret.mpr trivial⟩
  · exact Prog.allRuns_ret.mpr trivial

/-- What `find_hash_in_list` finds is in the list, and what is left of the list was in it. -/
theorem blockOf_found {list : List HashData} (hlist : ∀ hd ∈ list, BlockOf sha256 z file hd) {hash : Option Bytes} {found : HashData}
    (hfound : findHashInList list hash = some found) :
    BlockOf sha256 z file found ∧ ∀ hd ∈ removeLink list hash, BlockOf sha256 z file hd :=
  ⟨hlist found (List.mem_of_find?_eq_some hfound), fun hd hhd => hlist hd (List.mem_of_mem_eraseP hhd)⟩

/-- The loop of `send_all_data_to_server`, for any answer and whatever it counts. -/
theorem sendAllLoop_origin (hz : z.Writes) {limit : Int64} {hashList : List HashData} :
    ∀ {list sent : List HashData} {bytes : Int32}, (∀ hd ∈ list, BlockOf sha256 z file hd) →
      (∀ hd ∈ sent, BlockOf sha256 z file hd) →
      (sendAllLoop limit list (blockArray sent) bytes hashList).AllRuns (OpOf sha256 z file) fun _ _ => True := by
  induction hashList with
  | nil =>
    intro list sent bytes _ hsent
    unfold sendAllLoop
    split
    · exact (insertArrayInRootAndSend_origin hz hsent list).bind fun _ _ _ => Prog.allRuns_ret.mpr trivial
    · exact Prog.allRuns_ret.mpr trivial
  | cons hashData hashList ih =>
    intro list sent bytes hlist hsent
    unfold sendAllLoop
    split
    · exact Prog.allRuns_call.mpr ⟨opOf_of_noRequest rfl, fun answer => answer.elim⟩
    · rename_i found hfound
      obtain ⟨hblock, hrest⟩ := blockOf_found hlist hfound
      have hsent' : ∀ hd ∈ sent ++ [found], BlockOf sha256 z file hd := fun hd hhd =>
        (List.mem_append.mp hhd).elim (hsent hd) fun h => List.mem_singleton.mp h ▸ hblock
      have harray : blockArray sent ++ (convertHashDataToJson found).toList = blockArray (sent ++ [found]) := by
        simp [blockArray]
      simp only [harray]
      split
      · refine (insertArrayInRootAndSend_origin hz hsent' _).bind fun _ _ _ => ?_
        exact ih hrest fun hd hhd => absurd hhd List.not_mem_nil
      · exact ih hrest hsent'

/-- `send_all_data_to_server`. -/
theorem sendAllDataToServer_origin (hz : z.Writes) {main : MainStruct} {list : List HashData}
    (hlist : ∀ hd ∈ list, BlockOf sha256 z file hd) (answer : Option Json) :
    (sendAllDataToServer main list answer).AllRuns (OpOf sha256 z file) fun _ _ => True := by
  unfold sendAllDataToServer
  split
  · split
    · exact sendAllLoop_origin hz hlist fun hd hhd => absurd hhd List.not_mem_nil
    · exact Prog.allRuns_ret.mpr trivial
  · exact Prog.allRuns_ret.mpr trivial

/-- The loop of `send_data_to_server`. -/
theorem sendLoop_origin (hz : z.Writes) {hashList : List HashData} : ∀ {list : List HashData},
    (∀ hd ∈ list, BlockOf sha256 z file hd) → (sendLoop list hashList).AllRuns (OpOf sha256 z file) fun _ _ => True := by
  induction hashList with
  | nil => exact fun _ => Prog.allRuns_ret.mpr trivial
  | cons hashData hashList ih =>
    intro list hlist
    unfold sendLoop
    split
    · exact Prog.allRuns_call.mpr ⟨opOf_of_noRequest rfl, fun answer => answer.elim⟩
    · rename_i found hfound
      obtain ⟨hblock, hrest⟩ := blockOf_found hlist hfound
      have hrequest : ∀ body, convertHashDataToString found = some body → RequestOf sha256 z file "/Data.json" body :=
        fun body => requestOf_data hz hblock
      refine Prog.allRuns_call.mpr ⟨opOf_of_body rfl hrequest, ?_⟩
      rintro (_ | answer)
      · exact Prog.allRuns_call.mpr ⟨opOf_of_body rfl hrequest, fun _ => ih hrest⟩
      · exact ih hrest

/-- `send_data_to_server`. -/
theorem sendDataToServer_origin (hz : z.Writes) {list : List HashData} (hlist : ∀ hd ∈ list, BlockOf sha256 z file hd)
    (answer : Option Json) : (sendDataToServer list answer).AllRuns (OpOf sha256 z file) fun _ _ => True := by
  unfold sendDataToServer
  split
  · split
    · exact sendLoop_origin hz hlist
    · exact Prog.allRuns_ret.mpr trivial
  · exact Prog.allRuns_ret.mpr trivial

/-- `lets_send_all_that_now`. -/
theorem letsSendAllThatNow_origin (hz : z.Writes) {main : MainStruct} {list : List HashData}
    (hlist : ∀ hd ∈ list, BlockOf sha256 z file hd) (savedList : List HashData) :
    (letsSendAllThatNow main list savedList).AllRuns (OpOf sha256 z file) fun _ saved =>
      saved = list.map copyOnlyHash ++ savedList := by
  have hasks : (sendHashArrayToServer list).AllRuns (OpOf sha256 z file) fun _ _ => True := by
    unfold sendHashArrayToServer
    split
    · refine Prog.allRuns_call.mpr ⟨opOf_of_body rfl fun body _ => requestOf_hashArray body, ?_⟩
      rintro (_ | answer) <;> exact Prog.allRuns_ret.mpr trivial
    · exact Prog.allRuns_ret.mpr trivial
  unfold letsSendAllThatNow
  refine hasks.bind fun _ answer _ => ?_
  exact (sendAllDataToServer_origin hz hlist answer).bind fun _ _ _ => Prog.allRuns_ret.mpr rfl

/-- The lists of a file are handed over. -/
theorem handOver_origin (hz : z.Writes) {main : MainStruct} (lists : List (List HashData)) :
    ∀ savedList : List HashData, (∀ list ∈ lists, ∀ hd ∈ list, BlockOf sha256 z file hd) →
      (handOver main lists savedList).AllRuns (OpOf sha256 z file) fun _ saved =>
        saved = lists.reverse.flatten.map copyOnlyHash ++ savedList := by
  induction lists with
  | nil => exact fun savedList _ => Prog.allRuns_ret.mpr rfl
  | cons list lists ih =>
    intro savedList hlists
    obtain ⟨hlist, hlists⟩ := List.forall_mem_cons.mp hlists
    rw [handOver]
    refine (letsSendAllThatNow_origin hz hlist savedList).bind ?_
    rintro _ _ rfl
    refine (ih _ hlists).mono fun _ saved hsaved => ?_
    rw [hsaved, List.reverse_cons, List.flatten_append, List.flatten_singleton, List.map_append, List.append_assoc]

/-! ## The record -/

/-- `send_meta_data_to_server`: the record is accepted or kept when it can be written. -/
theorem sendMetaDataToServer_origin (hsaved : file.Saved) {list : List HashData} (hhashed : AllHashed list)
    (hwhole : file.ReadWhole → HashsAre list (file.blockHashs sha256)) {dataSent : Bool}
    (hdataSent : decide (CLIENT_SMALL_FILE_SIZE ≤ file.metaData.size) = dataSent) :
    (sendMetaDataToServer file.main { file.metaData with hashDataList := list } dataSent).AllRuns (OpOf sha256 z file)
      fun trace _ => file.Writable → RecordKept sha256 file trace := by
  subst hdataSent
  obtain ⟨hs, hhs⟩ := hhashed.exists_hashs
  have hwritten := record_written_iff hhs (Eq.refl (decide (CLIENT_SMALL_FILE_SIZE ≤ file.metaData.size)))
  generalize hbody? : convertMetaDataToJsonString { file.metaData with hashDataList := list } (some file.main.hostname)
    (decide (CLIENT_SMALL_FILE_SIZE ≤ file.metaData.size)) = body? at hwritten
  have hrequest : ∀ body, body? = some body → RequestOf sha256 z file "/Meta.json" body ∧
      ∃ smeta ∈ recordsOf "/Meta.json" body, RecordOf sha256 file smeta := by
    rintro body rfl
    exact requestOf_meta hsaved hhashed hwhole hbody?
  -- an event that accepts or keeps the body keeps the record
  have hkept : ∀ e : ClientEvent, e.op.request = body?.map (fun body => ("/Meta.json", body)) → acceptedOrKept e →
      ∀ trace, e ∈ trace → file.Writable → RecordKept sha256 file trace := by
    intro e hop haccepted trace he hwritable
    obtain ⟨body, rfl⟩ := Option.ne_none_iff_exists'.mp (hwritten.mpr hwritable)
    obtain ⟨smeta, hsmeta, hrecord⟩ := (hrequest body rfl).2
    exact ⟨e, he, haccepted, smeta, ⟨_, body, hop, hsmeta⟩, hrecord⟩
  have hop : ∀ op : ClientOp, op.request = body?.map (fun body => ("/Meta.json", body)) → OpOf sha256 z file op :=
    fun op hop => opOf_of_body hop fun body hbody => (hrequest body hbody).1
  unfold sendMetaDataToServer
  rw [hbody?]
  refine Prog.allRuns_call.mpr ⟨hop _ rfl, ?_⟩
  rintro (_ | answer)
  · refine Prog.allRuns_call.mpr ⟨hop _ rfl, fun answer => Prog.allRuns_ret.mpr ?_⟩
    exact hkept ⟨.dbSaveBuffer "/Meta.json" body? list, answer⟩ rfl trivial _ (by simp)
  · exact Prog.allRuns_ret.mpr (hkept ⟨.postUrl "/Meta.json" body? list, some answer⟩ rfl ⟨answer, rfl⟩ _ (by simp))

/-- Something is done after the record was sent. -/
theorem recordKept_append {trace : List ClientEvent} (h : file.Writable → RecordKept sha256 file trace)
    (before after : List ClientEvent) : file.Writable → RecordKept sha256 file (before ++ (trace ++ after)) :=
  fun hwritable => RecordKept.mono (h hwritable) fun _ he => List.mem_append_right _ (List.mem_append_left _ he)

/-- `process_small_file_not_in_cache`. -/
theorem processSmallFileNotInCache_origin (hz : z.Writes) (hsaved : file.Saved)
    (hsmall : file.metaData.size < CLIENT_SMALL_FILE_SIZE) :
    (processSmallFileNotInCache sha256 z file.main file.metaData file.source).AllRuns (OpOf sha256 z file)
      fun trace _ => file.Writable → RecordKept sha256 file trace := by
  obtain ⟨list, hlist⟩ : ∃ list, (if file.metaData.fileType = G_FILE_TYPE_REGULAR then
    calculateHashDataListForFile sha256 z file.source file.main.cmptype else file.metaData.hashDataList) = list := ⟨_, rfl⟩
  have hspec : (∀ hd ∈ list, BlockOf sha256 z file hd) ∧ (file.ReadWhole → HashsAre list (file.blockHashs sha256)) := by
    rw [← hlist, file.noHashs, calculateHashDataListForFile_eq]
    refine ⟨fun hd hhd => ?_, ?_⟩
    · split_ifs at hhd
      · obtain ⟨buffer, hbuffer, rfl⟩ := List.mem_map.mp hhd
        exact ⟨buffer, hbuffer, rfl⟩
      · exact absurd hhd List.not_mem_nil
      · exact absurd hhd List.not_mem_nil
    · rintro ⟨hopens, hreads, hregular⟩
      rw [if_pos (hregular hsmall), if_pos ⟨hopens, hreads⟩]
      exact hashsAre_map sha256 _ _
  have hblocks := allBlocks_of_blockOf hz hspec.1
  have hhashed : AllHashed list := fun hd hhd => by
    obtain ⟨h, bytes, hblock, _⟩ := hblocks hd hhd
    exact ⟨h, hblock.hash⟩
  unfold processSmallFileNotInCache
  simp only [hlist, Prog.bind_eq]
  refine (sendMetaDataToServer_origin hsaved hhashed hspec.2 (by simpa using hsmall)).bind fun trace answer hkept => ?_
  have hfinish : ∀ list' : List HashData, (ClientProg.dbSaveMetaData { file.metaData with hashDataList := list' } true).AllRuns
      (OpOf sha256 z file) fun _ _ => True := fun list' =>
    Prog.allRuns_call.mpr ⟨opOf_of_noRequest rfl, fun _ => Prog.allRuns_ret.mpr trivial⟩
  split
  · refine (sendDataToServer_origin hz hspec.1 answer).bind fun _ list' _ => (hfinish list').mono fun _ _ _ => ?_
    exact recordKept_append hkept [] _
  · refine (sendAllDataToServer_origin hz hspec.1 answer).bind fun _ list' _ => (hfinish list').mono fun _ _ _ => ?_
    exact recordKept_append hkept [] _

/-- `process_big_file_not_in_cache`. -/
theorem processBigFileNotInCache_origin (hz : z.Writes) (hsaved : file.Saved)
    (hbig : ¬ file.metaData.size < CLIENT_SMALL_FILE_SIZE) :
    (processBigFileNotInCache sha256 z file.main file.metaData file.source).AllRuns (OpOf sha256 z file)
      fun trace _ => file.Writable → RecordKept sha256 file trace := by
  have hlists : ∀ list ∈ file.source.handed sha256 z file.main, ∀ hd ∈ list, BlockOf sha256 z file hd :=
    SendingAux.mem_handed
  have hstream : (processStream sha256 z file.main file.source).AllRuns (OpOf sha256 z file) fun _ saved =>
      AllHashed saved ∧ (file.ReadWhole → HashsAre saved (file.blockHashs sha256)) := by
    rw [processStream_eq]
    refine (handOver_origin hz _ [] hlists).bind ?_
    rintro _ _ rfl
    rw [List.append_nil]
    refine Prog.allRuns_ret.mpr ⟨?_, ?_⟩
    · -- the hashs are those of blocks of the file
      have hall : AllHashed ((file.source.handed sha256 z file.main).reverse.flatten.map copyOnlyHash) := by
        intro hd hhd
        obtain ⟨hd', hhd', rfl⟩ := List.mem_map.mp hhd
        obtain ⟨list, hlist, hmem⟩ := List.mem_flatten.mp hhd'
        obtain ⟨h, bytes, hblock, _⟩ := allBlocks_of_blockOf hz (hlists list (List.mem_reverse.mp hlist)) hd' hmem
        exact ⟨h, by simp [copyOnlyHash, newHashDataAsIs, hblock.hash, List.take_of_length_le (le_of_eq h.length_eq)]⟩
      split
      · exact hall
      · exact fun hd hhd => hall hd (List.mem_reverse.mp hhd)
    · rintro ⟨hopens, hreads, _⟩
      have hread : file.source.handed sha256 z file.main = handedLists sha256 z file.main false file.source.blocks [] 0 := by
        simp [FileSource.handed, hopens, hreads, FileSource.reads]
      have hflatten := @flatten_handedLists sha256 z file.main _ file.source.blocks_len [] 0 (by decide) fun hne => absurd rfl hne
      rw [List.reverse_nil, List.nil_append] at hflatten
      rw [hreads, Option.isSome_none, if_neg Bool.false_ne_true, hread, ← List.map_reverse, List.reverse_flatten, List.map_reverse,
        List.reverse_reverse, hflatten]
      exact hashsAre_copyOnlyHash (hashsAre_map sha256 _ _)
  unfold processBigFileNotInCache
  refine hstream.bind fun before saved hsavedList => ?_
  refine (sendMetaDataToServer_origin hsaved hsavedList.1 hsavedList.2 (by simpa using hbig)).bind fun trace answer hkept => ?_
  rcases answer with _ | answer
  · exact Prog.allRuns_ret.mpr (recordKept_append hkept _ _)
  · exact Prog.allRuns_call.mpr ⟨opOf_of_noRequest rfl, fun _ => Prog.allRuns_ret.mpr (recordKept_append hkept _ _)⟩

/-- `save_one_file`: every request is made for the file, and when it ends the record of a file that is saved was accepted or kept. -/
theorem saveOneFile_origin (hz : z.Writes) (file : FileToSave) :
    (saveOneFile sha256 z file).AllRuns (OpOf sha256 z file) fun trace _ =>
      file.Saved → file.Writable → RecordKept sha256 file trace := by
  have hprocess : file.excluded = false → (processFile sha256 z file.main file.metaData file.source).AllRuns (OpOf sha256 z file)
      fun trace _ => file.metaData.inCache = false → file.Writable → RecordKept sha256 file trace := by
    intro hexcluded
    unfold processFile
    split
    · rename_i hout
      split
      · rename_i hsmall
        exact (processSmallFileNotInCache_origin hz ⟨hexcluded, hout⟩ hsmall).mono fun _ _ h _ => h
      · rename_i hbig
        exact (processBigFileNotInCache_origin hz ⟨hexcluded, hout⟩ hbig).mono fun _ _ h _ => h
    · rename_i hin
      exact Prog.allRuns_ret.mpr fun hout => absurd hout hin
  unfold saveOneFile
  split
  · rename_i hexcluded
    refine (hprocess hexcluded).bind fun trace _ hkept => ?_
    split
    · exact Prog.allRuns_call.mpr ⟨opOf_of_noRequest rfl, fun _ => Prog.allRuns_ret.mpr fun hsaved =>
        recordKept_append (hkept hsaved.2) [] _⟩
    · exact Prog.allRuns_ret.mpr fun hsaved => recordKept_append (hkept hsaved.2) [] _
  · rename_i hexcluded
    exact Prog.allRuns_ret.mpr fun hsaved => absurd hsaved.1 hexcluded

end OriginAux

end Sauvegarde
