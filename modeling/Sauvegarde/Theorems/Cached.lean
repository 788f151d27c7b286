import Sauvegarde.Client.Files
import Sauvegarde.Theorems.Saving

/-!
# Cached means saved

A file that is entered in the local cache is never tried again. Over every run of `save_one_file`, with every outcome of reading and
of every post: when the entry is made, are the record and the blocks of the file saved?
-/

namespace Sauvegarde

namespace FileToSave

/-- Whether `convert_meta_data_to_json_string` can write the record: every name in it is UTF-8. -/
def Writable (file : FileToSave) : Prop :=
  convertMetaDataToJsonString file.metaData (some file.main.hostname)
    (decide (CLIENT_SMALL_FILE_SIZE ≤ file.metaData.size)) ≠ none

end FileToSave

/-- In every run, at the time `db_save_meta_data` enters the file in the cache: a record with the hashs of all its blocks, in their
order, was accepted or stored with `db_save_buffer`, and every block was not needed, accepted, or stored with `db_save_buffer`. -/
def CachedMeansSaved (backend : Option FileBackend) (sha256 : Bytes → Hash) (z : Zlib) (file : FileToSave) : Prop :=
  ∀ (before after : List ClientEvent) (metaData : MetaData) (onlyMeta : Bool) (left : ClientProg Unit),
    Prog.Steps (saveOneFile sha256 z file) (before ++ ⟨.dbSaveMetaData metaData onlyMeta, ()⟩ :: after) left →
    (∀ e ∈ before, AnswerOk backend e.op e.res) →
    RecordSaved before (file.blockHashs sha256) ∧ ∀ h ∈ file.blockHashs sha256, h ∈ accounted before

namespace CachedAux

open SavingAux

/-- Whether a record is written does not depend on its hashs. -/
theorem written_congr {metaData : MetaData} {list : List HashData} {hs hs' : List Hash}
    (h : HashsAre metaData.hashDataList hs) (h' : HashsAre list hs') (hostname : Option CString) (dataSent : Bool) :
    convertMetaDataToJsonString { metaData with hashDataList := list } hostname dataSent ≠ none ↔
      convertMetaDataToJsonString metaData hostname dataSent ≠ none := by
  have hbase : ∃ base : Json, ∀ l, convertMetaDataToJson { metaData with hashDataList := l } hostname dataSent =
      base.set "hash_list" (convertHashListToJson l) := by
    constructor
    intro l
    dsimp only [convertMetaDataToJson]
    exact rfl
  obtain ⟨base, hbase⟩ := hbase
  have hwritten : ∀ {l : List HashData} {gs : List Hash}, HashsAre l gs → (convertHashListToJson l).wellEncoded = true := by
    intro l gs hl
    rw [convertHashListToJson_eq hl, Json.wellEncoded, Json.wellEncodedAll_iff]
    intro v hv
    obtain ⟨g, _, rfl⟩ := List.mem_map.mp hv
    exact Json.wellEncoded_base64Text g.bytes
  have hdumps : ∀ root : Json, root.dumps ≠ none ↔ root.wellEncoded = true := by
    intro root
    unfold Json.dumps
    split <;> simp [*]
  simp only [convertMetaDataToJsonString, hdumps, hbase]
  exact ⟨fun hset => Json.wellEncoded_set_congr hset (hwritten h), fun hset => Json.wellEncoded_set_congr hset (hwritten h')⟩

/-- The record and the blocks of a file are saved, and nothing is owed. -/
structure Saved (history history' : List ClientEvent) (hs : List Hash) (written : Prop) : Prop where
  sent : Sent history history' hs written
  blocks : ∀ h ∈ hs, h ∈ accounted history'
  nothingOwed : Carries history' ∅

/-- A record is sent, then the blocks that the answer selects are sent: the file is saved. -/
theorem Saved.of_sent {history middle history' : List ClientEvent} {hs : List Hash} {written : Prop} {picked : List HashData}
    (hcarries : Carries history ∅) (hsent : Sent history middle hs written)
    (hselects : ∀ h ∈ hs, h ∈ accounted middle ∨ h ∈ heldHashs picked)
    (hprogress : Progress middle history' (heldHashs picked)) : Saved history history' hs written := by
  have hblocks : ∀ h ∈ hs, h ∈ accounted history' := by
    intro h hh
    rcases hselects h hh with hh | hh
    · exact hprogress.mono h hh
    · exact hprogress.blocks h hh
  refine ⟨hsent.before hprogress, hblocks, fun h hh => Or.inl ?_⟩
  rw [hprogress.recorded_eq] at hh
  rcases hsent.recorded h hh with hh | hh
  · exact hprogress.mono h (hsent.mono h (hcarries.settled hh))
  · exact hblocks h hh

/-- The file was saved, then it was entered in the cache. -/
def Cached (history history' : List ClientEvent) (hs : List Hash) (written : Prop) : Prop :=
  ∃ middle metaData, Saved history middle hs written ∧ history' = middle ++ [⟨.dbSaveMetaData metaData true, ()⟩]

/-- An operation without a request is allowed when nothing is owed. -/
theorem allowed_of_noRequest {cachedWhen : List ClientEvent → Prop} {history : List ClientEvent} {op : ClientOp}
    (hrequest : op.request = none) (hcrash : op ≠ .crash) (hcarries : Carries history ∅)
    (hcached : ∀ metaData onlyMeta, op = .dbSaveMetaData metaData onlyMeta → cachedWhen history) :
    Allowed cachedWhen history op := by
  refine ⟨hcrash, ?_, fun url body h => absurd (hrequest.symm.trans h) (by simp), hcached⟩
  rintro h (hh | ⟨smeta, ⟨url, body, hsome, _⟩, _⟩)
  · exact Or.inl (hcarries.settled hh)
  · exact absurd (hrequest.symm.trans hsome) (by simp)

/-- After an operation without a request nothing more is owed. -/
theorem carries_of_noRequest {history : List ClientEvent} {op : ClientOp} (answer : ClientRes op)
    (hrequest : op.request = none) (hcarries : Carries history ∅) : Carries (history ++ [⟨op, answer⟩]) ∅ := by
  intro h hh
  rw [recorded_append] at hh
  rw [accounted_append]
  rcases hh with hh | hh
  · exact (hcarries h hh).imp_left Or.inl
  · obtain ⟨smeta, ⟨url, body, hsome, _⟩, _⟩ := (mem_recorded_singleton _ _).mp hh
    exact absurd (hrequest.symm.trans hsome) (by simp)

section

variable {backend : Option FileBackend} {cachedWhen : List ClientEvent → Prop} {sha256 : Bytes → Hash} {z : Zlib}

/-- The entry in the cache is made when nothing is owed any more. -/
theorem wp_dbSaveMetaData {history history' : List ClientEvent} {hs : List Hash} {written : Prop}
    (hsaved : Saved history history' hs written) (hcached : cachedWhen history') (metaData : MetaData) :
    (ClientProg.dbSaveMetaData metaData true).wp (savingRules backend cachedWhen)
      (fun _ history'' => Cached history history'' hs written) history' :=
  ⟨allowed_of_noRequest rfl (by simp) hsaved.nothingOwed fun _ _ _ => hcached, fun _ _ => ⟨history', metaData, hsaved, rfl⟩⟩

/-! ## Small files -/

/-- The list of a file that is read to its end is that of its blocks; otherwise it is empty. -/
theorem calculateHashDataListForFile_eq (source : FileSource) (cmptype : Int16) :
    calculateHashDataListForFile sha256 z source cmptype =
      if source.opens = true ∧ source.failsAfter = none then source.blocks.map (hashDataOfBuffer sha256 z cmptype) else [] := by
  unfold calculateHashDataListForFile
  cases hopens : source.opens <;> cases hfails : source.failsAfter <;>
    simp [prependBlocks_eq, FileSource.reads, hfails]

/-- Whether the record of a file is written does not depend on the hashs that it gets. -/
theorem record_written_iff {file : FileToSave} {list : List HashData} {hs : List Hash} (h : HashsAre list hs) {dataSent : Bool}
    (hdataSent : decide (CLIENT_SMALL_FILE_SIZE ≤ file.metaData.size) = dataSent) :
    convertMetaDataToJsonString { file.metaData with hashDataList := list } (some file.main.hostname) dataSent ≠ none ↔
      file.Writable := by
  have hnoHashs : HashsAre file.metaData.hashDataList [] := by
    rw [file.noHashs]
    rfl
  rw [FileToSave.Writable, hdataSent]
  exact written_congr hnoHashs h _ _

/-- The list of a small file has the hashs of its record, and fits the counter when it is sent in arrays. -/
theorem smallFileList_spec (hz : z.Writes) {file : FileToSave} (hsmall : file.metaData.size < CLIENT_SMALL_FILE_SIZE)
    (hcounter : file.CounterFits sha256 z) {list : List HashData}
    (hlist : (if file.metaData.fileType = G_FILE_TYPE_REGULAR then
      calculateHashDataListForFile sha256 z file.source file.main.cmptype else file.metaData.hashDataList) = list) :
    AllBlocks list ∧ HashsAre list (file.recordHashs sha256) ∧
      (¬ file.metaData.size < file.metaData.blocksize.toUInt64 → FitsCounter file.main.buffersize.toInt list) := by
  have hnil : FitsCounter file.main.buffersize.toInt [] := by
    intro selection hselection
    rw [List.sublist_nil.mp hselection]
    trivial
  unfold FileToSave.recordHashs
  rw [if_pos hsmall, ← hlist]
  by_cases hregular : file.metaData.fileType = G_FILE_TYPE_REGULAR
  · rw [if_pos hregular]
    have hhanded : ¬ file.metaData.size < file.metaData.blocksize.toUInt64 →
        FitsCounter file.main.buffersize.toInt (calculateHashDataListForFile sha256 z file.source file.main.cmptype) := by
      intro hmany
      refine hcounter _ ?_
      rw [FileToSave.handed, if_pos hsmall, if_neg (by simp [hregular, hmany])]
      exact List.mem_singleton_self _
    rw [calculateHashDataListForFile_eq] at hhanded ⊢
    by_cases hread : file.source.opens = true ∧ file.source.failsAfter = none
    · rw [if_pos hread] at hhanded ⊢
      rw [if_pos ⟨hregular, hread⟩]
      exact ⟨allBlocks_map sha256 hz file.main.cmptype_allowed file.source.blocks_len, hashsAre_map sha256 _ _, hhanded⟩
    · rw [if_neg hread, if_neg fun h => hread h.2]
      exact ⟨allBlocks_nil, rfl, fun _ => hnil⟩
  · rw [if_neg hregular, if_neg fun h => hregular h.1, file.noHashs]
    exact ⟨allBlocks_nil, rfl, fun _ => hnil⟩

/-- `process_small_file_not_in_cache`. -/
theorem wp_processSmallFileNotInCache (hz : z.Writes) {file : FileToSave} {history : List ClientEvent}
    (hsmall : file.metaData.size < CLIENT_SMALL_FILE_SIZE) (hcounter : file.CounterFits sha256 z)
    (hcarries : Carries history ∅)
    (hcached : ∀ history', Saved history history' (file.recordHashs sha256) file.Writable → cachedWhen history') :
    (processSmallFileNotInCache sha256 z file.main file.metaData file.source).wp (savingRules backend cachedWhen)
      (fun _ history' => Cached history history' (file.recordHashs sha256) file.Writable) history := by
  obtain ⟨list, hlist⟩ : ∃ list, (if file.metaData.fileType = G_FILE_TYPE_REGULAR then
    calculateHashDataListForFile sha256 z file.source file.main.cmptype else file.metaData.hashDataList) = list := ⟨_, rfl⟩
  obtain ⟨hblocks, hhashs, hfits⟩ := smallFileList_spec hz hsmall hcounter hlist
  have hwritten := record_written_iff hhashs (show decide (CLIENT_SMALL_FILE_SIZE ≤ file.metaData.size) = false by simpa using hsmall)
  unfold processSmallFileNotInCache
  simp only [hlist]
  refine Prog.wp_seq (wp_sendMetaDataToServer hhashs hcarries (Or.inr ⟨rfl, hblocks⟩)) ?_
  rintro answer middle ⟨hsent, text, rfl, hselects⟩
  obtain ⟨picked, hpicked, hsub, hselects⟩ := hselects rfl hblocks
  have howed : Carries middle (heldHashs picked) := by
    intro h hh
    rcases hsent.recorded h hh with hh | hh
    · exact Or.inl (hsent.mono h (hcarries.settled hh))
    · exact hselects h hh
  have hfinish : ∀ (list' : List HashData) history', Progress middle history' (heldHashs picked) →
      (ClientProg.dbSaveMetaData { file.metaData with hashDataList := list' } true).wp (savingRules backend cachedWhen)
        (fun _ history'' => Cached history history'' (file.recordHashs sha256) file.Writable) history' := by
    intro list' history' hprogress
    have hsaved := Saved.of_sent hcarries (hsent.congr hwritten) hselects hprogress
    exact wp_dbSaveMetaData hsaved (hcached history' hsaved) _
  dsimp only [Prog.bind_eq]
  split
  · exact Prog.wp_seq (wp_sendDataToServer hblocks hpicked howed) hfinish
  · rename_i hmany
    exact Prog.wp_seq (wp_sendAllDataToServer hblocks hpicked hsub (hfits hmany) howed) hfinish

/-! ## Big files -/

/-- The hashs of a copy without the data. -/
theorem hashsAre_copyOnlyHash {list : List HashData} {hs : List Hash} (h : HashsAre list hs) :
    HashsAre (list.map copyOnlyHash) hs := by
  have hcopy : ∀ hd ∈ list, (copyOnlyHash hd).hash = hd.hash := by
    intro hd hhd
    obtain ⟨g, hg⟩ := h.allHashed hd hhd
    simp [copyOnlyHash, newHashDataAsIs, hg, List.take_of_length_le (le_of_eq g.length_eq)]
  rw [HashsAre, List.map_map, ← show list.map HashData.hash = _ from h]
  exact List.map_congr_left hcopy

/-- Two lists, one behind the other. -/
theorem hashsAre_append {list list' : List HashData} {hs hs' : List Hash} (h : HashsAre list hs) (h' : HashsAre list' hs') :
    HashsAre (list ++ list') (hs ++ hs') := by
  rw [HashsAre, List.map_append, List.map_append, show list.map HashData.hash = _ from h,
    show list'.map HashData.hash = _ from h']

/-- Where the loop of `process_big_file_not_in_cache` is: `pending` are the blocks that were read and not handed over, `flushed`
those that were. -/
structure Reading (sha256 : Bytes → Hash) (pending flushed : List Bytes) (list saved : List HashData) (readBytes : UInt64)
    (history : List ClientEvent) : Prop where
  blocks : AllBlocks list
  list : HashsAre list (pending.map sha256).reverse
  saved : HashsAre saved (flushed.map sha256).reverse
  accounted : ∀ h ∈ flushed.map sha256, h ∈ accounted history
  counted : pending ≠ [] → 0 < readBytes.toNat
  notFull : readBytes.toNat < 2 ^ 31

/-- Before the first buffer. -/
theorem Reading.start (sha256 : Bytes → Hash) (history : List ClientEvent) : Reading sha256 [] [] [] [] 0 history where
  blocks := allBlocks_nil
  list := rfl
  saved := rfl
  accounted := fun _ hh => absurd hh List.not_mem_nil
  counted := fun hne => absurd rfl hne
  notFull := by decide

/-- A buffer that was read becomes a block, in front of the others. -/
theorem Reading.joined (hz : z.Writes) {cmptype : Int16} (hallowed : isCompressTypeAllowed cmptype = true)
    {pending flushed : List Bytes} {list saved : List HashData} {readBytes : UInt64} {history : List ClientEvent}
    (h : Reading sha256 pending flushed list saved readBytes history) {buffer : Bytes}
    (hbuffer : 0 < buffer.length ∧ buffer.length < 2 ^ 63) :
    AllBlocks (hashDataOfBuffer sha256 z cmptype buffer :: list) ∧
      HashsAre (hashDataOfBuffer sha256 z cmptype buffer :: list) ((pending ++ [buffer]).map sha256).reverse := by
  obtain ⟨bytes, hblock, hbytes⟩ := isBlock_hashDataOfBuffer sha256 hz hallowed hbuffer
  refine ⟨List.forall_mem_cons.mpr ⟨⟨_, bytes, hblock, hbytes⟩, h.blocks⟩, ?_⟩
  have hcons := hashsAre_append (@hashsAre_map sha256 z cmptype [buffer]) h.list
  simpa using hcons

/-- It waits for others when the client does not send yet. -/
theorem Reading.pend {main : MainStruct} {pending flushed : List Bytes} {list list' saved : List HashData} {readBytes : UInt64}
    {history : List ClientEvent} (h : Reading sha256 pending flushed list saved readBytes history) {buffer : Bytes}
    (hbuffer : 0 < buffer.length ∧ buffer.length < 2 ^ 63) (hblocks : AllBlocks list')
    (hlist : HashsAre list' ((pending ++ [buffer]).map sha256).reverse)
    (hfull : ¬ main.isFull (readBytes + UInt64.ofNat buffer.length) = true) :
    Reading sha256 (pending ++ [buffer]) flushed list' saved (readBytes + UInt64.ofNat buffer.length) history := by
  have hsum := toNat_readBytes h.notFull hbuffer.2
  have hlt := main.buffersize.toInt_lt
  rw [isFull_iff] at hfull
  exact ⟨hblocks, hlist, h.saved, h.accounted, fun _ => by omega, by omega⟩

/-- Everything that waits is handed over. -/
theorem Reading.flush {pending flushed : List Bytes} {list list' saved : List HashData} {readBytes : UInt64}
    {history middle : List ClientEvent} (h : Reading sha256 pending flushed list saved readBytes history) {buffer : Bytes}
    (hlist : HashsAre list' ((pending ++ [buffer]).map sha256).reverse)
    (hprogress : Progress history middle {g | g ∈ ((pending ++ [buffer]).map sha256).reverse}) :
    Reading sha256 [] (flushed ++ (pending ++ [buffer])) [] (list'.map copyOnlyHash ++ saved) 0 middle where
  blocks := allBlocks_nil
  list := rfl
  saved := by
    rw [List.map_append, List.reverse_append]
    exact hashsAre_append (hashsAre_copyOnlyHash hlist) h.saved
  accounted := by
    intro g hg
    rw [List.map_append, List.mem_append] at hg
    rcases hg with hg | hg
    · exact hprogress.mono g (h.accounted g hg)
    · exact hprogress.blocks g (List.mem_reverse.mpr hg)
  counted := fun hne => absurd rfl hne
  notFull := by decide

/-- The loop of `process_big_file_not_in_cache`. -/
theorem wp_processBlocks (hz : z.Writes) {main : MainStruct} {failed : Bool} {reads : List Bytes}
    (hreads : ∀ buffer ∈ reads, 0 < buffer.length ∧ buffer.length < 2 ^ 63) :
    ∀ {pending flushed : List Bytes} {list saved : List HashData} {readBytes : UInt64} {history : List ClientEvent},
      Reading sha256 pending flushed list saved readBytes history →
      (∀ batch ∈ handedLists sha256 z main failed reads list readBytes, FitsCounter main.buffersize.toInt batch) →
      Carries history ∅ →
      (processBlocks sha256 z main reads list saved readBytes).wp (savingRules backend cachedWhen)
        (fun result history' => Progress history history' ∅ ∧
          (failed = false → 0 < result.2.2 → FitsCounter main.buffersize.toInt result.1) ∧
          ∃ rest, pending ++ reads = flushedReads main reads pending readBytes ++ rest ∧
            Reading sha256 rest (flushed ++ flushedReads main reads pending readBytes) result.1 result.2.1 result.2.2 history')
        history := by
  induction reads with
  | nil =>
    intro pending flushed list saved readBytes history h hfits _
    refine ⟨Progress.refl fun g hg => absurd hg (Set.notMem_empty g), fun hfailed hpos => ?_, pending, by simp [flushedReads], ?_⟩
    · refine hfits list ?_
      rw [handedLists, if_pos ⟨hfailed, hpos⟩]
      exact List.mem_singleton_self list
    · rwa [flushedReads, List.append_nil]
  | cons buffer reads ih =>
    intro pending flushed list saved readBytes history h hfits hcarries
    obtain ⟨hbuffer, hreads⟩ := List.forall_mem_cons.mp hreads
    obtain ⟨hblocks, hlist⟩ := h.joined hz main.cmptype_allowed hbuffer
    unfold processBlocks
    unfold handedLists at hfits
    unfold flushedReads
    dsimp only at hfits ⊢
    split
    · -- the buffer is full: everything that was read so far is handed over
      rename_i hfull
      rw [if_pos hfull] at hfits
      refine Prog.wp_seq (wp_letsSendAllThatNow hblocks hlist (hfits _ List.mem_cons_self) hcarries) ?_
      rintro saved' middle ⟨rfl, hprogress⟩
      have hcarries' : Carries middle ∅ := hcarries.progress hprogress fun g hg => absurd hg (Set.notMem_empty g)
      have hbatches := fun batch hbatch => hfits batch (List.mem_cons_of_mem _ hbatch)
      refine Prog.wp_mono (ih hreads (h.flush hlist hprogress) hbatches hcarries') ?_
      rintro result history' ⟨hprogress', hlast, rest, hrest, hreading'⟩
      refine ⟨(hprogress.trans hprogress').subset fun g hg => absurd hg (Set.notMem_empty g), hlast, rest, ?_, ?_⟩
      · rw [List.nil_append] at hrest
        rw [List.append_assoc, List.cons_append, ← hrest]
      · simpa using hreading'
    · rename_i hfull
      rw [if_neg hfull] at hfits
      refine Prog.wp_mono (ih hreads (h.pend hbuffer hblocks hlist hfull) hfits hcarries) ?_
      rintro result history' ⟨hprogress, hlast, rest, hrest, hreading'⟩
      refine ⟨hprogress, hlast, rest, ?_, hreading'⟩
      rw [← hrest]
      simp

/-- A list turned over. -/
theorem hashsAre_reverse {list : List HashData} {hs : List Hash} (h : HashsAre list hs) : HashsAre list.reverse hs.reverse := by
  rw [HashsAre, List.map_reverse, List.map_reverse, show list.map HashData.hash = _ from h]

/-- The reading part of `process_big_file_not_in_cache`: the list has the hashs of the record, and their blocks are accounted for. -/
theorem wp_processStream (hz : z.Writes) {file : FileToSave} {history : List ClientEvent}
    (hbig : ¬ file.metaData.size < CLIENT_SMALL_FILE_SIZE) (hcounter : file.CounterFits sha256 z)
    (hcarries : Carries history ∅) :
    (processStream sha256 z file.main file.source).wp (savingRules backend cachedWhen)
      (fun saved history' => HashsAre saved (file.recordHashs sha256) ∧
        Progress history history' {h | h ∈ file.recordHashs sha256}) history := by
  have hempty : ∀ {h : Hash}, h ∈ (∅ : Set Hash) → False := fun h => h
  have hreads : ∀ buffer ∈ file.source.reads, 0 < buffer.length ∧ buffer.length < 2 ^ 63 :=
    fun buffer hbuffer => file.source.blocks_len buffer (file.source.mem_blocks_of_mem_reads hbuffer)
  unfold processStream FileToSave.recordHashs
  unfold FileToSave.CounterFits FileToSave.handed at hcounter
  rw [if_neg hbig] at hcounter ⊢
  split
  · rename_i hopens
    rw [if_pos hopens] at hcounter
    refine Prog.wp_seq (wp_processBlocks hz hreads (Reading.start sha256 history) hcounter hcarries) ?_
    rintro ⟨list, saved, readBytes⟩ middle ⟨hprogress, hlast, rest, hrest, hreading⟩
    simp only [List.nil_append] at hrest hreading
    have hflushed : ∀ h ∈ (flushedReads file.main file.source.reads [] 0).map sha256, h ∈ accounted middle := hreading.accounted
    dsimp only
    split
    · -- a read failed: what was flushed is recorded, the last block first
      rename_i hfailed
      rw [if_neg (by simpa [Option.isSome_iff_ne_none] using hfailed)]
      exact ⟨hreading.saved, hprogress.grows, fun h hh => hflushed h (List.mem_reverse.mp hh)⟩
    · rename_i hread
      have hnone : file.source.failsAfter = none := by simpa using hread
      rw [if_pos hnone]
      have hblocks : file.blockHashs sha256 =
          (flushedReads file.main file.source.reads [] 0).map sha256 ++ rest.map sha256 := by
        rw [← List.map_append, ← hrest, FileToSave.blockHashs, FileSource.reads, hnone]
      rw [hblocks]
      split
      · rename_i hpos
        have hcarries' : Carries middle ∅ := hcarries.progress hprogress fun h hh => (hempty hh).elim
        refine Prog.wp_seq (wp_letsSendAllThatNow hreading.blocks hreading.list (hlast (by simpa using hread) hpos) hcarries') ?_
        rintro saved' history' ⟨rfl, hprogress'⟩
        refine ⟨?_, (hprogress.trans hprogress').grows, fun h hh => ?_⟩
        · simpa using hashsAre_reverse (hashsAre_append (hashsAre_copyOnlyHash hreading.list) hreading.saved)
        · rcases List.mem_append.mp hh with hh | hh
          · exact hprogress'.mono h (hflushed h hh)
          · exact hprogress'.blocks h (List.mem_reverse.mpr hh)
      · rename_i hzero
        have hnil : rest = [] := by
          by_contra hne
          exact hzero (UInt64.lt_iff_toNat_lt.mpr (hreading.counted hne))
        subst hnil
        refine ⟨by simpa using hashsAre_reverse hreading.saved, hprogress.grows, fun h hh => ?_⟩
        rw [List.map_nil, List.append_nil] at hh
        exact hflushed h hh
  · rename_i hopens
    exact ⟨rfl, Progress.refl fun h hh => absurd hh List.not_mem_nil⟩

/-- `process_big_file_not_in_cache`. -/
theorem wp_processBigFileNotInCache (hz : z.Writes) {file : FileToSave} {history : List ClientEvent}
    (hbig : ¬ file.metaData.size < CLIENT_SMALL_FILE_SIZE) (hcounter : file.CounterFits sha256 z)
    (hcarries : Carries history ∅)
    (hcached : ∀ history', Saved history history' (file.recordHashs sha256) file.Writable → cachedWhen history') :
    (processBigFileNotInCache sha256 z file.main file.metaData file.source).wp (savingRules backend cachedWhen)
      (fun _ history' => Cached history history' (file.recordHashs sha256) file.Writable) history := by
  unfold processBigFileNotInCache
  refine Prog.wp_seq (wp_processStream hz hbig hcounter hcarries) ?_
  rintro saved middle ⟨hhashs, hprogress⟩
  have hwritten := record_written_iff hhashs (show decide (CLIENT_SMALL_FILE_SIZE ≤ file.metaData.size) = true by simpa using hbig)
  have hcarries' : Carries middle ∅ :=
    fun h hh => Or.inl (hprogress.mono h (hcarries.settled (hprogress.recorded_eq ▸ hh)))
  refine Prog.wp_seq (wp_sendMetaDataToServer hhashs hcarries' (Or.inl hprogress.blocks)) ?_
  rintro answer history' ⟨hsent, text, rfl, _⟩
  have hsaved : Saved history history' (file.recordHashs sha256) file.Writable := by
    have hmiddle := @Saved.of_sent middle history' history' _ _ [] hcarries' (hsent.congr hwritten)
      (fun h hh => Or.inl (hsent.mono h (hprogress.blocks h hh)))
      (Progress.refl fun h hh => absurd hh (not_mem_heldHashs_nil h))
    exact ⟨hmiddle.sent.after hprogress, hmiddle.blocks, hmiddle.nothingOwed⟩
  exact wp_dbSaveMetaData hsaved (hcached history' hsaved) _

/-- What is left of `save_one_file` after the file was saved. -/
theorem wp_pushDirectory {fileType : UInt8} {name : Option CString} {history : List ClientEvent} (hcarries : Carries history ∅) :
    (if fileType = G_FILE_TYPE_DIRECTORY then ClientProg.dirQueuePush name else return () : ClientProg Unit).wp
      (savingRules backend cachedWhen)
      (fun _ history' => Carries history' ∅ ∧ ∃ rest, history' = history ++ rest) history := by
  split
  · exact ⟨allowed_of_noRequest rfl (by simp) hcarries (by simp), fun answer _ => ⟨carries_of_noRequest answer rfl hcarries, _, rfl⟩⟩
  · exact ⟨hcarries, [], (List.append_nil history).symm⟩

/-- `save_one_file`: nothing is owed when it ends, and a file that was not excluded and not in the cache was entered in it. -/
theorem wp_saveOneFile (hz : z.Writes) {file : FileToSave} {history : List ClientEvent}
    (hcounter : file.excluded = false → file.metaData.inCache = false → file.CounterFits sha256 z) (hcarries : Carries history ∅)
    (hcached : file.metaData.inCache = false →
      ∀ history', Saved history history' (file.recordHashs sha256) file.Writable → cachedWhen history') :
    (saveOneFile sha256 z file).wp (savingRules backend cachedWhen)
      (fun _ history' => Carries history' ∅ ∧ (file.excluded = false → file.metaData.inCache = false →
        ∃ middle rest, Cached history middle (file.recordHashs sha256) file.Writable ∧ history' = middle ++ rest)) history := by
  have hprocess : file.excluded = false → (processFile sha256 z file.main file.metaData file.source).wp
      (savingRules backend cachedWhen)
      (fun _ history' => Carries history' ∅ ∧
        (file.metaData.inCache = false → Cached history history' (file.recordHashs sha256) file.Writable)) history := by
    intro hexcluded
    unfold processFile
    split
    · rename_i hout
      have hboth : ∀ history', Cached history history' (file.recordHashs sha256) file.Writable → Carries history' ∅ := by
        rintro history' ⟨middle, metaData, hsaved, rfl⟩
        exact carries_of_noRequest _ rfl hsaved.nothingOwed
      split
      · rename_i hsmall
        exact Prog.wp_mono (wp_processSmallFileNotInCache hz hsmall (hcounter hexcluded hout) hcarries (hcached hout))
          fun _ history' h => ⟨hboth history' h, fun _ => h⟩
      · rename_i hbig
        exact Prog.wp_mono (wp_processBigFileNotInCache hz hbig (hcounter hexcluded hout) hcarries (hcached hout))
          fun _ history' h => ⟨hboth history' h, fun _ => h⟩
    · rename_i hin
      exact ⟨hcarries, fun h => absurd h hin⟩
  unfold saveOneFile
  split
  · rename_i hexcluded
    refine Prog.wp_seq (hprocess hexcluded) ?_
    rintro _ middle ⟨hcarries', hmiddle⟩
    refine Prog.wp_mono (wp_pushDirectory hcarries') ?_
    rintro _ history' ⟨hcarries'', rest, hrest⟩
    exact ⟨hcarries'', fun _ hin => ⟨middle, rest, hmiddle hin, hrest⟩⟩
  · rename_i hexcluded
    exact ⟨hcarries, fun h => absurd h hexcluded⟩

end

/-- Every operation that is allowed gets some answer: a post may always fail. -/
theorem exists_answer {backend : Option FileBackend} {cachedWhen : List ClientEvent → Prop} (history : List ClientEvent)
    (op : ClientOp) (h : (savingRules backend cachedWhen).pre history op) : ∃ r, (savingRules backend cachedWhen).ok op r := by
  cases op with
  | postUrl url readbuffer held => exact ⟨(none : Option Json), fun text htext => absurd htext (by simp)⟩
  | crash => exact absurd rfl h.noCrash
  | _ => exact ⟨(), trivial⟩

/-- What saves every file that is cached: it is not cached twice, or its counter fits, its record is written and nothing is lost. -/
theorem cachedMeansSaved_of {backend : Option FileBackend} {sha256 : Bytes → Hash} {z : Zlib} (hz : z.Writes) {file : FileToSave}
    (hregular : file.metaData.fileType = G_FILE_TYPE_REGULAR)
    (hcond : file.metaData.inCache = true ∨ (file.CounterFits sha256 z ∧ file.Writable ∧ file.NothingLost sha256)) :
    CachedMeansSaved backend sha256 z file := by
  intro before after metaData onlyMeta left hsteps hok
  have hout : file.metaData.inCache = false → file.CounterFits sha256 z ∧ file.Writable ∧ file.NothingLost sha256 :=
    fun hout => hcond.resolve_left (by simp [hout])
  have hwp := @wp_saveOneFile backend
    (fun history => RecordSaved history (file.blockHashs sha256) ∧ ∀ h ∈ file.blockHashs sha256, h ∈ accounted history)
    sha256 z hz file [] (fun _ h => (hout h).1) (fun g hg => absurd hg (by simp [recorded])) ?_
  · have hallowed := hsteps.pre hok hwp
    rw [savingRules, Prog.after_historyRules, List.nil_append] at hallowed
    exact hallowed.cached metaData onlyMeta rfl
  · intro hin history' hsaved
    obtain ⟨_, hwritten, hlost⟩ := hout hin
    have hhashs := (recordHashs_eq_iff sha256 hregular).mpr hlost
    rw [← hhashs]
    exact ⟨(hsaved.sent.saved _).mpr (Or.inr ⟨hwritten, rfl⟩), hsaved.blocks⟩

/-- Where the counter fits, nothing else saves every file that is cached: the program has a run to its end, in which the file is
entered in the cache. -/
theorem of_cachedMeansSaved {backend : Option FileBackend} {sha256 : Bytes → Hash} {z : Zlib} (hz : z.Writes) {file : FileToSave}
    (hregular : file.metaData.fileType = G_FILE_TYPE_REGULAR) (hexcluded : file.excluded = false)
    (hcounter : file.CounterFits sha256 z) (h : CachedMeansSaved backend sha256 z file) :
    file.metaData.inCache = true ∨ (file.Writable ∧ file.NothingLost sha256) := by
  by_cases hin : file.metaData.inCache = true
  · exact Or.inl hin
  · right
    have hwp := @wp_saveOneFile backend (fun _ => True) sha256 z hz file [] (fun _ _ => hcounter)
      (fun g hg => absurd hg (by simp [recorded])) fun _ _ _ => trivial
    obtain ⟨tr, _, hsteps, hok, _, hcached⟩ := Prog.exists_run exists_answer hwp
    obtain ⟨_, rest, ⟨middle, metaData, hsaved, rfl⟩, htr⟩ := hcached hexcluded (by simpa using hin)
    rw [savingRules, Prog.after_historyRules, List.nil_append, List.append_assoc, List.singleton_append] at htr
    subst htr
    obtain ⟨hrecord, _⟩ := h middle rest metaData true _ hsteps fun e he => hok e (List.mem_append_left _ he)
    have hnone : ¬ RecordSaved [] (file.blockHashs sha256) := by
      rintro ⟨e, he, _⟩
      exact absurd he List.not_mem_nil
    obtain ⟨hwritten, hhashs⟩ := ((hsaved.sent.saved _).mp hrecord).resolve_left hnone
    exact ⟨hwritten, (recordHashs_eq_iff sha256 hregular).mp hhashs.symm⟩

end CachedAux

/-- For a regular file that is not excluded, cached means saved when the file is in the cache already, or when the counter of
`send_all_data_to_server` fits, the record can be written and no failure of a read takes a block away. Where the counter fits the
rest of the condition is necessary too. -/
theorem cachedMeansSaved_iff (backend : Option FileBackend) (sha256 : Bytes → Hash) {z : Zlib} (hz : z.Writes) {file : FileToSave}
    (hregular : file.metaData.fileType = G_FILE_TYPE_REGULAR) (hexcluded : file.excluded = false) :
    (file.metaData.inCache = true ∨ (file.CounterFits sha256 z ∧ file.Writable ∧ file.NothingLost sha256) →
        CachedMeansSaved backend sha256 z file) ∧
      (file.CounterFits sha256 z → CachedMeansSaved backend sha256 z file →
        file.metaData.inCache = true ∨ (file.Writable ∧ file.NothingLost sha256)) :=
  ⟨CachedAux.cachedMeansSaved_of hz hregular, CachedAux.of_cachedMeansSaved hz hregular hexcluded⟩

theorem length_zeros : (List.replicate 32 (0 : UInt8)).length = HASH_LEN := rfl

/-- A digest that is the same for every block. -/
def zeroDigest (_ : Bytes) : Hash := ⟨List.replicate 32 0, length_zeros⟩

/-- The options a client starts with. -/
def defaultMain : MainStruct := ⟨CString.lit "host", 1048576, COMPRESS_NONE_TYPE, by decide, by decide⟩

/-- A file of five bytes, in one block. -/
def helloFile (opens : Bool) : FileToSave where
  main := defaultMain
  excluded := false
  metaData := { newMetaData with fileType := G_FILE_TYPE_REGULAR, size := 5, name := some (CString.lit "/home/user/hello") }
  source := ⟨opens, [str "hello"], none, by decide⟩
  noHashs := rfl

/-- Its counter is not used. -/
theorem helloFile_counterFits (opens : Bool) : (helloFile opens).CounterFits zeroDigest storingZlib := by
  intro list hlist
  rw [FileToSave.handed, if_pos (by decide +revert), if_pos (by right; decide +revert)] at hlist
  exact absurd hlist List.not_mem_nil

/-- When it opens, and is cached, it is saved. -/
theorem helloFile_cachedMeansSaved : CachedMeansSaved none zeroDigest storingZlib (helloFile true) := by
  have hwritable : (helloFile true).Writable := Option.isSome_iff_ne_none.mp (by decide)
  exact (cachedMeansSaved_iff none zeroDigest storingZlib_writes rfl rfl).1
    (Or.inr ⟨helloFile_counterFits true, hwritable, Or.inl ⟨rfl, rfl⟩⟩)

/-- When it cannot be opened it is cached all the same, and its block is lost. -/
theorem helloFile_cachedNotSaved : ¬ CachedMeansSaved none zeroDigest storingZlib (helloFile false) := by
  intro h
  rcases CachedAux.of_cachedMeansSaved storingZlib_writes rfl rfl (helloFile_counterFits false) h with hin | ⟨_, hlost⟩
  · exact absurd hin (by decide)
  · rcases hlost with ⟨hopens, _⟩ | hlost
    · exact absurd hopens (by decide)
    · rw [if_pos (Or.inr (show (helloFile false).source.opens = false from rfl))] at hlost
      exact absurd hlost (by decide)

end Sauvegarde
