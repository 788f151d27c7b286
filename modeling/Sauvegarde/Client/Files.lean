import Sauvegarde.Client.Selection

/-!
# What becomes of the blocks of a file

The blocks of a file as the two ways of saving it see them: the lists that are handed to `send_all_data_to_server`, the blocks that
a big file has flushed when a read fails, and the hashs of the record. All of it follows from the file and the options alone.
-/

namespace Sauvegarde

section

variable (sha256 : Bytes → Hash) (z : Zlib)

/-- The lists that `process_big_file_not_in_cache` hands over; the last one only when no read failed. -/
def handedLists (main : MainStruct) (failed : Bool) : List Bytes → List HashData → UInt64 → List (List HashData)
  | [], hashDataList, readBytes => if failed = false ∧ 0 < readBytes then [hashDataList] else []
  | buffer :: reads, hashDataList, readBytes =>
    let readBytes := readBytes + UInt64.ofNat buffer.length
    let hashDataList := hashDataOfBuffer sha256 z main.cmptype buffer :: hashDataList
    if main.isFull readBytes then hashDataList :: handedLists main failed reads [] 0
    else handedLists main failed reads hashDataList readBytes

/-- The blocks that it has handed over when it stops reading; `pending` were read before and not handed over. -/
def flushedReads (main : MainStruct) : List Bytes → List Bytes → UInt64 → List Bytes
  | [], _, _ => []
  | buffer :: reads, pending, readBytes =>
    let readBytes := readBytes + UInt64.ofNat buffer.length
    if main.isFull readBytes then pending ++ buffer :: flushedReads main reads [] 0
    else flushedReads main reads (pending ++ [buffer]) readBytes

namespace FileToSave

/-- The lists of blocks of a file that are handed to `send_all_data_to_server`. -/
def handed (file : FileToSave) : List (List HashData) :=
  if file.metaData.size < CLIENT_SMALL_FILE_SIZE then
    if file.metaData.fileType ≠ G_FILE_TYPE_REGULAR ∨ file.metaData.size < file.metaData.blocksize.toUInt64 then []
    else [calculateHashDataListForFile sha256 z file.source file.main.cmptype]
  else if file.source.opens then
    handedLists sha256 z file.main file.source.failsAfter.isSome file.source.reads [] 0
  else []

/-- The counter of `send_all_data_to_server` fits for every list of blocks that it is handed. -/
def CounterFits (file : FileToSave) : Prop :=
  ∀ list ∈ file.handed sha256 z, FitsCounter file.main.buffersize.toInt list

/-- The hashs of all the blocks of a file, in their order. -/
def blockHashs (file : FileToSave) : List Hash := file.source.blocks.map sha256

/-- The hashs of the record of a file. -/
def recordHashs (file : FileToSave) : List Hash :=
  if file.metaData.size < CLIENT_SMALL_FILE_SIZE then
    if file.metaData.fileType = G_FILE_TYPE_REGULAR ∧ file.source.opens = true ∧ file.source.failsAfter = none then
      file.blockHashs sha256
    else []
  else if file.source.opens = true then
    if file.source.failsAfter = none then file.blockHashs sha256
    else ((flushedReads file.main file.source.reads [] 0).map sha256).reverse
  else []

/-- The failure of a read, if there is one, takes no hash away: every block of a file that does not open or that is small is lost,
and a big file keeps the hashs of the blocks that were flushed, the last one first. -/
def NothingLost (file : FileToSave) : Prop :=
  (file.source.opens = true ∧ file.source.failsAfter = none) ∨
    if file.metaData.size < CLIENT_SMALL_FILE_SIZE ∨ file.source.opens = false then file.source.blocks = []
    else ((flushedReads file.main file.source.reads [] 0).map sha256).reverse = file.blockHashs sha256

end FileToSave

/-- The buffer size is a positive `gint`. -/
theorem isFull_iff (main : MainStruct) (readBytes : UInt64) :
    main.isFull readBytes = true ↔ main.buffersize.toInt ≤ readBytes.toNat := by
  have hpos := main.buffersize_pos
  have hnat : main.buffersize.toInt64.toUInt64.toNat = main.buffersize.toInt.toNat :=
    (length_int64 (by rw [Int32.toInt_toInt64, Int.toNat_of_nonneg (le_of_lt hpos)])).2.1
  rw [MainStruct.isFull, decide_eq_true_eq, UInt64.le_iff_toNat_le, hnat]
  omega

/-- The bytes that are counted after one more block; there is room for them. -/
theorem toNat_readBytes {readBytes : UInt64} {buffer : Bytes} (hread : readBytes.toNat < 2 ^ 31)
    (hbuffer : buffer.length < 2 ^ 63) :
    (readBytes + UInt64.ofNat buffer.length).toNat = readBytes.toNat + buffer.length := by
  have hlen : (UInt64.ofNat buffer.length).toNat = buffer.length := UInt64.toNat_ofNat_of_lt' (lt_of_lt_of_le hbuffer (by decide))
  rw [UInt64.toNat_add, hlen, Nat.mod_eq_of_lt (by omega)]

/-! ## The blocks of a file -/

/-- What is read are blocks of the file. -/
theorem FileSource.mem_blocks_of_mem_reads (source : FileSource) {buffer : Bytes} (h : buffer ∈ source.reads) :
    buffer ∈ source.blocks := by
  unfold FileSource.reads at h
  split at h
  · exact h
  · exact List.mem_of_mem_take h

/-- The loop prepends the blocks. -/
theorem prependBlocks_eq (cmptype : Int16) (reads : List Bytes) :
    ∀ list, prependBlocks sha256 z cmptype list reads = (reads.map (hashDataOfBuffer sha256 z cmptype)).reverse ++ list := by
  induction reads with
  | nil => exact fun _ => rfl
  | cons buffer reads ih =>
    intro list
    rw [prependBlocks, ih]
    simp

variable {z}

/-- What is made of a buffer is a block, with the hash of the buffer. -/
theorem isBlock_hashDataOfBuffer (hz : z.Writes) {cmptype : Int16} (hallowed : isCompressTypeAllowed cmptype = true)
    {buffer : Bytes} (hbuffer : 0 < buffer.length ∧ buffer.length < 2 ^ 63) :
    ∃ bytes, (hashDataOfBuffer sha256 z cmptype buffer).IsBlock (sha256 buffer) bytes ∧ 0 < bytes.length := by
  by_cases hnone : cmptype = COMPRESS_NONE_TYPE
  · refine ⟨buffer, ⟨?_, ?_, ?_⟩, hbuffer.1⟩ <;> rw [hashDataOfBuffer, newHashData, if_neg (not_not.mpr hnone)]
    exact Int64.toInt_ofNat_of_lt hbuffer.2
  · have hzlib : cmptype = COMPRESS_ZLIB_TYPE := by simpa [isCompressTypeAllowed, hnone] using hallowed
    have hlen : (buffer.take ((Int64.ofNat buffer.length).toUInt64.toUInt32).toNat).length < 2 ^ 32 :=
      lt_of_le_of_lt (List.length_take_le _ _) (UInt32.toNat_lt _)
    obtain ⟨hpos, hlt⟩ := hz _ hlen
    refine ⟨_, ⟨?_, ?_, ?_⟩, hpos⟩ <;>
      rw [hashDataOfBuffer, newHashData, if_pos hnone, compressBuffer, if_pos hzlib, zlibCompressBuffer]
    exact Int64.toInt_ofNat_of_lt hlt

/-- The blocks of a list of buffers. -/
theorem allBlocks_map (hz : z.Writes) {cmptype : Int16} (hallowed : isCompressTypeAllowed cmptype = true)
    {buffers : List Bytes} (hbuffers : ∀ buffer ∈ buffers, 0 < buffer.length ∧ buffer.length < 2 ^ 63) :
    AllBlocks (buffers.map (hashDataOfBuffer sha256 z cmptype)) := by
  intro hd hhd
  obtain ⟨buffer, hbuffer, rfl⟩ := List.mem_map.mp hhd
  exact ⟨sha256 buffer, isBlock_hashDataOfBuffer sha256 hz hallowed (hbuffers buffer hbuffer)⟩

/-- The hash of what is made of a buffer. -/
theorem hash_hashDataOfBuffer (cmptype : Int16) (buffer : Bytes) :
    (hashDataOfBuffer sha256 z cmptype buffer).hash = some (sha256 buffer).bytes := by
  rw [hashDataOfBuffer, newHashData]
  split <;> rfl

/-- The hashs of a list of buffers. -/
theorem hashsAre_map (cmptype : Int16) (buffers : List Bytes) :
    HashsAre (buffers.map (hashDataOfBuffer sha256 z cmptype)) (buffers.map sha256) := by
  rw [HashsAre, List.map_map, List.map_map]
  exact List.map_congr_left fun buffer _ => hash_hashDataOfBuffer sha256 cmptype buffer

/-- The record of a regular file has the hashs of its blocks exactly when no failure takes one away. -/
theorem recordHashs_eq_iff {file : FileToSave} (hregular : file.metaData.fileType = G_FILE_TYPE_REGULAR) :
    file.recordHashs sha256 = file.blockHashs sha256 ↔ file.NothingLost sha256 := by
  have hnil : [] = file.blockHashs sha256 ↔ file.source.blocks = [] := by
    rw [eq_comm, FileToSave.blockHashs, List.map_eq_nil_iff]
  unfold FileToSave.recordHashs FileToSave.NothingLost
  by_cases hread : file.source.opens = true ∧ file.source.failsAfter = none
  · simp [hregular, hread]
  · rw [or_iff_right hread]
    by_cases hsmall : file.metaData.size < CLIENT_SMALL_FILE_SIZE
    · rw [if_pos hsmall, if_neg fun h => hread h.2, if_pos (Or.inl hsmall), hnil]
    · rw [if_neg hsmall]
      by_cases hopens : file.source.opens = true
      · rw [if_pos hopens, if_neg fun h => hread ⟨hopens, h⟩, if_neg (by simp [hsmall, hopens])]
      · rw [if_neg hopens, if_pos (Or.inr (by simpa using hopens)), hnil]

end

end Sauvegarde
