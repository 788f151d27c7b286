import Sauvegarde.Theorems.Cached

/-!
# Small and big files have the same hashs

`process_big_file_not_in_cache` hands the blocks of a file over in lists while it reads, each list and the list of hashs that were saved
turned over. In the end its record has the hashs that `calculate_hash_data_list_for_file` finds in one go.
-/

namespace Sauvegarde

/-- The lists are handed to `lets_send_all_that_now`, one after the other. -/
def handOver (main : MainStruct) : List (List HashData) → List HashData → ClientProg (List HashData)
  | [], savedList => .ret savedList
  | list :: lists, savedList => (letsSendAllThatNow main list savedList).bind fun savedList => handOver main lists savedList

/-- The lists that `process_big_file_not_in_cache` hands over: see `processStream_eq`. -/
def FileSource.handed (sha256 : Bytes → Hash) (z : Zlib) (main : MainStruct) (source : FileSource) : List (List HashData) :=
  if source.opens then handedLists sha256 z main source.failsAfter.isSome source.reads [] 0 else []

/-- Compression of a buffer succeeds, and it can be undone. Of a buffer of 2^32 bytes or more `compress_buffer` is told too short a
length. -/
def Zlib.Recovers (z : Zlib) (cmptype : Int16) (buffer : Bytes) : Prop :=
  cmptype = COMPRESS_NONE_TYPE ∨
    ∃ text, (compressBuffer z buffer (UInt64.ofNat buffer.length).toUInt32 cmptype).text = some text ∧
      z.uncompress text buffer.length = (.ok, buffer)

/-- The uncompressed contents of a block, as `uncompress_buffer` gives them. -/
def uncompressedOf (z : Zlib) (hd : HashData) : Option Bytes :=
  if hd.cmptype = COMPRESS_NONE_TYPE then hd.data
  else
    (uncompressBuffer z (hd.data.getD []) hd.read.toUInt64 hd.uncmplen.toUInt64 hd.cmptype).1.bind Compress.text

/-- The end of `process_big_file_not_in_cache`: the record is sent with the hashs that were saved. -/
def sendBigRecord (main : MainStruct) (metaData : MetaData) (savedList : List HashData) : ClientProg Unit := do
  let metaData := { metaData with hashDataList := savedList }
  match ← sendMetaDataToServer main metaData true with
  | some _ => ClientProg.dbSaveMetaData metaData true
  | none => return ()

namespace BigFileAux

variable {sha256 : Bytes → Hash} {z : Zlib} {main : MainStruct}

/-! ## The lists that are handed over -/

/-- What `process_big_file_not_in_cache` does when it stops reading. -/
def afterReading (main : MainStruct) (failed : Bool) (state : List HashData × List HashData × UInt64) :
    ClientProg (List HashData) :=
  if failed then .ret state.2.1
  else if 0 < state.2.2 then (letsSendAllThatNow main state.1 state.2.1).bind fun savedList => .ret savedList.reverse
  else .ret state.2.1.reverse

/-- The loop, and what comes after it, hand over the lists and do nothing else. -/
theorem processBlocks_eq (failed : Bool) (reads : List Bytes) : ∀ (list savedList : List HashData) (readBytes : UInt64),
    (processBlocks sha256 z main reads list savedList readBytes).bind (afterReading main failed) =
      (handOver main (handedLists sha256 z main failed reads list readBytes) savedList).bind fun savedList =>
        .ret (if failed then savedList else savedList.reverse) := by
  induction reads with
  | nil =>
    intro list savedList readBytes
    cases failed with
    | true => rfl
    | false =>
      by_cases hpos : 0 < readBytes
      · simp [processBlocks, afterReading, handedLists, handOver, hpos, Prog.bind_assoc]
      · simp [processBlocks, afterReading, handedLists, handOver, hpos]
  | cons buffer reads ih =>
    intro list savedList readBytes
    unfold processBlocks handedLists
    dsimp only
    split
    · simp only [Prog.bind_eq, Prog.bind_assoc, handOver, ih]
    · exact ih _ _ _

/-- A file is read by handing over its lists. -/
theorem processStream_eq (source : FileSource) :
    processStream sha256 z main source =
      (handOver main (source.handed sha256 z main) []).bind fun savedList =>
        .ret (if source.failsAfter.isSome then savedList else savedList.reverse) := by
  unfold processStream FileSource.handed
  split
  · rw [← processBlocks_eq]
    rfl
  · simp [handOver]

/-- Turned over and put one behind the other, the lists are the blocks of the file: each block is in one of them. -/
theorem flatten_handedLists {reads : List Bytes} (hreads : ∀ buffer ∈ reads, 0 < buffer.length ∧ buffer.length < 2 ^ 63) :
    ∀ {list : List HashData} {readBytes : UInt64}, readBytes.toNat < 2 ^ 31 → (list ≠ [] → 0 < readBytes.toNat) →
      ((handedLists sha256 z main false reads list readBytes).map List.reverse).flatten =
        list.reverse ++ reads.map (hashDataOfBuffer sha256 z main.cmptype) := by
  induction reads with
  | nil =>
    intro list readBytes _ hcounted
    by_cases hpos : 0 < readBytes
    · simp [handedLists, hpos]
    · have hnil : list = [] := by
        by_contra hne
        exact hpos (UInt64.lt_iff_toNat_lt.mpr (hcounted hne))
      simp [handedLists, hpos, hnil]
  | cons buffer reads ih =>
    intro list readBytes hnotFull _
    obtain ⟨hbuffer, hreads⟩ := List.forall_mem_cons.mp hreads
    have hsum := toNat_readBytes hnotFull hbuffer.2
    have hlt := main.buffersize.toInt_lt
    unfold handedLists
    dsimp only
    split
    · rw [List.map_cons, List.flatten_cons, ih hreads (by decide) fun hne => absurd rfl hne]
      simp
    · rename_i hfull
      rw [isFull_iff] at hfull
      rw [ih hreads (by omega) fun _ => by omega]
      simp

/-! ## The hashs that were saved -/

/-- `lets_send_all_that_now` puts copies of its list before what was saved. -/
theorem letsSendAllThatNow_returns (list savedList : List HashData) :
    (letsSendAllThatNow main list savedList).AllRuns (fun _ => True)
      fun _ savedList' => savedList' = list.map copyOnlyHash ++ savedList := by
  unfold letsSendAllThatNow
  refine (Prog.AllRuns.any _).bind fun _ answer _ => ?_
  refine (Prog.AllRuns.any _).bind fun _ rest _ => ?_
  exact Prog.allRuns_ret.mpr rfl

/-- In the end the last list comes first. -/
theorem handOver_returns (lists : List (List HashData)) : ∀ savedList : List HashData,
    (handOver main lists savedList).AllRuns (fun _ => True)
      fun _ savedList' => savedList' = lists.reverse.flatten.map copyOnlyHash ++ savedList := by
  induction lists with
  | nil => exact fun savedList => Prog.allRuns_ret.mpr rfl
  | cons list lists ih =>
    intro savedList
    rw [handOver]
    refine (letsSendAllThatNow_returns list savedList).bind ?_
    rintro _ _ rfl
    refine (ih _).mono fun _ savedList' hsaved => ?_
    rw [hsaved, List.reverse_cons, List.flatten_append, List.flatten_singleton, List.map_append, List.append_assoc]

/-! ## Contents -/

/-- What is made of a buffer is uncompressed to that buffer. -/
theorem uncompressedOf_hashDataOfBuffer (hz : z.Writes) {cmptype : Int16} (hallowed : isCompressTypeAllowed cmptype = true)
    {buffer : Bytes} (hbuffer : buffer.length < 2 ^ 63) (hrecovers : z.Recovers cmptype buffer) :
    uncompressedOf z (hashDataOfBuffer sha256 z cmptype buffer) = some buffer := by
  by_cases hnone : cmptype = COMPRESS_NONE_TYPE
  · simp [uncompressedOf, hashDataOfBuffer, newHashData, hnone]
  · have hzlib : cmptype = COMPRESS_ZLIB_TYPE := by simpa [isCompressTypeAllowed, hnone] using hallowed
    obtain ⟨hword, hroom, _, _⟩ := length_int64 (Int64.toInt_ofNat_of_lt hbuffer)
    obtain ⟨text, htext, hback⟩ := hrecovers.resolve_left hnone
    rw [← hword, compressBuffer, if_pos hzlib] at htext
    have hwritten : z.compress2 (buffer.take (Int64.ofNat buffer.length).toUInt64.toUInt32.toNat) = text := Option.some.inj htext
    have hcompressed : compressBuffer z buffer (Int64.ofNat buffer.length).toUInt64.toUInt32 cmptype =
        ⟨some text, UInt64.ofNat text.length, true⟩ := by
      rw [compressBuffer, if_pos hzlib, zlibCompressBuffer, hwritten]
    have hshort : text.length < 2 ^ 63 := by
      rw [← hwritten]
      exact (hz _ (lt_of_le_of_lt (List.length_take_le _ _) (UInt32.toNat_lt _))).2
    have hread : (UInt64.ofNat text.length).toNat = text.length := UInt64.toNat_ofNat_of_lt' (lt_of_lt_of_le hshort (by decide))
    rw [hashDataOfBuffer, newHashData, if_pos hnone, hcompressed, uncompressedOf, if_neg hnone, hzlib]
    simp only [Option.getD_some, UInt64.toUInt64_toInt64, uncompressBuffer_whole hread hroom hbuffer hback, Option.bind_some]

end BigFileAux

open BigFileAux CachedAux

/-- A buffer of less than 2^32 bytes comes back from a zlib that inverts its compression. -/
theorem recovers_of_inverts {z : Zlib} (hz : z.Inverts) {cmptype : Int16} (hallowed : isCompressTypeAllowed cmptype = true)
    {buffer : Bytes} (hbuffer : buffer.length < 2 ^ 32) : z.Recovers cmptype buffer := by
  by_cases hnone : cmptype = COMPRESS_NONE_TYPE
  · exact Or.inl hnone
  · have hzlib : cmptype = COMPRESS_ZLIB_TYPE := by simpa [isCompressTypeAllowed, hnone] using hallowed
    have hlength : (UInt64.ofNat buffer.length).toUInt32.toNat = buffer.length := by
      rw [UInt64.toNat_toUInt32, UInt64.toNat_ofNat_of_lt' (lt_trans hbuffer (by decide)), Nat.mod_eq_of_lt hbuffer]
    refine Or.inr ⟨z.compress2 buffer, ?_, hz buffer (by omega)⟩
    rw [compressBuffer, if_pos hzlib, zlibCompressBuffer, hlength, List.take_length]

/-- A big file that is read without an error is saved by handing over its lists and sending the record, and in every run the record
has the hashs that `calculate_hash_data_list_for_file` finds: those of the blocks, in file order. Their contents are the file, and
each block is in one of the lists. -/
theorem bigFile_agrees (sha256 : Bytes → Hash) {z : Zlib} (hz : z.Writes) (main : MainStruct) (metaData : MetaData)
    {source : FileSource} (hopens : source.opens = true) (hreads : source.failsAfter = none)
    (hrecovers : ∀ buffer ∈ source.blocks, z.Recovers main.cmptype buffer) :
    let hashDataList := calculateHashDataListForFile sha256 z source main.cmptype
    let lists := source.handed sha256 z main
    processBigFileNotInCache sha256 z main metaData source =
        ((handOver main lists []).bind fun savedList => sendBigRecord main metaData savedList.reverse) ∧
      (handOver main lists []).AllRuns (fun _ => True) (fun _ savedList =>
        savedList.reverse = hashDataList.map copyOnlyHash ∧
          savedList.reverse.map HashData.hash = hashDataList.map HashData.hash) ∧
      HashsAre hashDataList (source.blocks.map sha256) ∧
      hashDataList.map (uncompressedOf z) = source.blocks.map some ∧
      (lists.map List.reverse).flatten = hashDataList := by
  intro hashDataList lists
  have hlist : hashDataList = source.blocks.map (hashDataOfBuffer sha256 z main.cmptype) :=
    (calculateHashDataListForFile_eq source main.cmptype).trans (if_pos ⟨hopens, hreads⟩)
  have hhashs : HashsAre hashDataList (source.blocks.map sha256) := hlist ▸ hashsAre_map sha256 main.cmptype source.blocks
  have hlists : lists = handedLists sha256 z main false source.blocks [] 0 := by
    simp [lists, FileSource.handed, hopens, hreads, FileSource.reads]
  have hflatten : (lists.map List.reverse).flatten = hashDataList := by
    rw [hlist, hlists]
    exact flatten_handedLists source.blocks_len (by decide) fun hne => absurd rfl hne
  refine ⟨?_, ?_, hhashs, ?_, hflatten⟩
  · change (processStream sha256 z main source).bind (sendBigRecord main metaData) = _
    rw [processStream_eq, Prog.bind_assoc, hreads]
    rfl
  · refine (handOver_returns lists []).mono fun _ savedList hsaved => ?_
    have hreverse : savedList.reverse = hashDataList.map copyOnlyHash := by
      rw [hsaved, List.append_nil, ← List.map_reverse, List.reverse_flatten, ← hflatten, List.map_reverse, List.reverse_reverse]
    refine ⟨hreverse, ?_⟩
    rw [hreverse, show hashDataList.map HashData.hash = _ from hhashs]
    exact hashsAre_copyOnlyHash hhashs
  · rw [hlist, List.map_map]
    refine List.map_congr_left fun buffer hbuffer => ?_
    exact uncompressedOf_hashDataOfBuffer hz main.cmptype_allowed (source.blocks_len buffer hbuffer).2 (hrecovers buffer hbuffer)

/-- A client that sends after six bytes, and compresses. -/
def eagerMain : MainStruct where
  hostname := CString.lit "host"
  buffersize := 6
  cmptype := COMPRESS_ZLIB_TYPE
  buffersize_pos := by decide
  cmptype_allowed := by decide

/-- A file that is read in three blocks, the second and the third alike. -/
def threeBlocks : FileSource := ⟨true, [str "hello", str "abc", str "abc"], none, by decide⟩

/-- It is handed over in two lists, and its record has the hashs of the three blocks. -/
theorem threeBlocks_agree :
    (handOver eagerMain (threeBlocks.handed zeroDigest storingZlib eagerMain) []).AllRuns (fun _ => True)
      (fun _ savedList => savedList.reverse.map HashData.hash =
        [some (List.replicate 32 0), some (List.replicate 32 0), some (List.replicate 32 0)]) ∧
    (threeBlocks.handed zeroDigest storingZlib eagerMain).map List.length = [2, 1] := by
  have hrecovers : ∀ buffer ∈ threeBlocks.blocks, storingZlib.Recovers eagerMain.cmptype buffer := by
    intro buffer hbuffer
    refine recovers_of_inverts storingZlib_inverts eagerMain.cmptype_allowed ?_
    simp only [threeBlocks, List.mem_cons, List.not_mem_nil, or_false] at hbuffer
    rcases hbuffer with rfl | rfl | rfl <;> decide
  obtain ⟨_, hruns, hhashs, _, _⟩ := bigFile_agrees zeroDigest storingZlib_writes eagerMain newMetaData
    (show threeBlocks.opens = true from rfl) rfl hrecovers
  refine ⟨hruns.mono fun _ savedList hsaved => ?_, by decide⟩
  rw [hsaved.2]
  exact hhashs

end Sauvegarde
