import Sauvegarde.Lib.Slices
import Sauvegarde.Restore.CreateFile
import Sauvegarde.Theorems.Batch

/-!
# A file is restored in batches

`restore_data_to_stream` asks for `max` blocks at a time until none is left. The header it makes is read back by the server as a
slice of the list, the answer is the blocks of that slice, and what is written in the end is the file.
-/

namespace Sauvegarde

/-- The block holds the text, as it is or compressed with zlib. -/
def HoldsText (z : Zlib) (hd : HashData) (text : Bytes) : Prop :=
  HasData hd ∧
    ((hd.cmptype = COMPRESS_NONE_TYPE ∧ hd.data = some text) ∨
      (hd.cmptype = COMPRESS_ZLIB_TYPE ∧ hd.data = some (z.compress2 text) ∧ hd.uncmplen.toInt = text.length))

/-- What the server answers to the header that names blocks. -/
def servedHashArray (sha256 : Bytes → Hash) (z : Zlib) (retrieveData : Option CString → Option HashData) (header : Bytes) :
    Option Json :=
  answerHashArray sha256 z retrieveData (hashArrayHeaders header)

namespace RestoringAux

open BatchAux Slices

variable {z : Zlib} {retrieveData : Option CString → Option HashData} {text : Hash → Bytes}

/-! ## Blocks that are put together -/

/-- A block that holds a text adds that text. -/
theorem addBlock_of_holdsText (hz : z.Inverts) {batch : Batch} {texts : List Bytes} (h : HoldsTexts batch texts) {hd : HashData}
    {bytes : Bytes} (hhd : HoldsText z hd bytes) :
    ∃ batch', addBlock z batch (some hd) = some batch' ∧ HoldsTexts batch' (texts ++ [bytes]) := by
  obtain ⟨⟨data, hdata, hread⟩, hkind⟩ := hhd
  obtain ⟨_, hlen, _, _⟩ := length_int64 hread
  rcases hkind with ⟨hnone, hbytes⟩ | ⟨hzlib, hbytes, huncmplen⟩
  · have hsame : data = bytes := Option.some.inj (hdata.symm.trans hbytes)
    simp only [addBlock, hnone, if_true, hbytes]
    exact addText_some h (hsame ▸ hlen)
  · have hsame : data = z.compress2 bytes := Option.some.inj (hdata.symm.trans hbytes)
    have hne : COMPRESS_ZLIB_TYPE ≠ COMPRESS_NONE_TYPE := by decide
    obtain ⟨_, hroom, _, _⟩ := length_int64 huncmplen
    have hsmall : bytes.length < 2 ^ 63 := by
      have := hd.uncmplen.toInt_lt
      omega
    have hout : (UInt64.ofNat bytes.length).toNat = bytes.length := UInt64.toNat_ofNat_of_lt' (lt_of_lt_of_le hsmall (by decide))
    have hwhole := uncompressBuffer_whole (hsame ▸ hlen) hroom hsmall (hz bytes hsmall)
    simp only [addBlock, hzlib, hne, if_false, hbytes, Option.getD_some, hwhole]
    exact addText_some h hout

/-- Blocks that hold texts are put together in their order. -/
theorem addBlocks_of_holdsText (hz : z.Inverts) {blocks : List HashData} {more : List Bytes}
    (hblocks : List.Forall₂ (HoldsText z) blocks more) :
    ∀ {batch : Batch} {texts : List Bytes}, HoldsTexts batch texts →
      ∃ batch', addBlocks z batch (blocks.map some) = some batch' ∧ HoldsTexts batch' (texts ++ more) := by
  induction hblocks with
  | nil => exact fun {batch texts} h => ⟨batch, rfl, by rwa [List.append_nil]⟩
  | cons hhd _ ih =>
    intro batch texts h
    obtain ⟨batch', hadd, hholds⟩ := addBlock_of_holdsText hz h hhd
    obtain ⟨batch'', hadd', hholds'⟩ := ih hholds
    refine ⟨batch'', ?_, ?_⟩
    · rw [List.map_cons, addBlocks, hadd, Option.bind_some, hadd']
    · rwa [List.append_assoc, List.singleton_append] at hholds'

/-! ## The header -/

/-- The header that names some hashs. -/
def headerFor (hs : List Hash) : Bytes := X_GET_HASH_ARRAY ++ str ": " ++ (hashsText hs).getD []

/-- The header that is made of a list names the first hashs of it. -/
theorem header_eq {hashList : List HashData} {hs : List Hash} (h : HashsAre hashList hs) (max : Nat) :
    (createXGetHashArrayHttpHeader hashList max).1 = headerFor (hs.take max) := by
  have htake : HashsAre (hashList.take max) (hs.take max) := by
    rw [HashsAre, List.map_take, h, List.map_take]
  rw [createXGetHashArrayHttpHeader_eq, convertHashDataListToGchar_eq htake, headerFor]

/-- The server finds the text of the hashs behind the name of the header. -/
theorem hashArrayOfRequest_headerFor (g : Hash) (hs : List Hash) :
    hashArrayOfRequest (hashArrayHeaders (headerFor (g :: hs))) =
      some (CString.ofBytes (quoted (Base64.encode g.bytes) ++ moreHashs hs)) := by
  have hall : X_GET_HASH_ARRAY.all (· != 58) = true := by decide
  have hname : ∀ c ∈ X_GET_HASH_ARRAY, c ≠ 58 := fun c hc => by simpa using List.all_eq_true.mp hall c hc
  have hline : parseHeader (headerFor (g :: hs)) =
      (CString.ofBytes X_GET_HASH_ARRAY, some (CString.ofBytes (quoted (Base64.encode g.bytes) ++ moreHashs hs))) := by
    rw [headerFor, hashsText, Option.getD_some]
    exact parseHeader_eq hname (by simp [quoted]) (by simp [quoted])
  have hother : ¬ (parseHeader (str "Content-Type: " ++ CT_JSON)).1.bytes.map lowerCase =
      (CString.ofBytes X_GET_HASH_ARRAY).bytes.map lowerCase := by decide
  have hheaders : hashArrayHeaders (headerFor (g :: hs)) = [str "Content-Type: " ++ CT_JSON, headerFor (g :: hs)] := by
    rw [hashArrayHeaders, appendContentTypeToHeader, if_pos (by decide)]
    rfl
  rw [hashArrayOfRequest, hheaders, mhdLookupConnectionValue, firstArgument, List.map_cons, List.map_singleton,
    List.find?_cons_of_neg (by simpa using hother), hline, List.find?_cons_of_pos (by simp)]
  rfl

/-- The header is read back as the hashs it names. -/
theorem makeHashDataListFromString_headerFor {hs : List Hash} (hne : hs ≠ []) :
    makeHashDataListFromString (hashArrayOfRequest (hashArrayHeaders (headerFor hs))) =
      hs.map fun h => newHashDataAsIs none 0 (some h.bytes) COMPRESS_NONE_TYPE 0 := by
  obtain ⟨g, hs, rfl⟩ := List.exists_cons_of_ne_nil hne
  rw [hashArrayOfRequest_headerFor]
  refine makeHashDataListFromString_eq (fun c hc => absurd hc List.not_mem_nil) g hs ?_
  rw [CString.bytes_ofBytes fun c hc => ne_zero_of_mem_hashs hc, List.nil_append]

/-! ## One request -/

/-- The blocks with some hashs hold the texts, when each of them does. -/
theorem blocks_of_stored {hs : List Hash}
    (hstored : ∀ h ∈ hs, ∃ hd, retrieveData (hashToString (some h.bytes)) = some hd ∧ HoldsText z hd (text h)) :
    ∃ blocks : List HashData, hs.map (fun h => retrieveData (hashToString (some h.bytes))) = blocks.map some ∧
      List.Forall₂ (HoldsText z) blocks (hs.map text) := by
  induction hs with
  | nil => exact ⟨[], rfl, List.Forall₂.nil⟩
  | cons h hs ih =>
    obtain ⟨hd, hretrieve, hholds⟩ := hstored h List.mem_cons_self
    obtain ⟨blocks, hblocks, hall⟩ := ih fun h hmem => hstored h (List.mem_cons_of_mem _ hmem)
    exact ⟨hd :: blocks, by rw [List.map_cons, hretrieve, hblocks, List.map_cons], List.Forall₂.cons hholds hall⟩

/-- The answer to a request is written as the texts of the blocks it names. -/
theorem writtenOf_served (hz : z.Inverts) (sha256 : Bytes → Hash) {hs : List Hash} (hne : hs ≠ [])
    (hstored : ∀ h ∈ hs, ∃ hd, retrieveData (hashToString (some h.bytes)) = some hd ∧ HoldsText z hd (text h))
    (hfits : (hs.flatMap text).length < 2 ^ 32) :
    writtenOf (servedHashArray sha256 z retrieveData (headerFor hs)) = hs.flatMap text := by
  obtain ⟨blocks, hblocks, hall⟩ := blocks_of_stored hstored
  have hrequested : requestedBlocks retrieveData (hashArrayOfRequest (hashArrayHeaders (headerFor hs))) = blocks.map some := by
    rw [requestedBlocks, makeHashDataListFromString_headerFor hne, List.map_map, ← hblocks]
    rfl
  obtain ⟨batch, hadd, hholds⟩ := addBlocks_of_holdsText hz hall holdsTexts_start
  rw [List.nil_append] at hholds
  have htexts : hs.map text ≠ [] := fun hnil => hne (List.map_eq_nil_iff.mp hnil)
  obtain ⟨b, hbuffer, _, hmod, hexact⟩ := hholds.something htexts
  obtain ⟨json, hd, hjson, hback, hread, hdata⟩ :=
    answer_of_holds hholds htexts (sha256 ((batch.finalBuffer.getD []).take batch.size.toNat))
  have hanswer : servedHashArray sha256 z retrieveData (headerFor hs) = some json := by
    rw [servedHashArray, answerHashArray, getDataFromAListOfHashs, hrequested, hadd, Option.map_some]
    exact hjson
  rw [← List.flatMap_def] at hmod hexact
  have hsize : batch.size.toNat = (hs.flatMap text).length := by rw [hmod, Nat.mod_eq_of_lt hfits]
  have hwhole : hd.data = some (hs.flatMap text) := by
    rw [hdata, hbuffer, hexact hfits, hsize, Option.map_some, List.take_left']
    rfl
  obtain ⟨_, _, hclamp, _⟩ := length_int64 hread
  simp only [hanswer, writtenOf, Option.bind_some, convertStringToHashData, Json.loads, hback, hwhole, Option.getD_some,
    hclamp, hsize, List.take_length]

/-! ## All requests -/

variable {max : Nat} {hashList : List HashData} {hs : List Hash}

/-- Where the loop stands after some requests. -/
def restoringAt (text : Hash → Bytes) (max : Nat) (hashList : List HashData) (hs : List Hash) (i : Nat) : Restoring :=
  ⟨hashList.drop (i * max), (List.range i).map fun j => headerFor (slice max hs j), (hs.take (i * max)).flatMap text⟩

/-- While hashs are left, one more turn asks for the next slice and writes it. -/
theorem turn_restoringAt (hz : z.Inverts) (sha256 : Bytes → Hash) (hhashs : HashsAre hashList hs)
    (hstored : ∀ h ∈ hs, ∃ hd, retrieveData (hashToString (some h.bytes)) = some hd ∧ HoldsText z hd (text h)) (hmax : 0 < max)
    (hfits : ∀ i, ((slice max hs i).flatMap text).length < 2 ^ 32) {i : Nat} (hi : i < hs.length ⌈/⌉ max) :
    (restoringAt text max hashList hs i).turn (servedHashArray sha256 z retrieveData) max =
      restoringAt text max hashList hs (i + 1) := by
  have hdrop : HashsAre (hashList.drop (i * max)) (hs.drop (i * max)) := by
    rw [HashsAre, List.map_drop, hhashs, List.map_drop]
  have hheader : (createXGetHashArrayHttpHeader (hashList.drop (i * max)) max).1 = headerFor (slice max hs i) :=
    header_eq hdrop max
  have hrest : (createXGetHashArrayHttpHeader (hashList.drop (i * max)) max).2 = hashList.drop ((i + 1) * max) := by
    rw [createXGetHashArrayHttpHeader_eq]
    exact drop_drop_slice max hashList i
  have hwritten : writtenOf (servedHashArray sha256 z retrieveData (headerFor (slice max hs i))) = (slice max hs i).flatMap text :=
    writtenOf_served hz sha256 (slice_ne_nil hmax hi) (fun h hmem => hstored h (mem_of_mem_slice hmem)) (hfits i)
  have htake : hs.take ((i + 1) * max) = hs.take (i * max) ++ slice max hs i := by
    rw [Nat.succ_mul, List.take_add, slice]
  simp only [restoringAt, Restoring.turn, hheader, hrest, hwritten, htake, List.flatMap_append, List.range_succ,
    List.map_append, List.map_singleton]

/-- The loop is over just when all slices were asked for. -/
theorem hashList_restoringAt (hhashs : HashsAre hashList hs) (hmax : 0 < max) (i : Nat) :
    (restoringAt text max hashList hs i).hashList = [] ↔ hs.length ⌈/⌉ max ≤ i := by
  have hlength : hashList.length = hs.length := by simpa using congrArg List.length hhashs
  rw [← hlength]
  exact drop_eq_nil_iff hmax hashList i

/-- From any request on, the loop ends with the last slice and no earlier. -/
theorem loop_restoringAt (hz : z.Inverts) (sha256 : Bytes → Hash) (hhashs : HashsAre hashList hs)
    (hstored : ∀ h ∈ hs, ∃ hd, retrieveData (hashToString (some h.bytes)) = some hd ∧ HoldsText z hd (text h)) (hmax : 0 < max)
    (hfits : ∀ i, ((slice max hs i).flatMap text).length < 2 ^ 32) (turns : Nat) :
    ∀ {i : Nat}, i + turns ≤ hs.length ⌈/⌉ max →
      (restoringAt text max hashList hs i).loop (servedHashArray sha256 z retrieveData) max turns =
        if i + turns = hs.length ⌈/⌉ max then some (restoringAt text max hashList hs (i + turns)) else none := by
  induction turns with
  | zero =>
    intro i hi
    have hover : (restoringAt text max hashList hs i).hashList = [] ↔ i = hs.length ⌈/⌉ max :=
      (hashList_restoringAt hhashs hmax i).trans ⟨le_antisymm hi, ge_of_eq⟩
    rw [Restoring.loop, Nat.add_zero, if_congr hover rfl rfl]
  | succ turns ih =>
    intro i hi
    have hleft : ¬ (restoringAt text max hashList hs i).hashList = [] := by
      rw [hashList_restoringAt hhashs hmax]
      omega
    rw [Restoring.loop, if_neg hleft, turn_restoringAt hz sha256 hhashs hstored hmax hfits (by omega), ih (by omega),
      Nat.add_right_comm, Nat.add_assoc]

end RestoringAux

open RestoringAux Slices

/-- For a list of hashs whose blocks are all stored, in batches that fit, the loop ends after one request for each slice of the
list and no earlier; the headers are read back as the slices, and what is written are the texts of the blocks in list order. -/
theorem restoreDataToStream_writesBlocks (sha256 : Bytes → Hash) {z : Zlib} (hz : z.Inverts)
    {retrieveData : Option CString → Option HashData} {text : Hash → Bytes} {hashList : List HashData} {hs : List Hash}
    (hhashs : HashsAre hashList hs)
    (hstored : ∀ h ∈ hs, ∃ hd, retrieveData (hashToString (some h.bytes)) = some hd ∧ HoldsText z hd (text h)) {max : Nat}
    (hmax : 0 < max) (hfits : ∀ i, ((slice max hs i).flatMap text).length < 2 ^ 32) :
    let served := servedHashArray sha256 z retrieveData
    let requests := hs.length ⌈/⌉ max
    (∃ headers, (Restoring.mk hashList [] []).loop served max requests = some ⟨[], headers, hs.flatMap text⟩ ∧
      headers.map (fun header => makeHashDataListFromString (hashArrayOfRequest (hashArrayHeaders header))) =
        (List.range requests).map fun i =>
          (slice max hs i).map fun h => newHashDataAsIs none 0 (some h.bytes) COMPRESS_NONE_TYPE 0) ∧
    (∀ turns < requests, (Restoring.mk hashList [] []).loop served max turns = none) ∧
    restoreDataToStream served hashList max = hs.flatMap text := by
  intro served requests
  have hstart : restoringAt text max hashList hs 0 = ⟨hashList, [], []⟩ := by simp [restoringAt]
  have hloop : ∀ turns ≤ requests, (Restoring.mk hashList [] []).loop served max turns =
      if turns = requests then some (restoringAt text max hashList hs turns) else none := by
    intro turns hturns
    have h := loop_restoringAt hz sha256 hhashs hstored hmax hfits turns (i := 0) (by omega)
    rwa [Nat.zero_add, hstart] at h
  have hdone : (restoringAt text max hashList hs requests).hashList = [] :=
    (hashList_restoringAt hhashs hmax requests).mpr le_rfl
  have hover : hashList.drop (requests * max) = [] := hdone
  have hall : hs.take (requests * max) = hs :=
    List.take_of_length_le (List.drop_eq_nil_iff.mp ((drop_eq_nil_iff hmax hs requests).mpr le_rfl))
  have hend : (Restoring.mk hashList [] []).loop served max requests =
      some ⟨[], (List.range requests).map fun j => headerFor (slice max hs j), hs.flatMap text⟩ := by
    rw [hloop requests le_rfl, if_pos rfl, restoringAt, hover, hall]
  refine ⟨⟨_, hend, ?_⟩, fun turns hturns => by rw [hloop turns hturns.le, if_neg hturns.ne], ?_⟩
  · rw [List.map_map]
    refine List.map_congr_left fun i hi => ?_
    exact makeHashDataListFromString_headerFor (slice_ne_nil hmax (List.mem_range.mp hi))
  · have hwritten := Restoring.written_loop hmax requests hend
    exact hwritten.symm

/-- A hash. -/
def firstHash : Hash := ⟨List.replicate 32 1, rfl⟩

/-- Another one. -/
def secondHash : Hash := ⟨List.replicate 32 2, rfl⟩

/-- A store with a compressed block for the first of them, and a block as it is for the second. -/
def mixedStore (hex : Option CString) : Option HashData :=
  if hex = hashToString (some firstHash.bytes) then
    some (newHashDataAsIs (some (0 :: str "ab")) 3 (some firstHash.bytes) COMPRESS_ZLIB_TYPE 2)
  else if hex = hashToString (some secondHash.bytes) then
    some (newHashDataAsIs (some (str "cd")) 2 (some secondHash.bytes) COMPRESS_NONE_TYPE 2)
  else none

/-- What the two blocks hold. -/
def mixedText (h : Hash) : Bytes := if h = firstHash then str "ab" else str "cd"

/-- A file in which the first block comes back at the end. -/
def mixedFile : List Hash := [firstHash, secondHash, firstHash]

/-- The store has the blocks of the file. -/
theorem mixedStore_holds : ∀ h ∈ mixedFile, ∃ hd, mixedStore (hashToString (some h.bytes)) = some hd ∧
    HoldsText storingZlib hd (mixedText h) := by
  have hfirst : HoldsText storingZlib (newHashDataAsIs (some (0 :: str "ab")) 3 (some firstHash.bytes) COMPRESS_ZLIB_TYPE 2)
      (mixedText firstHash) := ⟨⟨_, rfl, rfl⟩, Or.inr ⟨rfl, rfl, rfl⟩⟩
  have hsecond : HoldsText storingZlib (newHashDataAsIs (some (str "cd")) 2 (some secondHash.bytes) COMPRESS_NONE_TYPE 2)
      (mixedText secondHash) := ⟨⟨_, rfl, rfl⟩, Or.inl ⟨rfl, rfl⟩⟩
  intro h hmem
  simp only [mixedFile, List.mem_cons, List.not_mem_nil, or_false] at hmem
  rcases hmem with rfl | rfl | rfl
  · exact ⟨_, rfl, hfirst⟩
  · exact ⟨_, by decide, hsecond⟩
  · exact ⟨_, rfl, hfirst⟩

/-- In batches of two the file is written after two requests, and not after one. -/
theorem mixedFile_restored :
    (Restoring.mk (mixedFile.map fun h => newHashDataAsIs none 0 (some h.bytes) COMPRESS_NONE_TYPE 0) [] []).loop
      (servedHashArray someDigest storingZlib mixedStore) 2 1 = none ∧
    restoreDataToStream (servedHashArray someDigest storingZlib mixedStore)
      (mixedFile.map fun h => newHashDataAsIs none 0 (some h.bytes) COMPRESS_NONE_TYPE 0) 2 = str "abcdab" := by
  have hfits : ∀ i, ((slice 2 mixedFile i).flatMap mixedText).length < 2 ^ 32 := by
    intro i
    rcases i with _ | _ | i
    · decide
    · decide
    · rw [slice, List.drop_eq_nil_of_le (by simp [mixedFile]; omega)]
      decide
  have hhashs : HashsAre (mixedFile.map fun h => newHashDataAsIs none 0 (some h.bytes) COMPRESS_NONE_TYPE 0) mixedFile := rfl
  obtain ⟨_, htooFew, hwritten⟩ :=
    restoreDataToStream_writesBlocks someDigest storingZlib_inverts hhashs mixedStore_holds (show 0 < 2 by decide) hfits
  exact ⟨htooFew 1 (by decide), hwritten.trans (by decide)⟩

end Sauvegarde
