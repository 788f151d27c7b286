import Sauvegarde.Lib.LastWrite
import Sauvegarde.Theorems.Minio

/-!
# The fallback bucket of MinIO

A block is stored in the fallback bucket when a configured one cannot be accessed, and looked for in the configured ones. What
is found there of a block after any number of stores, whatever was accessible during each.
-/

namespace Sauvegarde

/-- A call of `minio_store_data`, with what libs3 finds accessible during it and the room on the stack. -/
structure MinioCall where
  s3 : Libs3
  stackRoom : Nat
  hashData : HashData

/-- The objects after a number of calls: none when the program was ended. -/
def minioStoreAll (backend : MinioBackend) (objects : Objects) (calls : List MinioCall) : Option Objects :=
  calls.foldlM (fun objects call => minioStoreData call.s3 call.stackRoom backend objects call.hashData) objects

/-! ## What a call puts -/

/-- The block of a call that has a hash, if there is one. -/
def MinioCall.blockOf (h : Hash) (call : MinioCall) : Option HashData :=
  if call.hashData.hash = some h.bytes ∧ call.hashData.data ≠ none then some call.hashData else none

/-- The data that a call puts under a hash into a configured bucket: the string that the data begin with. -/
def MinioCall.dataIn (bucket : CString) (h : Hash) (call : MinioCall) : Option Bytes :=
  if workingBucket call.s3 (some bucket) = some bucket then
    (call.blockOf h).bind fun hd => hd.data.map fun data => (CString.ofBytes data).bytes
  else none

/-- The type of compression that is written. -/
def writtenCmptype (cmptype : Int16) : Int16 := if isCompressTypeAllowed cmptype then cmptype else COMPRESS_NONE_TYPE

/-- The type of compression and the uncompressed length that a call puts beside a hash into a configured bucket. -/
def MinioCall.filemetaIn (bucket : CString) (h : Hash) (call : MinioCall) : Option (Int16 × Int64) :=
  if workingBucket call.s3 (some bucket) = some bucket then
    (call.blockOf h).map fun hd => (writtenCmptype hd.cmptype, hd.uncmplen)
  else none

/-- A call while the fallback bucket can be accessed; what has a hash and data is a block. -/
structure MinioCall.Possible (call : MinioCall) : Prop where
  libs3 : call.s3.Documented
  fallback : checkBucketAccess call.s3 (some MINIO_FALLBACK_BUCKET) true = true
  block : call.hashData.hash ≠ none → call.hashData.data ≠ none → ∃ h data, call.hashData.IsBlock h data

namespace MinioFallbackAux

/-- Two keys of what is known of blocks are the same for one hash only. -/
theorem generateFilemetaObjectkey_inj {g h : Hash}
    (heq : generateFilemetaObjectkey (hexText g.bytes) = generateFilemetaObjectkey (hexText h.bytes)) : g = h := by
  have hbytes := congrArg CString.bytes heq
  rw [bytes_generateFilemetaObjectkey, bytes_generateFilemetaObjectkey] at hbytes
  exact hexText_inj (CString.ext (List.append_cancel_right hbytes))

/-- A hash has two digits for each byte. -/
theorem length_hexText (h : Hash) : (hexText h.bytes).bytes.length = 64 := by
  have hdigits : ∀ bytes : Bytes, (bytes.flatMap hexOctet).length = 2 * bytes.length := by
    intro bytes
    induction bytes with
    | nil => rfl
    | cons b bytes ih =>
      rw [List.flatMap_cons, List.length_append, ih, List.length_cons]
      show 2 + 2 * bytes.length = 2 * (bytes.length + 1)
      omega
  have hlength := hdigits h.bytes
  rwa [h.length_eq] at hlength

/-- No hash is the key of what is known of a block. -/
theorem hexText_ne (g h : Hash) : hexText g.bytes ≠ generateFilemetaObjectkey (hexText h.bytes) := by
  intro heq
  have hlength := congrArg (fun text : CString => text.bytes.length) heq
  simp only [bytes_generateFilemetaObjectkey, List.length_append, length_hexText, show (str ".meta").length = 5 by decide]
    at hlength
  omega

/-- What is written of a type of compression is allowed. -/
theorem isCompressTypeAllowed_writtenCmptype (cmptype : Int16) : isCompressTypeAllowed (writtenCmptype cmptype) = true := by
  unfold writtenCmptype
  split_ifs with h
  · exact h
  · rfl

/-- The key file of a block is that with the type of compression that is written. -/
theorem filemetaKeyfile_writtenCmptype (uncmplen : Int64) (cmptype : Int16) :
    filemetaKeyfile uncmplen cmptype = filemetaKeyfile uncmplen (writtenCmptype cmptype) := by
  unfold filemetaKeyfile
  rw [if_pos (isCompressTypeAllowed_writtenCmptype cmptype)]
  rfl

/-- While the fallback bucket can be accessed there is a bucket to work with. -/
theorem exists_workingBucket {s3 : Libs3} (hfallback : checkBucketAccess s3 (some MINIO_FALLBACK_BUCKET) true = true)
    (bucket : CString) : ∃ working, workingBucket s3 (some bucket) = some working := by
  unfold workingBucket
  split_ifs
  · exact ⟨bucket, rfl⟩
  · exact ⟨MINIO_FALLBACK_BUCKET, rfl⟩

/-- A call with which the program goes on: what is known of the block is put into one bucket and its data, which are not empty,
into one. -/
theorem minioStoreData_isBlock {s3 : Libs3} (hs3 : s3.Documented) {stackRoom : Nat}
    (hfallback : checkBucketAccess s3 (some MINIO_FALLBACK_BUCKET) true = true) (bucketData bucketFilemeta : CString)
    {hd : HashData} {h : Hash} {data : Bytes} (hhd : hd.IsBlock h data) {objects objects' : Objects}
    (hstore : minioStoreData s3 stackRoom ⟨some bucketData, some bucketFilemeta⟩ objects hd = some objects') :
    (CString.ofBytes data).bytes ≠ [] ∧ ∃ workingData workingFilemeta,
      workingBucket s3 (some bucketData) = some workingData ∧ workingBucket s3 (some bucketFilemeta) = some workingFilemeta ∧
      objects' = (objects.put workingFilemeta (generateFilemetaObjectkey (hexText h.bytes))
        (gKeyFileToData (filemetaKeyfile hd.uncmplen (writtenCmptype hd.cmptype)))).put workingData (hexText h.bytes)
          (CString.ofBytes data).bytes := by
  obtain ⟨workingData, hdata⟩ := exists_workingBucket hfallback bucketData
  obtain ⟨workingFilemeta, hfilemeta⟩ := exists_workingBucket hfallback bucketFilemeta
  have hallowed := isCompressTypeAllowed_writtenCmptype hd.cmptype
  have htext := CString.bytes_ofBytes (gKeyFileToData_filemetaKeyfile hd.uncmplen hallowed).1
  simp only [minioStoreData, hdata, hfilemeta, hhd.hash, hashToString_bytes, hhd.data, saveFilemetaToBucket, saveDataToBucket]
    at hstore
  rw [filemetaKeyfile_writtenCmptype, putObject_eq hs3, htext] at hstore
  obtain ⟨objects'', hmeta, hstore⟩ := Option.bind_eq_some_iff.mp hstore
  split_ifs at hmeta
  rw [← Option.some.inj hmeta, putObject_eq hs3] at hstore
  split_ifs at hstore with hput
  exact ⟨hput.1, workingData, workingFilemeta, hdata, hfilemeta, (Option.some.inj hstore).symm⟩

/-- A call without a hash or without data puts nothing. -/
theorem minioStoreData_incomplete (s3 : Libs3) (stackRoom : Nat) (backend : MinioBackend) (objects : Objects) {hd : HashData}
    (h : hd.hash = none ∨ hd.data = none) : minioStoreData s3 stackRoom backend objects hd = some objects := by
  unfold minioStoreData
  rcases workingBucket s3 backend.bucketnameData with _ | bucketData
  · rfl
  rcases workingBucket s3 backend.bucketnameFilemeta with _ | bucketFilemeta
  · rfl
  rcases h with h | h
  · rw [h]
    rfl
  · rw [h]
    rcases hashToString hd.hash with _ | hashString <;> rfl

variable {bucketData bucketFilemeta : CString} {call : MinioCall}

/-- The block of a call with a hash and data. -/
theorem blockOf_isBlock {g : Hash} {data : Bytes} (hblock : call.hashData.IsBlock g data) (h : Hash) :
    call.blockOf h = if g = h then some call.hashData else none := by
  unfold MinioCall.blockOf
  rw [hblock.hash, hblock.data]
  by_cases heq : g = h
  · rw [if_pos heq, if_pos ⟨by rw [heq], by simp⟩]
  · rw [if_neg heq, if_neg fun hsame => heq (Hash.ext (Option.some.inj hsame.1))]

/-- A call without a hash or without data has no block. -/
theorem blockOf_incomplete (hincomplete : call.hashData.hash = none ∨ call.hashData.data = none) (h : Hash) :
    call.blockOf h = none := by
  unfold MinioCall.blockOf
  rcases hincomplete with hnone | hnone <;> simp [hnone]

/-- What is in a configured bucket under a hash after a call: the data it has put there, or what was there before. -/
theorem data_step (hcall : call.Possible) (h : Hash) {objects objects' : Objects}
    (hstore : minioStoreData call.s3 call.stackRoom ⟨some bucketData, some bucketFilemeta⟩ objects call.hashData = some objects') :
    objects' bucketData (hexText h.bytes) = (call.dataIn bucketData h).or (objects bucketData (hexText h.bytes)) := by
  unfold MinioCall.dataIn
  by_cases hincomplete : call.hashData.hash = none ∨ call.hashData.data = none
  · rw [minioStoreData_incomplete _ _ _ _ hincomplete, Option.some.injEq] at hstore
    rw [blockOf_incomplete hincomplete, hstore, Option.bind_none, ite_self, Option.none_or]
  · rw [not_or] at hincomplete
    obtain ⟨g, data, hblock⟩ := hcall.block hincomplete.1 hincomplete.2
    obtain ⟨-, workingData, workingFilemeta, hworking, -, rfl⟩ :=
      minioStoreData_isBlock hcall.libs3 hcall.fallback bucketData bucketFilemeta hblock hstore
    have hbefore : ¬(bucketData = workingFilemeta ∧ hexText h.bytes = generateFilemetaObjectkey (hexText g.bytes)) :=
      fun hsame => hexText_ne h g hsame.2
    rw [Objects.put_apply, Objects.put_apply, if_neg hbefore, hworking, blockOf_isBlock hblock]
    by_cases hgh : g = h
    · subst hgh
      rw [if_pos rfl, Option.bind_some, hblock.data, Option.map_some]
      by_cases hbucket : workingData = bucketData
      · rw [if_pos ⟨hbucket.symm, rfl⟩, if_pos (congrArg some hbucket), Option.some_or]
      · rw [if_neg fun hsame => hbucket hsame.1.symm, if_neg fun hsame => hbucket (Option.some.inj hsame), Option.none_or]
    · rw [if_neg fun hsame => hgh (hexText_inj hsame.2).symm, if_neg hgh, Option.bind_none, ite_self, Option.none_or]

/-- The key file of what is known of a block. -/
def keyFileOf (filemeta : Int16 × Int64) : Bytes := gKeyFileToData (filemetaKeyfile filemeta.2 filemeta.1)

/-- What is beside a hash in a configured bucket after a call: the key file it has put there, or what was there before. -/
theorem filemeta_step (hcall : call.Possible) (h : Hash) {objects objects' : Objects}
    (hstore : minioStoreData call.s3 call.stackRoom ⟨some bucketData, some bucketFilemeta⟩ objects call.hashData = some objects') :
    objects' bucketFilemeta (generateFilemetaObjectkey (hexText h.bytes)) =
      ((call.filemetaIn bucketFilemeta h).map keyFileOf).or
        (objects bucketFilemeta (generateFilemetaObjectkey (hexText h.bytes))) := by
  unfold MinioCall.filemetaIn
  by_cases hincomplete : call.hashData.hash = none ∨ call.hashData.data = none
  · rw [minioStoreData_incomplete _ _ _ _ hincomplete, Option.some.injEq] at hstore
    rw [blockOf_incomplete hincomplete, hstore, Option.map_none, ite_self, Option.map_none, Option.none_or]
  · rw [not_or] at hincomplete
    obtain ⟨g, data, hblock⟩ := hcall.block hincomplete.1 hincomplete.2
    obtain ⟨-, workingData, workingFilemeta, -, hworking, rfl⟩ :=
      minioStoreData_isBlock hcall.libs3 hcall.fallback bucketData bucketFilemeta hblock hstore
    have hafter : ¬(bucketFilemeta = workingData ∧ generateFilemetaObjectkey (hexText h.bytes) = hexText g.bytes) :=
      fun hsame => hexText_ne g h hsame.2.symm
    rw [Objects.put_apply, if_neg hafter, Objects.put_apply, hworking, blockOf_isBlock hblock]
    by_cases hgh : g = h
    · subst hgh
      rw [if_pos rfl, Option.map_some]
      by_cases hbucket : workingFilemeta = bucketFilemeta
      · rw [if_pos ⟨hbucket.symm, rfl⟩, if_pos (congrArg some hbucket), Option.map_some, Option.some_or]
        rfl
      · rw [if_neg fun hsame => hbucket hsame.1.symm, if_neg fun hsame => hbucket (Option.some.inj hsame), Option.map_none, Option.none_or]
    · rw [if_neg fun hsame => hgh (generateFilemetaObjectkey_inj hsame.2).symm, if_neg hgh, Option.map_none, ite_self,
        Option.map_none, Option.none_or]

variable {calls : List MinioCall} (hcalls : ∀ call ∈ calls, call.Possible) {objects : Objects}
  (hrun : minioStoreAll ⟨some bucketData, some bucketFilemeta⟩ (fun _ _ => none) calls = some objects)

include hcalls hrun

/-- After the calls the last data that were put under a hash into the configured bucket are there. -/
theorem data_run (h : Hash) :
    objects bucketData (hexText h.bytes) = LastWrite.last (MinioCall.dataIn bucketData h) calls := by
  have hget := LastWrite.get_run (fun objects : Objects => objects bucketData (hexText h.bytes))
    (fun call hmem before after hstore => data_step (hcalls call hmem) h hstore) hrun
  rwa [Option.or_none] at hget

/-- After the calls the key file of what was last put beside a hash in the configured bucket is there. -/
theorem filemeta_run (h : Hash) :
    objects bucketFilemeta (generateFilemetaObjectkey (hexText h.bytes)) =
      (LastWrite.last (MinioCall.filemetaIn bucketFilemeta h) calls).map keyFileOf := by
  have hget := LastWrite.get_run (fun objects : Objects => objects bucketFilemeta (generateFilemetaObjectkey (hexText h.bytes)))
    (fun call hmem before after hstore => filemeta_step (hcalls call hmem) h hstore) hrun
  rwa [Option.or_none, LastWrite.last_map] at hget

/-- The data of a block that was stored are not empty. -/
theorem exists_isBlock {h : Hash} {hd : HashData} (hlast : LastWrite.last (MinioCall.blockOf h) calls = some hd) :
    ∃ data, hd.IsBlock h data ∧ data ≠ [] := by
  obtain ⟨call, hmem, hcall⟩ := LastWrite.exists_of_last hlast
  obtain ⟨before, after, hstep⟩ := LastWrite.exists_step hrun hmem
  unfold MinioCall.blockOf at hcall
  split_ifs at hcall with hcomplete
  obtain rfl := Option.some.inj hcall
  obtain ⟨g, data, hblock⟩ := (hcalls call hmem).block (by simp [hcomplete.1]) hcomplete.2
  obtain rfl : g = h := Hash.ext (Option.some.inj (hblock.hash.symm.trans hcomplete.1))
  refine ⟨data, hblock, ?_⟩
  rintro rfl
  exact (minioStoreData_isBlock (hcalls call hmem).libs3 (hcalls call hmem).fallback bucketData bucketFilemeta hblock hstep).1 rfl

/-- What is retrieved of a block after the calls. -/
theorem minioRetrieveData_run {s3 : Libs3} (hs3 : s3.Documented) (h : Hash) :
    minioRetrieveData s3 ⟨some bucketData, some bucketFilemeta⟩ objects (hexText h.bytes) =
      (LastWrite.last (MinioCall.filemetaIn bucketFilemeta h) calls).map fun filemeta =>
        let data := (LastWrite.last (MinioCall.dataIn bucketData h) calls).getD []
        newHashDataAsIs (some data) (Int64.ofNat data.length) (some h.bytes) filemeta.1 filemeta.2 := by
  have hdata : getObject s3 objects bucketData (hexText h.bytes) =
      (LastWrite.last (MinioCall.dataIn bucketData h) calls).getD [] := by
    have hthere := data_run hcalls hrun h
    rcases hlast : LastWrite.last (MinioCall.dataIn bucketData h) calls with _ | data
    · rw [hlast] at hthere
      unfold getObject
      rw [hthere, Option.getD_none]
    · rw [hlast] at hthere
      exact getObject_eq hs3 hthere
  have hfilemeta := filemeta_run hcalls hrun h
  simp only [minioRetrieveData, stringToHash_hexText, hdata]
  rcases hlast : LastWrite.last (MinioCall.filemetaIn bucketFilemeta h) calls with _ | filemeta
  · -- nothing is beside the hash, and nothing is what is got
    rw [hlast, Option.map_none] at hfilemeta
    have hnone : getFilemetaValues s3 objects bucketFilemeta (hexText h.bytes) = none := by
      unfold getFilemetaValues getObject
      rw [hfilemeta]
      rfl
    rw [hnone, Option.map_none]
  · rw [hlast, Option.map_some] at hfilemeta
    obtain ⟨call, -, hcall⟩ := LastWrite.exists_of_last hlast
    have hallowed : isCompressTypeAllowed filemeta.1 = true := by
      unfold MinioCall.filemetaIn at hcall
      split_ifs at hcall
      obtain ⟨hd, -, rfl⟩ := Option.map_eq_some_iff.mp hcall
      exact isCompressTypeAllowed_writtenCmptype hd.cmptype
    rw [getFilemetaValues_eq hs3 bucketFilemeta (hexText h.bytes) filemeta.2 hallowed hfilemeta]

omit hcalls hrun in
/-- A hash that is a key in the bucket is not asked for. -/
theorem not_mem_prependMissing {bucket : CString} {h : Hash} (hthere : (objects bucket (hexText h.bytes)).isSome = true)
    (list : List HashData) : ∀ {needed : List HashData}, (∀ hd ∈ needed, hd.hash ≠ some h.bytes) →
      ∀ hd ∈ prependMissing objects (some bucket) needed list, hd.hash ≠ some h.bytes := by
  induction list with
  | nil => exact fun hneeded => hneeded
  | cons hashData list ih =>
    intro needed hneeded
    unfold prependMissing
    split_ifs with hmissing
    · refine ih fun hd hmem => ?_
      rcases List.mem_cons.mp hmem with rfl | hmem
      · intro hcopy
        obtain ⟨bytes, hbytes, htake⟩ := Option.map_eq_some_iff.mp hcopy
        have hstring : hashToString hashData.hash = some (hexText h.bytes) := by
          rw [hbytes, hashToString, Option.map_some, htake]
        rw [hstring, checkKeyExistInBucket, hthere] at hmissing
        exact absurd hmissing.1 (by simp)
      · exact hneeded hd hmem
    · exact ih hneeded

end MinioFallbackAux

/-! ## What is found again -/

/-- The last block that was stored with a hash is retrieved by it, and no list of needed hashs has that hash in it. -/
def KeepsBlocks (s3 : Libs3) (backend : MinioBackend) (calls : List MinioCall) (objects : Objects) : Prop :=
  ∀ h hd, LastWrite.last (MinioCall.blockOf h) calls = some hd →
    (∃ hashString, hashToString (some h.bytes) = some hashString ∧
      minioRetrieveData s3 backend objects hashString = some hd) ∧
    ∀ list, ∀ needed ∈ minioBuildNeededHashList s3 backend objects list, needed.hash ≠ some h.bytes

/-- After any number of calls the last block of each hash is retrieved and not asked for exactly when, of the calls with that hash
that found the configured bucket of the data, the last one put its data there, and of those that found the bucket of the key
files, the last one put what else is known of it there. -/
theorem keepsBlocks_iff {bucketData bucketFilemeta : CString} {calls : List MinioCall} (hcalls : ∀ call ∈ calls, call.Possible)
    {objects : Objects}
    (hrun : minioStoreAll ⟨some bucketData, some bucketFilemeta⟩ (fun _ _ => none) calls = some objects) {s3 : Libs3}
    (hs3 : s3.Documented) :
    KeepsBlocks s3 ⟨some bucketData, some bucketFilemeta⟩ calls objects ↔
      ∀ h hd, LastWrite.last (MinioCall.blockOf h) calls = some hd →
        LastWrite.last (MinioCall.dataIn bucketData h) calls = hd.data ∧
          LastWrite.last (MinioCall.filemetaIn bucketFilemeta h) calls = some (hd.cmptype, hd.uncmplen) := by
  have hretrieved := MinioFallbackAux.minioRetrieveData_run hcalls hrun hs3
  constructor
  · intro hkeeps h hd hlast
    obtain ⟨⟨hashString, hstring, hback⟩, -⟩ := hkeeps h hd hlast
    obtain ⟨data, hblock, hne⟩ := MinioFallbackAux.exists_isBlock hcalls hrun hlast
    obtain rfl : hexText h.bytes = hashString := Option.some.inj ((hashToString_bytes h).symm.trans hstring)
    rw [hretrieved h, Option.map_eq_some_iff] at hback
    obtain ⟨filemeta, hfilemeta, rfl⟩ := hback
    refine ⟨?_, hfilemeta⟩
    have hdata := Option.some.inj hblock.data
    rcases hput : LastWrite.last (MinioCall.dataIn bucketData h) calls with _ | put
    · rw [hput] at hdata
      exact absurd hdata.symm hne
    · rw [newHashDataAsIs, Option.getD_some]
  · intro hput h hd hlast
    obtain ⟨hdata, hfilemeta⟩ := hput h hd hlast
    obtain ⟨data, hblock, -⟩ := MinioFallbackAux.exists_isBlock hcalls hrun hlast
    rw [hblock.data] at hdata
    refine ⟨⟨hexText h.bytes, hashToString_bytes h, ?_⟩, fun list needed hneeded => ?_⟩
    · have hread : Int64.ofNat data.length = hd.read := by
        rw [← Int64.toInt_inj, hblock.read, Int64.toInt_ofNat_of_lt (by have := hd.read.toInt_lt; have := hblock.read; omega)]
      rw [hretrieved h, hfilemeta, hdata, Option.map_some]
      simp only [Option.getD_some, hread, newHashDataAsIs]
      rw [← hblock.hash, ← hblock.data]
    · unfold minioBuildNeededHashList at hneeded
      split_ifs at hneeded
      · refine MinioFallbackAux.not_mem_prependMissing ?_ list (by simp) needed (List.mem_reverse.mp hneeded)
        rw [MinioFallbackAux.data_run hcalls hrun h, hdata]
        rfl
      · exact absurd hneeded List.not_mem_nil

/-- A libs3 that cannot access a bucket. -/
def lostBucket (bucket : CString) : Libs3 := { wholeLibs3 with
  testBucket := fun b => b ≠ bucket
  createBucket := fun b => b ≠ bucket }

/-- Calls with a block while the fallback bucket can be accessed. -/
theorem possible_call {s3 : Libs3} (hsizes : s3.putSizes = wholeLibs3.putSizes) (hchunks : s3.chunks = wholeLibs3.chunks)
    (hfallback : checkBucketAccess s3 (some MINIO_FALLBACK_BUCKET) true = true) :
    (MinioCall.mk s3 4096 (blockOf (str "text"))).Possible where
  libs3 := ⟨by rw [hsizes]; exact documented_wholeLibs3.putSizes, by rw [hchunks]; exact documented_wholeLibs3.chunks⟩
  fallback := hfallback
  block := fun _ _ => ⟨⟨List.replicate 32 7, rfl⟩, str "text", isBlock_blockOf (by decide)⟩

/-- A block that is stored once without the bucket of the key files, and then with all buckets, is found again. -/
theorem storedAgain_keepsBlocks : ∃ objects, minioStoreAll twoBuckets (fun _ _ => none)
      [⟨lostBucket (CString.lit "testbucket-meta"), 4096, blockOf (str "text")⟩, ⟨wholeLibs3, 4096, blockOf (str "text")⟩] = some objects ∧
    KeepsBlocks wholeLibs3 twoBuckets
      [⟨lostBucket (CString.lit "testbucket-meta"), 4096, blockOf (str "text")⟩, ⟨wholeLibs3, 4096, blockOf (str "text")⟩] objects := by
  obtain ⟨objects, hrun⟩ := Option.isSome_iff_exists.mp (show (minioStoreAll twoBuckets (fun _ _ => none)
    [⟨lostBucket (CString.lit "testbucket-meta"), 4096, blockOf (str "text")⟩, ⟨wholeLibs3, 4096, blockOf (str "text")⟩]).isSome = true by
      decide +kernel)
  refine ⟨objects, hrun, (keepsBlocks_iff ?_ hrun documented_wholeLibs3).mpr ?_⟩
  · intro call hcall
    rcases List.mem_pair.mp hcall with rfl | rfl
    · exact possible_call rfl rfl (by decide +kernel)
    · exact possible_call rfl rfl rfl
  · intro h hd hlast
    obtain ⟨call, hmem, hcall⟩ := LastWrite.exists_of_last hlast
    unfold MinioCall.blockOf at hcall
    split_ifs at hcall with hcomplete
    obtain rfl := Option.some.inj hcall
    have hsame : call.hashData = blockOf (str "text") := by
      rcases List.mem_pair.mp hmem with rfl | rfl <;> rfl
    rw [hsame] at hcomplete ⊢
    obtain rfl : (⟨List.replicate 32 7, rfl⟩ : Hash) = h := Hash.ext (Option.some.inj hcomplete.1)
    exact ⟨by decide +kernel, by decide +kernel⟩

/-- A block whose data were stored while their bucket could not be accessed is neither retrieved nor taken as stored, when all
buckets can be accessed again. -/
theorem dataInFallback_losesBlock : ∃ objects, minioStoreAll twoBuckets (fun _ _ => none)
      [⟨lostBucket (CString.lit "testbucket"), 4096, blockOf (str "text")⟩] = some objects ∧
    (MinioCall.mk (lostBucket (CString.lit "testbucket")) 4096 (blockOf (str "text"))).Possible ∧
    ¬KeepsBlocks wholeLibs3 twoBuckets [⟨lostBucket (CString.lit "testbucket"), 4096, blockOf (str "text")⟩] objects := by
  obtain ⟨objects, hrun⟩ := Option.isSome_iff_exists.mp (show (minioStoreAll twoBuckets (fun _ _ => none)
    [⟨lostBucket (CString.lit "testbucket"), 4096, blockOf (str "text")⟩]).isSome = true by decide +kernel)
  have hpossible : (MinioCall.mk (lostBucket (CString.lit "testbucket")) 4096 (blockOf (str "text"))).Possible :=
    possible_call rfl rfl (by decide +kernel)
  refine ⟨objects, hrun, hpossible, fun hkeeps => ?_⟩
  obtain ⟨⟨hashString, hstring, hback⟩, -⟩ :=
    hkeeps ⟨List.replicate 32 7, rfl⟩ (blockOf (str "text")) (by decide +kernel)
  obtain rfl := Option.some.inj ((hashToString_bytes _).symm.trans hstring)
  have hretrieved := MinioFallbackAux.minioRetrieveData_run (fun call hcall => List.mem_singleton.mp hcall ▸ hpossible) hrun
    documented_wholeLibs3 ⟨List.replicate 32 7, rfl⟩
  have hnone : LastWrite.last (MinioCall.dataIn (CString.lit "testbucket") ⟨List.replicate 32 7, rfl⟩)
      [⟨lostBucket (CString.lit "testbucket"), 4096, blockOf (str "text")⟩] = none := by decide +kernel
  rw [hnone] at hretrieved
  obtain ⟨filemeta, -, hempty⟩ := Option.map_eq_some_iff.mp (hretrieved.symm.trans hback)
  have hdata : some [] = some (str "text") := congrArg HashData.data hempty
  exact absurd hdata (by decide)

end Sauvegarde
