import Mathlib.Data.Bool.AllAny
import Sauvegarde.Server.MinioBackend

/-!
# A block in MinIO

When `minio_retrieve_data` gives back the block that `minio_store_data` was given.
-/

namespace Sauvegarde

/-- The block comes back: it is stored, and retrieved by its hash in hexadecimal it is the same, with its data, its lengths, its
compression and its hash. -/
def ComesBackFromMinio (s3 : Libs3) (stackRoom : Nat) (backend : MinioBackend) (objects : Objects) (hd : HashData) : Prop :=
  ∃ objects', minioStoreData s3 stackRoom backend objects hd = some objects' ∧
    ∃ hashString, hashToString hd.hash = some hashString ∧ minioRetrieveData s3 backend objects' hashString = some hd

/-- The text of the key file of a block fits on the stack. -/
abbrev FilemetaFits (stackRoom : Nat) (hd : HashData) : Prop :=
  FitsStack stackRoom (gKeyFileToData (filemetaKeyfile hd.uncmplen hd.cmptype))

namespace MinioAux

/-- The key of what is known of a block is not the key of its data. -/
theorem generateFilemetaObjectkey_ne (hashString : CString) : generateFilemetaObjectkey hashString ≠ hashString := by
  intro h
  have hlen := congrArg (fun text : CString => text.bytes.length) h
  simp only [bytes_generateFilemetaObjectkey, List.length_append] at hlen
  have : (str ".meta").length = 5 := by decide
  omega

/-- A bucket that can be accessed is the one that is worked with. -/
theorem workingBucket_eq {s3 : Libs3} {bucketname : Option CString} (h : checkBucketAccess s3 bucketname true = true) :
    ∃ bucket, bucketname = some bucket ∧ workingBucket s3 bucketname = some bucket := by
  rcases bucketname with _ | bucket
  · exact absurd h (by simp [checkBucketAccess])
  · exact ⟨bucket, rfl, by rw [workingBucket, if_pos h]⟩

/-- The data are stored as the string they begin with, and the block is retrieved with that string; without one, or with one
that is too long, for an `int` or for the stack, the program is ended. -/
theorem minioStoreData_spec {s3 : Libs3} (hs3 : s3.Documented) (stackRoom : Nat) (backend : MinioBackend)
    (haccessData : checkBucketAccess s3 backend.bucketnameData true = true)
    (haccessFilemeta : checkBucketAccess s3 backend.bucketnameFilemeta true = true) (objects : Objects) {hd : HashData}
    {h : Hash} {data : Bytes} (hhd : hd.IsBlock h data) (hcmp : isCompressTypeAllowed hd.cmptype = true) :
    if ((CString.ofBytes data).bytes ≠ [] ∧ (CString.ofBytes data).bytes.length < 2 ^ 31 ∧
        FitsStack stackRoom (CString.ofBytes data).bytes) ∧ FilemetaFits stackRoom hd then
      ∃ objects', minioStoreData s3 stackRoom backend objects hd = some objects' ∧
        minioRetrieveData s3 backend objects' (hexText h.bytes) =
          some (newHashDataAsIs (some (CString.ofBytes data).bytes) (Int64.ofNat (CString.ofBytes data).bytes.length)
            (some h.bytes) hd.cmptype hd.uncmplen)
    else minioStoreData s3 stackRoom backend objects hd = none := by
  obtain ⟨bucketData, hbucketData, hworkData⟩ := workingBucket_eq haccessData
  obtain ⟨bucketFilemeta, hbucketFilemeta, hworkFilemeta⟩ := workingBucket_eq haccessFilemeta
  obtain ⟨hzero, hne, hshort⟩ := gKeyFileToData_filemetaKeyfile hd.uncmplen hcmp
  have htext := CString.bytes_ofBytes hzero
  have hhex : hashToString hd.hash = some (hexText h.bytes) := by
    rw [hhd.hash, hashToString_bytes]
  have hstore : minioStoreData s3 stackRoom backend objects hd =
      if FilemetaFits stackRoom hd then
        putObject s3 stackRoom (objects.put bucketFilemeta (generateFilemetaObjectkey (hexText h.bytes))
          (gKeyFileToData (filemetaKeyfile hd.uncmplen hd.cmptype))) bucketData (hexText h.bytes)
          (some (CString.ofBytes data))
      else none := by
    simp only [minioStoreData, hworkData, hworkFilemeta, hhex, hhd.data, saveFilemetaToBucket, saveDataToBucket]
    rw [putObject_eq hs3, htext]
    by_cases hfits : FilemetaFits stackRoom hd
    · rw [if_pos ⟨hne, hshort, hfits⟩, if_pos hfits, Option.bind_some]
    · rw [if_neg fun hall => hfits hall.2.2, if_neg hfits, Option.bind_none]
  rw [hstore, putObject_eq hs3]
  by_cases hmetaFits : FilemetaFits stackRoom hd
  · rw [if_pos hmetaFits]
    simp only [hmetaFits, and_true]
    split_ifs
    · refine ⟨_, rfl, ?_⟩
      have hmeta : ∀ objects', objects' = (objects.put bucketFilemeta (generateFilemetaObjectkey (hexText h.bytes))
          (gKeyFileToData (filemetaKeyfile hd.uncmplen hd.cmptype))).put bucketData (hexText h.bytes)
            (CString.ofBytes data).bytes →
          getFilemetaValues s3 objects' bucketFilemeta (hexText h.bytes) = some (hd.cmptype, hd.uncmplen) := by
        rintro objects' rfl
        exact getFilemetaValues_eq hs3 _ _ _ hcmp (by simp [generateFilemetaObjectkey_ne])
      simp only [minioRetrieveData, hbucketData, hbucketFilemeta, hmeta _ rfl, Option.map_some, stringToHash_hexText]
      rw [getObject_eq hs3 (if_pos ⟨rfl, rfl⟩)]
    · rfl
  · rw [if_neg fun hall => hmetaFits hall.2, if_neg hmetaFits]

end MinioAux

/-- A block of at least one byte comes back exactly when its data hold no zero byte, are shorter than 2^31 bytes and fit on the
stack of `put_object`, as the text of its key file does. -/
theorem comesBackFromMinio_iff {s3 : Libs3} (hs3 : s3.Documented) (stackRoom : Nat) {backend : MinioBackend}
    (haccessData : checkBucketAccess s3 backend.bucketnameData true = true)
    (haccessFilemeta : checkBucketAccess s3 backend.bucketnameFilemeta true = true) (objects : Objects) {hd : HashData}
    {h : Hash} {data : Bytes} (hhd : hd.IsBlock h data) (hne : data ≠ [])
    (hcmp : isCompressTypeAllowed hd.cmptype = true) :
    ComesBackFromMinio s3 stackRoom backend objects hd ↔
      (∀ b ∈ data, b ≠ 0) ∧ data.length < 2 ^ 31 ∧ FitsStack stackRoom data ∧ FilemetaFits stackRoom hd := by
  have hspec := MinioAux.minioStoreData_spec hs3 stackRoom backend haccessData haccessFilemeta objects hhd hcmp
  have hhex : hashToString hd.hash = some (hexText h.bytes) := by
    rw [hhd.hash, hashToString_bytes]
  constructor
  · rintro ⟨objects', hstore, hashString, hhashString, hback⟩
    rw [hhex, Option.some.injEq] at hhashString
    split_ifs at hspec with hput
    · obtain ⟨objects'', hstore', hback'⟩ := hspec
      rw [hstore, Option.some.injEq] at hstore'
      rw [← hstore', hhashString, hback, Option.some.injEq] at hback'
      have hdata : data = (CString.ofBytes data).bytes := by
        have := congrArg HashData.data hback'
        rw [hhd.data] at this
        exact Option.some.inj this
      rw [← hdata] at hput
      exact ⟨fun b hb => (CString.ofBytes data).nulFree b (hdata ▸ hb), hput.1.2.1, hput.1.2.2, hput.2⟩
    · exact absurd (hstore.symm.trans hspec) (by simp)
  · rintro ⟨hzero, hshort, hfits, hmeta⟩
    rw [CString.bytes_ofBytes hzero, if_pos ⟨⟨hne, hshort, hfits⟩, hmeta⟩] at hspec
    obtain ⟨objects', hstore, hback⟩ := hspec
    refine ⟨objects', hstore, _, hhex, hback.trans ?_⟩
    have hread : Int64.ofNat data.length = hd.read := by
      rw [← Int64.toInt_inj, hhd.read, Int64.toInt_ofNat_of_lt (by omega)]
    rw [hread, newHashDataAsIs, ← hhd.hash, ← hhd.data]

/-- A libs3 that has one buffer filled for all of the content and hands over an object at once, on a server with all buckets. -/
def wholeLibs3 : Libs3 where
  putSizes := fun n => [n]
  chunks := fun object => [object]
  testBucket := fun _ => true
  createBucket := fun _ => true

theorem documented_wholeLibs3 : wholeLibs3.Documented := ⟨fun n => by simp [wholeLibs3], fun object => by simp [wholeLibs3]⟩

/-- A backend with two buckets. -/
def twoBuckets : MinioBackend := ⟨some (CString.lit "testbucket"), some (CString.lit "testbucket-meta")⟩

/-- A block that is not compressed. -/
def blockOf (data : Bytes) : HashData :=
  newHashDataAsIs (some data) (Int64.ofNat data.length) (some (List.replicate 32 7)) COMPRESS_NONE_TYPE 0

/-- A short block of bytes is one. -/
theorem isBlock_blockOf {data : Bytes} (h : data.length < 2 ^ 63) :
    (blockOf data).IsBlock ⟨List.replicate 32 7, rfl⟩ data := ⟨rfl, rfl, Int64.toInt_ofNat_of_lt h⟩

/-- A block of text comes back. -/
theorem textBlock_comesBack : ComesBackFromMinio wholeLibs3 4096 twoBuckets (fun _ _ => none) (blockOf (str "text")) :=
  (comesBackFromMinio_iff documented_wholeLibs3 4096 rfl rfl _ (isBlock_blockOf (by decide)) (by decide) rfl).mpr
    ⟨List.all_iff_forall_prop.mp (by decide), by decide, by decide, by decide +kernel⟩

/-- A block with a zero byte between two others does not come back: it is stored as the byte before the zero. -/
theorem zeroByte_cutsBlock : (blockOf [97, 0, 98]).IsBlock ⟨List.replicate 32 7, rfl⟩ [97, 0, 98] ∧
    wholeLibs3.Documented ∧ checkBucketAccess wholeLibs3 twoBuckets.bucketnameData true = true ∧
    checkBucketAccess wholeLibs3 twoBuckets.bucketnameFilemeta true = true ∧
    ¬ ComesBackFromMinio wholeLibs3 4096 twoBuckets (fun _ _ => none) (blockOf [97, 0, 98]) := by
  have hblock : (blockOf [97, 0, 98]).IsBlock ⟨List.replicate 32 7, rfl⟩ [97, 0, 98] := isBlock_blockOf (by decide)
  refine ⟨hblock, documented_wholeLibs3, rfl, rfl, ?_⟩
  rintro ⟨objects', hstore, hashString, hhashString, hback⟩
  have hspec := MinioAux.minioStoreData_spec documented_wholeLibs3 4096 twoBuckets rfl rfl (fun _ _ => none) hblock rfl
  rw [if_pos (by decide +kernel)] at hspec
  obtain ⟨objects'', hstore', hback'⟩ := hspec
  rw [hstore, Option.some.injEq] at hstore'
  have hhex : hashString = hexText (List.replicate 32 7) := (Option.some.inj hhashString).symm.trans rfl
  rw [← hstore', ← hhex, hback, Option.some.injEq] at hback'
  exact absurd (congrArg HashData.data hback') (by decide)

end Sauvegarde
