import Mathlib.Data.Bool.AllAny
import Sauvegarde.Extern.KeyFile
import Sauvegarde.Libcdpfgl.Compress
import Sauvegarde.Libcdpfgl.Hashs
import Sauvegarde.Server.MinioInterface

/-!
# The MinIO backend

Blocks as objects: the data under the hash in hexadecimal, and beside it a key file with what else is known of the block.
-/

namespace Sauvegarde

/-- `minio_backend_t`, the names of its buckets. -/
structure MinioBackend where
  bucketnameData : Option CString
  bucketnameFilemeta : Option CString

/-- `MINIO_FALLBACK_BUCKET`. -/
def MINIO_FALLBACK_BUCKET : CString := CString.lit "tmp-fallback"

/-- `GN_META`, the group in the key file. -/
def GN_META : Bytes := str "Meta"

/-- `KN_UNCMPLEN`. -/
def KN_UNCMPLEN : Bytes := str "uncmplen"

/-- `KN_CMPTYPE`. -/
def KN_CMPTYPE : Bytes := str "cmptype"

/-- `generate_filemeta_objectkey`. -/
def generateFilemetaObjectkey (hashString : CString) : CString := CString.ofBytes (hashString.bytes ++ str ".meta")

/-- `checkBucketAccess`. -/
def checkBucketAccess (s3 : Libs3) (bucketname : Option CString) (addIfMissing : Bool) : Bool :=
  match bucketname with
  | none => false
  | some bucket => s3.testBucket bucket || (addIfMissing && s3.createBucket bucket)

/-- The bucket that is stored to: the configured one, or the fallback. -/
def workingBucket (s3 : Libs3) (bucketname : Option CString) : Option CString :=
  if checkBucketAccess s3 bucketname true then bucketname
  else if checkBucketAccess s3 (some MINIO_FALLBACK_BUCKET) true then some MINIO_FALLBACK_BUCKET
  else none

/-- The key file of a block; a compression that is not allowed is written as none. -/
def filemetaKeyfile (uncmplen : Int64) (cmptype : Int16) : KeyFile :=
  let cmptype := if isCompressTypeAllowed cmptype then cmptype else COMPRESS_NONE_TYPE
  gKeyFileSetInteger (gKeyFileSetInt64 [] GN_META KN_UNCMPLEN uncmplen) GN_META KN_CMPTYPE cmptype.toInt32

/-- `save_filemeta_to_bucket`. -/
def saveFilemetaToBucket (s3 : Libs3) (stackRoom : Nat) (objects : Objects) (bucketname hashString : CString)
    (uncmplen : Int64) (cmptype : Int16) : Option Objects :=
  putObject s3 stackRoom objects bucketname (generateFilemetaObjectkey hashString)
    (some (CString.ofBytes (gKeyFileToData (filemetaKeyfile uncmplen cmptype))))

/-- `save_data_to_bucket`: the data are handed over as a string. A zero stands behind the bytes of a block in memory. -/
def saveDataToBucket (s3 : Libs3) (stackRoom : Nat) (objects : Objects) (bucketname hashString : CString) (data : Bytes) :
    Option Objects :=
  putObject s3 stackRoom objects bucketname hashString (some (CString.ofBytes data))

/-- `minio_store_data`: `none` when the program is ended. Both objects are put with the same room on the stack. -/
def minioStoreData (s3 : Libs3) (stackRoom : Nat) (backend : MinioBackend) (objects : Objects) (hashData : HashData) :
    Option Objects :=
  match workingBucket s3 backend.bucketnameData, workingBucket s3 backend.bucketnameFilemeta with
  | some bucketData, some bucketFilemeta =>
    match hashToString hashData.hash, hashData.data with
    | some hashString, some data =>
      (saveFilemetaToBucket s3 stackRoom objects bucketFilemeta hashString hashData.uncmplen hashData.cmptype).bind
        fun objects => saveDataToBucket s3 stackRoom objects bucketData hashString data
    | _, _ => some objects
  | _, _ => some objects

/-- `read_int64_from_file`. -/
def readInt64FromFile (keyfile : KeyFile) (groupname keyname : Bytes) (defValue : Int64) : Int64 :=
  match gKeyFileGetValue keyfile groupname keyname with
  | none => defValue
  | some value => gKeyFileGetInt64 value

/-- `read_int_from_file`. -/
def readIntFromFile (keyfile : KeyFile) (groupname keyname : Bytes) (defValue : Int32) : Int32 :=
  match gKeyFileGetValue keyfile groupname keyname with
  | none => defValue
  | some value => gKeyFileGetInteger value

/-- `get_filemeta_values`: the type of compression and the uncompressed length. -/
def getFilemetaValues (s3 : Libs3) (objects : Objects) (bucket hashString : CString) : Option (Int16 × Int64) :=
  let filemetaContent := CString.ofBytes (getObject s3 objects bucket (generateFilemetaObjectkey hashString))
  if filemetaContent.bytes = [] then none
  else
    (gKeyFileLoadFromData filemetaContent.bytes).map fun keyfile =>
      ((readIntFromFile keyfile GN_META KN_CMPTYPE COMPRESS_NONE_TYPE.toInt32).toInt16,
        readInt64FromFile keyfile GN_META KN_UNCMPLEN (-1))

/-- `minio_retrieve_data`. -/
def minioRetrieveData (s3 : Libs3) (backend : MinioBackend) (objects : Objects) (hashString : CString) : Option HashData :=
  match backend.bucketnameFilemeta, backend.bucketnameData with
  | some bucketFilemeta, some bucketData =>
    (getFilemetaValues s3 objects bucketFilemeta hashString).map fun (cmptype, uncmplen) =>
      let data := getObject s3 objects bucketData hashString
      newHashDataAsIs (some data) (Int64.ofNat data.length) (stringToHash (some hashString)) cmptype uncmplen
  | _, _ => none

/-- `checkKeyExistInBucket`. -/
def checkKeyExistInBucket (objects : Objects) (bucket key : Option CString) : Bool :=
  match bucket, key with
  | some bucket, some key => (objects bucket key).isSome
  | _, _ => false

/-- The loop of `minio_build_needed_hash_list`: each hash that is no key in the bucket goes once to the front of the list. -/
def prependMissing (objects : Objects) (bucket : Option CString) (needed : List HashData) : List HashData → List HashData
  | [] => needed
  | hashData :: head =>
    if checkKeyExistInBucket objects bucket (hashToString hashData.hash) = false ∧ hashDataIsInList hashData needed = false then
      prependMissing objects bucket (copyOnlyHash hashData :: needed) head
    else prependMissing objects bucket needed head

/-- `minio_build_needed_hash_list`: without the bucket no hash is needed. -/
def minioBuildNeededHashList (s3 : Libs3) (backend : MinioBackend) (objects : Objects) (hashList : List HashData) :
    List HashData :=
  if checkBucketAccess s3 backend.bucketnameData false then (prependMissing objects backend.bucketnameData [] hashList).reverse
  else []

/-! ## The key file of a block -/

/-- The key of what is known of a block. -/
theorem bytes_generateFilemetaObjectkey (hashString : CString) :
    (generateFilemetaObjectkey hashString).bytes = hashString.bytes ++ str ".meta" := by
  have hmeta : ∀ b ∈ str ".meta", b ≠ 0 := List.all_iff_forall_prop.mp (by decide)
  refine CString.bytes_ofBytes fun b hb => ?_
  rcases List.mem_append.mp hb with hb | hb
  · exact hashString.nulFree b hb
  · exact hmeta b hb

theorem plainKey_uncmplen : PlainKey KN_UNCMPLEN := ⟨⟨117, str "ncmplen", by decide⟩, by decide, by decide⟩

theorem plainKey_cmptype : PlainKey KN_CMPTYPE := ⟨⟨99, str "mptype", by decide⟩, by decide, by decide⟩

theorem uncmplen_ne_cmptype : KN_UNCMPLEN ≠ KN_CMPTYPE := by decide

/-- The key file of a block that may be stored. -/
theorem filemetaKeyfile_eq {uncmplen : Int64} {cmptype : Int16} (h : isCompressTypeAllowed cmptype = true) :
    filemetaKeyfile uncmplen cmptype = [(GN_META, [(KN_UNCMPLEN, Decimal.printInt uncmplen.toInt),
      (KN_CMPTYPE, Decimal.printInt cmptype.toInt32.toInt)])] := by
  simp only [filemetaKeyfile, if_pos h, gKeyFileSetInteger, gKeyFileSetInt64, gKeyFileSetValue, setEntry, if_true,
    Option.getD_none, Option.getD_some, uncmplen_ne_cmptype, if_false]

/-- A number of 64 bits is written with at most 20 characters. -/
theorem length_printInt_le {z : Int} (hlo : -2 ^ 63 ≤ z) (hhi : z < 2 ^ 63) : (Decimal.printInt z).length ≤ 20 := by
  have hdigits : (Decimal.print z.natAbs).length ≤ 19 := Decimal.length_print_le (by decide) (by omega)
  unfold Decimal.printInt
  split
  · rw [List.length_cons]
    omega
  · omega

/-- The text of the key file of a block is a string, not empty and short. -/
theorem gKeyFileToData_filemetaKeyfile (uncmplen : Int64) {cmptype : Int16} (h : isCompressTypeAllowed cmptype = true) :
    (∀ b ∈ gKeyFileToData (filemetaKeyfile uncmplen cmptype), b ≠ 0) ∧
      gKeyFileToData (filemetaKeyfile uncmplen cmptype) ≠ [] ∧
      (gKeyFileToData (filemetaKeyfile uncmplen cmptype)).length < 2 ^ 31 := by
  have hzero : ∀ z : Int, (0 : UInt8) ∉ Decimal.printInt z := fun z => Decimal.not_mem_printInt (by decide)
  have hlong := length_printInt_le uncmplen.le_toInt uncmplen.toInt_lt
  have hshort : (Decimal.printInt cmptype.toInt32.toInt).length ≤ 20 := by
    have hlo := cmptype.toInt32.le_toInt
    have hhi := cmptype.toInt32.toInt_lt
    exact length_printInt_le (by omega) (by omega)
  have htext : gKeyFileToData (filemetaKeyfile uncmplen cmptype) =
      str "[Meta]\nuncmplen=" ++ (Decimal.printInt uncmplen.toInt ++ (str "\ncmptype=" ++
        (Decimal.printInt cmptype.toInt32.toInt ++ [10]))) := by
    rw [filemetaKeyfile_eq h]
    simp [gKeyFileToData, entryLines, GN_META, KN_UNCMPLEN, KN_CMPTYPE, str]
  rw [htext]
  refine ⟨fun b hb hb0 => ?_, by simp [str], ?_⟩
  · rw [hb0] at hb
    have hfirst : (0 : UInt8) ∉ str "[Meta]\nuncmplen=" := by decide
    have hsecond : (0 : UInt8) ∉ str "\ncmptype=" := by decide
    have hlast : (0 : UInt8) ∉ [10] := by decide
    simp only [List.mem_append] at hb
    rcases hb with hb | hb | hb | hb | hb
    · exact hfirst hb
    · exact hzero _ hb
    · exact hsecond hb
    · exact hzero _ hb
    · exact hlast hb
  · have hfirst : (str "[Meta]\nuncmplen=").length = 16 := by decide
    have hsecond : (str "\ncmptype=").length = 9 := by decide
    simp only [List.length_append, hfirst, hsecond, List.length_singleton]
    omega

/-- The key file of a block is read back. -/
theorem gKeyFileLoadFromData_filemetaKeyfile (uncmplen : Int64) {cmptype : Int16} (h : isCompressTypeAllowed cmptype = true) :
    gKeyFileLoadFromData (gKeyFileToData (filemetaKeyfile uncmplen cmptype)) = some (filemetaKeyfile uncmplen cmptype) := by
  rw [filemetaKeyfile_eq h]
  exact gKeyFileLoadFromData_gKeyFileToData GN_META (by decide) (by decide) plainKey_uncmplen plainKey_cmptype uncmplen_ne_cmptype _ _

/-- The two values in the key file of a block, whatever their defaults. -/
theorem read_filemetaKeyfile (uncmplen : Int64) {cmptype : Int16} (h : isCompressTypeAllowed cmptype = true) (m : Int32)
    (n : Int64) :
    (readIntFromFile (filemetaKeyfile uncmplen cmptype) GN_META KN_CMPTYPE m).toInt16 = cmptype ∧
      readInt64FromFile (filemetaKeyfile uncmplen cmptype) GN_META KN_UNCMPLEN n = uncmplen := by
  have hfirst : gKeyFileGetValue (filemetaKeyfile uncmplen cmptype) GN_META KN_UNCMPLEN =
      some (Decimal.printInt uncmplen.toInt) := by
    simp [filemetaKeyfile_eq h, gKeyFileGetValue]
  have hsecond : gKeyFileGetValue (filemetaKeyfile uncmplen cmptype) GN_META KN_CMPTYPE =
      some (Decimal.printInt cmptype.toInt32.toInt) := by
    rw [filemetaKeyfile_eq h]
    simp only [gKeyFileGetValue, List.find?_cons, decide_true, Option.bind_some, uncmplen_ne_cmptype, decide_false, Option.map_some]
  simp only [readIntFromFile, hsecond, gKeyFileGetInteger_printInt, Int16.toInt16_toInt32, readInt64FromFile, hfirst,
    gKeyFileGetInt64_printInt, and_self]

/-- What else is known of a block comes back when its key file is there. -/
theorem getFilemetaValues_eq {s3 : Libs3} (hs3 : s3.Documented) {objects : Objects} (bucket hashString : CString)
    (uncmplen : Int64) {cmptype : Int16} (hcmp : isCompressTypeAllowed cmptype = true)
    (h : objects bucket (generateFilemetaObjectkey hashString) =
      some (gKeyFileToData (filemetaKeyfile uncmplen cmptype))) :
    getFilemetaValues s3 objects bucket hashString = some (cmptype, uncmplen) := by
  obtain ⟨hzero, hne, _⟩ := gKeyFileToData_filemetaKeyfile uncmplen hcmp
  obtain ⟨hcmptype, huncmplen⟩ := read_filemetaKeyfile uncmplen hcmp COMPRESS_NONE_TYPE.toInt32 (-1)
  simp only [getFilemetaValues, getObject_eq hs3 h, CString.bytes_ofBytes hzero, hne, if_false,
    gKeyFileLoadFromData_filemetaKeyfile uncmplen hcmp, Option.map_some, hcmptype, huncmplen]

end Sauvegarde
