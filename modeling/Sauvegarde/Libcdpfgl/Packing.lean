import Sauvegarde.Extern.Jansson
import Sauvegarde.Libcdpfgl.Files

/-!
# Packing

The functions of packing.c that make JSON values of meta data, hash lists and blocks.
-/

namespace Sauvegarde

open Json (set)

/-- Indicates that the encapsulated data is meta data. -/
def ENC_META_DATA : UInt8 := 1

/-- `insert_json_value_into_json_root`: nothing is inserted without a value. -/
def insertJsonValueIntoJsonRoot (root : Json) (keyname : String) (value : Option Json) : Json :=
  match value with
  | none => root
  | some v => root.set keyname v

/-- `append_string_to_array`: a `NULL` string is not appended. -/
def appendStringToArray (array : List Json) (toAppend : Option CString) : List Json :=
  match toAppend with
  | none => array
  | some s => array ++ [Json.str s]

/-- `insert_boolean_into_json_root`. -/
def insertBooleanIntoJsonRoot (root : Json) (keyname : String) (dataSent : Bool) : Json :=
  insertJsonValueIntoJsonRoot root keyname (some (Json.bool dataSent))

/-- `insert_string_into_json_root`: a `NULL` string is not inserted. -/
def insertStringIntoJsonRoot (root : Json) (keyname : String) (aString : Option CString) : Json :=
  insertJsonValueIntoJsonRoot root keyname (aString.map Json.str)

/-- `insert_guint8_into_json_root`. -/
def insertGuint8IntoJsonRoot (root : Json) (keyname : String) (number : UInt8) : Json :=
  insertJsonValueIntoJsonRoot root keyname (some (Json.int number.toUInt64.toInt64))

/-- `insert_guint32_into_json_root`. -/
def insertGuint32IntoJsonRoot (root : Json) (keyname : String) (number : UInt32) : Json :=
  insertJsonValueIntoJsonRoot root keyname (some (Json.int number.toUInt64.toInt64))

/-- `insert_guint64_into_json_root`: the number goes through jansson's signed integer. -/
def insertGuint64IntoJsonRoot (root : Json) (keyname : String) (number : UInt64) : Json :=
  insertJsonValueIntoJsonRoot root keyname (some (Json.int number.toInt64))

/-- `insert_gshort_into_json_root`. -/
def insertGshortIntoJsonRoot (root : Json) (keyname : String) (number : Int16) : Json :=
  insertJsonValueIntoJsonRoot root keyname (some (Json.int number.toInt64))

/-- The loop of `convert_hash_list_to_json`. -/
def appendHashs (array : List Json) : List HashData → List Json
  | [] => array
  | hashData :: head =>
    appendHashs (appendStringToArray array (gBase64Encode hashData.hash HASH_LEN)) head

/-- `convert_hash_list_to_json`. -/
def convertHashListToJson (hashList : List HashData) : Json := Json.arr (appendHashs [] hashList)

/-- The object that carries an array of hashs: what a client asks with and what the server answers. -/
def hashListRoot (array : Json) : Json := insertJsonValueIntoJsonRoot (Json.obj []) "hash_list" (some array)

/-- `convert_hash_data_t_to_json`: no value without data, without a hash or with a negative length. -/
def convertHashDataToJson (hashData : HashData) : Option Json :=
  if hashData.data ≠ none ∧ hashData.hash ≠ none ∧ 0 ≤ hashData.read then
    let encodedData := gBase64Encode hashData.data hashData.read.toNatClampNeg
    let encodedHash := gBase64Encode hashData.hash HASH_LEN
    let root := Json.obj []
    let root := insertStringIntoJsonRoot root "hash" encodedHash
    let root := insertStringIntoJsonRoot root "data" encodedData
    let root := insertGuint64IntoJsonRoot root "size" hashData.read.toUInt64
    let root := insertGshortIntoJsonRoot root "cmptype" hashData.cmptype
    let root := insertGuint64IntoJsonRoot root "uncmpsize" hashData.uncmplen.toUInt64
    some root
  else none

/-- `convert_hash_data_t_to_string`. -/
def convertHashDataToString (hashData : HashData) : Option Json := (convertHashDataToJson hashData).bind Json.dumps

/-- `convert_meta_data_to_json`. The group id is read from the field `uid`. -/
def convertMetaDataToJson (metaData : MetaData) (hostname : Option CString) (dataSent : Bool) : Json :=
  let root := Json.obj []
  let root := insertGuint8IntoJsonRoot root "msg_id" ENC_META_DATA
  let root := insertGuint8IntoJsonRoot root "filetype" metaData.fileType
  let root := insertGuint32IntoJsonRoot root "mode" metaData.mode
  let root := insertGuint64IntoJsonRoot root "atime" metaData.atime
  let root := insertGuint64IntoJsonRoot root "ctime" metaData.ctime
  let root := insertGuint64IntoJsonRoot root "mtime" metaData.mtime
  let root := insertGuint64IntoJsonRoot root "fsize" metaData.size
  let root := insertGuint64IntoJsonRoot root "inode" metaData.inode
  let root := insertStringIntoJsonRoot root "owner" metaData.owner
  let root := insertStringIntoJsonRoot root "group" metaData.group
  let root := insertGuint32IntoJsonRoot root "uid" metaData.uid
  let root := insertGuint32IntoJsonRoot root "gid" metaData.uid
  let root := insertStringIntoJsonRoot root "name" metaData.name
  let root := insertStringIntoJsonRoot root "link" metaData.link
  let root := insertStringIntoJsonRoot root "hostname" hostname
  let root := insertBooleanIntoJsonRoot root "data_sent" dataSent
  insertJsonValueIntoJsonRoot root "hash_list" (some (convertHashListToJson metaData.hashDataList))

/-- `convert_meta_data_to_json_string`. -/
def convertMetaDataToJsonString (metaData : MetaData) (hostname : Option CString) (dataSent : Bool) : Option Json :=
  (convertMetaDataToJson metaData hostname dataSent).dumps

/-- `convert_meta_data_list_to_json_array`. -/
def convertMetaDataListToJsonArray (list : List MetaData) (hostname : Option CString) (dataSent : Bool) : Json :=
  Json.arr (list.map fun metaData => convertMetaDataToJson metaData hostname dataSent)

/-- `create_json_code`. -/
def createJsonCode (httpCode : UInt32) (message : CString) : Json :=
  insertStringIntoJsonRoot (insertGuint32IntoJsonRoot (Json.obj []) "code" httpCode) "message" (some message)

/-- `create_json_answer`. -/
def createJsonAnswer (type : String) (httpCode : UInt32) (message : CString) : Json :=
  insertJsonValueIntoJsonRoot (Json.obj []) type (some (createJsonCode httpCode message))

/-- `answer_json_error_string`. -/
def answerJsonErrorString (errorCode : UInt32) (message : CString) : Option Json :=
  (createJsonAnswer "error" errorCode message).dumps

/-- `answer_json_success_string`. -/
def answerJsonSuccessString (errorCode : UInt32) (message : CString) : Option Json :=
  (createJsonAnswer "success" errorCode message).dumps

/-! ## What an insertion changes -/

/-- An object is written with what is inserted when both are written. -/
theorem wellEncoded_insert {root : Json} {value : Option Json} (h : root.wellEncoded = true)
    (hv : ∀ v ∈ value, v.wellEncoded = true) (key : String) :
    (insertJsonValueIntoJsonRoot root key value).wellEncoded = true := by
  cases value with
  | none => exact h
  | some v => exact Json.wellEncoded_set h (hv v rfl) key

/-- An object with the members that `m` finds. -/
def Finds (root : Json) (m : String → Option Json) : Prop := ∃ members, root = Json.obj members ∧ ∀ k, root.get k = m k

/-- An object without members finds nothing. -/
theorem finds_empty : Finds (Json.obj []) fun _ => none := ⟨[], rfl, fun _ => rfl⟩

/-- An insertion under a new key adds what was inserted to what is found. -/
theorem Finds.insert {root : Json} {m : String → Option Json} (h : Finds root m) (key : String) (hkey : m key = none)
    (value : Option Json) :
    Finds (insertJsonValueIntoJsonRoot root key value) fun k => if k = key then value else m k := by
  obtain ⟨members, rfl, hm⟩ := h
  cases value with
  | none =>
    refine ⟨members, rfl, fun k => ?_⟩
    by_cases hk : k = key
    · simp only [insertJsonValueIntoJsonRoot, hm, hk, hkey, if_true]
    · simp only [insertJsonValueIntoJsonRoot, hm, hk, if_false]
  | some v =>
    refine ⟨Json.setMember key v members, rfl, fun k => ?_⟩
    rw [insertJsonValueIntoJsonRoot, Json.get_set_obj, hm k]

/-- The data of a block and its hash are encoded. -/
theorem gBase64Encode_block {hd : HashData} {h : Hash} {data : Bytes} (hhd : hd.IsBlock h data) :
    gBase64Encode (some data) hd.read.toNatClampNeg = some (base64Text data) ∧
      gBase64Encode (some h.bytes) HASH_LEN = some (base64Text h.bytes) := by
  obtain ⟨_, _, hclamp, _⟩ := length_int64 hhd.read
  exact ⟨gBase64Encode_of_length (by omega), gBase64Encode_of_length (le_of_eq h.length_eq)⟩

/-- The members of the object made of a block. -/
theorem convertHashDataToJson_eq {hd : HashData} {h : Hash} {data : Bytes} (hhd : hd.IsBlock h data) :
    ∃ root, convertHashDataToJson hd = some root ∧ Finds root fun k =>
      if k = "uncmpsize" then some (Json.int hd.uncmplen)
      else if k = "cmptype" then some (Json.int hd.cmptype.toInt64)
      else if k = "size" then some (Json.int hd.read)
      else if k = "data" then some (Json.str (base64Text data))
      else if k = "hash" then some (Json.str (base64Text h.bytes))
      else none := by
  obtain ⟨_, _, _, hpos⟩ := length_int64 hhd.read
  obtain ⟨hdata, hhash⟩ := gBase64Encode_block hhd
  rw [convertHashDataToJson, if_pos ⟨by simp [hhd.data], by simp [hhd.hash], hpos⟩, hhd.data, hhd.hash, hdata, hhash]
  refine ⟨_, rfl, ?_⟩
  have hroot := finds_empty
  have hroot := hroot.insert "hash" rfl (some (Json.str (base64Text h.bytes)))
  have hroot := hroot.insert "data" (by simp) (some (Json.str (base64Text data)))
  have hroot := hroot.insert "size" (by simp) (some (Json.int hd.read))
  have hroot := hroot.insert "cmptype" (by simp) (some (Json.int hd.cmptype.toInt64))
  exact hroot.insert "uncmpsize" (by simp) (some (Json.int hd.uncmplen))

/-- The object made of a block is written. -/
theorem convertHashDataToString_eq {hd : HashData} {h : Hash} {data : Bytes} (hhd : hd.IsBlock h data) :
    convertHashDataToString hd = convertHashDataToJson hd := by
  obtain ⟨_, _, _, hpos⟩ := length_int64 hhd.read
  obtain ⟨hdata, hhash⟩ := gBase64Encode_block hhd
  have htext : ∀ bytes, ∀ v ∈ (some (base64Text bytes)).map Json.str, v.wellEncoded = true := by
    intro bytes v hv
    rw [Option.map_some, Option.mem_some] at hv
    exact hv ▸ Json.wellEncoded_base64Text bytes
  have hint : ∀ n, ∀ v ∈ some (Json.int n), v.wellEncoded = true := by
    intro n v hv
    rw [Option.mem_some] at hv
    exact hv ▸ rfl
  rw [convertHashDataToString, convertHashDataToJson, if_pos ⟨by simp [hhd.data], by simp [hhd.hash], hpos⟩, hhd.data,
    hhd.hash, hdata, hhash, Option.bind_some, Json.dumps, if_pos]
  refine wellEncoded_insert (wellEncoded_insert (wellEncoded_insert (wellEncoded_insert (wellEncoded_insert ?_ ?_ _)
    ?_ _) ?_ _) ?_ _) ?_ _
  · rfl
  · exact htext _
  · exact htext _
  · exact hint _
  · exact hint _
  · exact hint _

/-- The hashs of a list are appended one after the other. -/
theorem appendHashs_eq {list : List HashData} {hs : List Hash} (h : HashsAre list hs) (array : List Json) :
    appendHashs array list = array ++ hs.map fun g => Json.str (base64Text g.bytes) := by
  induction list generalizing array hs with
  | nil =>
    have hnil : hs = [] := by simpa [HashsAre] using h
    simp [appendHashs, hnil]
  | cons hd list ih =>
    rcases hs with _ | ⟨g, hs⟩
    · simp [HashsAre] at h
    · simp only [HashsAre, List.map_cons, List.cons.injEq] at h
      rw [appendHashs, h.1, gBase64Encode_of_length (le_of_eq g.length_eq), appendStringToArray, ih h.2]
      simp

/-- The array of a list of hashs holds their base64 texts. -/
theorem convertHashListToJson_eq {list : List HashData} {hs : List Hash} (h : HashsAre list hs) :
    convertHashListToJson list = Json.arr (hs.map fun g => Json.str (base64Text g.bytes)) := by
  rw [convertHashListToJson, appendHashs_eq h, List.nil_append]

end Sauvegarde
