import Sauvegarde.Libcdpfgl.Packing

/-!
# Unpacking

The functions of unpacking.c that make meta data, hash lists and blocks of JSON values.
-/

namespace Sauvegarde

/-- `get_json_value_from_json_root`. -/
def getJsonValueFromJsonRoot (root : Json) (keyname : String) : Option Json := root.get keyname

/-- `get_boolean_from_json_root`. -/
def getBooleanFromJsonRoot (root : Json) (keyname : String) : Bool :=
  Json.isTrue (getJsonValueFromJsonRoot root keyname)

/-- `get_string_from_json_root`. -/
def getStringFromJsonRoot (root : Json) (keyname : String) : Option CString :=
  Json.stringValue (getJsonValueFromJsonRoot root keyname)

/-- `get_guint8_from_json_root`: the integer is cut to the width of the field. -/
def getGuint8FromJsonRoot (root : Json) (keyname : String) : UInt8 :=
  (Json.integerValue (getJsonValueFromJsonRoot root keyname)).toUInt64.toUInt8

/-- `get_guint32_from_json_root`. -/
def getGuint32FromJsonRoot (root : Json) (keyname : String) : UInt32 :=
  (Json.integerValue (getJsonValueFromJsonRoot root keyname)).toUInt64.toUInt32

/-- `get_guint64_from_json_root`. -/
def getGuint64FromJsonRoot (root : Json) (keyname : String) : UInt64 :=
  (Json.integerValue (getJsonValueFromJsonRoot root keyname)).toUInt64

/-- `get_gshort_from_json_root`. -/
def getGshortFromJsonRoot (root : Json) (keyname : String) : Int16 :=
  (Json.integerValue (getJsonValueFromJsonRoot root keyname)).toInt16

/-- The elements of a hash list: an element that is no text has no hash. -/
def hashDataOfText (value : Json) : HashData :=
  newHashDataAsIs none 0 (gBase64Decode (Json.stringValue (some value))) COMPRESS_NONE_TYPE 0

/-- `convert_json_t_to_hash_data`: nothing is made of a block whose lengths are wrong. The length of what is not decoded stays
zero. -/
def convertJsonToHashData (root : Json) : Option HashData :=
  let data := gBase64Decode (Json.stringValue (getJsonValueFromJsonRoot root "data"))
  let hash := gBase64Decode (Json.stringValue (getJsonValueFromJsonRoot root "hash"))
  let sizeRead := (getGuint64FromJsonRoot root "size").toInt64
  let uncmplen := (getGuint64FromJsonRoot root "uncmpsize").toInt64
  let cmptype := getGshortFromJsonRoot root "cmptype"
  if UInt64.ofNat ((data.map List.length).getD 0) = sizeRead.toUInt64 ∧ (hash.map List.length).getD 0 = HASH_LEN then
    some (newHashDataAsIs data sizeRead hash cmptype uncmplen)
  else none

/-- The loop of `extract_glist_from_array`: each element goes to the front of the list. -/
def prependEach {α : Type} (element : Json → α) : List α → List Json → List α
  | head, [] => head
  | head, value :: array => prependEach element (element value :: head) array

/-- `extract_glist_from_array`, over what is made of one element of the array. -/
def extractGlistFromArray {α : Type} (element : Json → α) (root : Json) (name : String) : List α :=
  (prependEach element [] (Json.elements (getJsonValueFromJsonRoot root name))).reverse

/-- `extract_glist_from_array` with `only_hash` set to `TRUE`. -/
def extractHashsFromArray (root : Json) (name : String) : List HashData := extractGlistFromArray hashDataOfText root name

/-- `extract_glist_from_array` with `only_hash` set to `FALSE`: an element may be `NULL`. -/
def extractHashDataFromArray (root : Json) (name : String) : List (Option HashData) :=
  extractGlistFromArray convertJsonToHashData root name

/-- `fills_server_meta_data_t_from_json_t`. -/
def fillsServerMetaDataFromJson (root : Json) : ServerMetaData :=
  let metaData : MetaData := { newMetaData with
    fileType := getGuint8FromJsonRoot root "filetype"
    mode := getGuint32FromJsonRoot root "mode"
    atime := getGuint64FromJsonRoot root "atime"
    ctime := getGuint64FromJsonRoot root "ctime"
    mtime := getGuint64FromJsonRoot root "mtime"
    size := getGuint64FromJsonRoot root "fsize"
    inode := getGuint64FromJsonRoot root "inode"
    owner := getStringFromJsonRoot root "owner"
    group := getStringFromJsonRoot root "group"
    uid := getGuint32FromJsonRoot root "uid"
    gid := getGuint32FromJsonRoot root "gid"
    name := getStringFromJsonRoot root "name"
    link := getStringFromJsonRoot root "link"
    hashDataList := extractHashsFromArray root "hash_list" }
  { newSmetaData with
    metaData := some metaData
    hostname := getStringFromJsonRoot root "hostname"
    dataSent := getBooleanFromJsonRoot root "data_sent" }

/-- `extract_smeta_gslist_from_json_array`: the list is not turned over again. -/
def extractSmetaGslistFromJsonArray (root : Json) : List ServerMetaData :=
  prependEach fillsServerMetaDataFromJson [] (Json.elements (getJsonValueFromJsonRoot root "file_list"))

/-- `convert_json_to_smeta_data`. -/
def convertJsonToSmetaData (text : Json) : Option ServerMetaData := (Json.loads text).map fillsServerMetaDataFromJson

/-- `convert_string_to_hash_data`. -/
def convertStringToHashData (text : Json) : Option HashData := (Json.loads text).bind convertJsonToHashData

/-! ## Lists -/

/-- The loop turns the elements over. -/
theorem prependEach_eq {α : Type} (element : Json → α) (array : List Json) (head : List α) :
    prependEach element head array = (array.map element).reverse ++ head := by
  induction array generalizing head with
  | nil => rfl
  | cons value array ih => simp [prependEach, ih]

/-- The list has one element for each element of the array, in order. -/
theorem extractGlistFromArray_eq {α : Type} (element : Json → α) (root : Json) (name : String) :
    extractGlistFromArray element root name = (Json.elements (root.get name)).map element := by
  simp [extractGlistFromArray, prependEach_eq, getJsonValueFromJsonRoot]

/-- The element made of the text of a hash has that hash. -/
theorem hashDataOfText_base64Text (g : Hash) :
    hashDataOfText (Json.str (base64Text g.bytes)) = newHashDataAsIs none 0 (some g.bytes) COMPRESS_NONE_TYPE 0 := by
  simp only [hashDataOfText, Json.stringValue_str, gBase64Decode_base64Text]

/-- A block comes back from the object made of it. -/
theorem convertJsonToHashData_of_isBlock {hd : HashData} {h : Hash} {data : Bytes} (hhd : hd.IsBlock h data) :
    ∃ root, convertHashDataToJson hd = some root ∧ convertJsonToHashData root = some hd := by
  obtain ⟨root, hroot, _, _, hget⟩ := convertHashDataToJson_eq hhd
  obtain ⟨hlen, _, _, _⟩ := length_int64 hhd.read
  refine ⟨root, hroot, ?_⟩
  simp only [convertJsonToHashData, getGuint64FromJsonRoot, getGshortFromJsonRoot, getJsonValueFromJsonRoot, hget,
    String.reduceEq, if_true, if_false, Json.stringValue_str, Json.integerValue_int, gBase64Decode_base64Text,
    Option.map_some, Option.getD_some, Int64.toInt64_toUInt64, ← hlen, h.length_eq, and_self, newHashDataAsIs,
    Int16.toInt16_toInt64]
  rw [← hhd.hash, ← hhd.data]

end Sauvegarde
