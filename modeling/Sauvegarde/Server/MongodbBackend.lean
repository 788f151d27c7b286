import Sauvegarde.Libcdpfgl.Files

/-!
# MongoDB backend

The documents mongodb_backend.c makes of meta data and the meta data it makes of documents. BSON gives back each typed value
that was appended, so a document is the list of its elements.
-/

namespace Sauvegarde

/-- The BSON values of a document. The elements of an array stand in the order of their keys `"0"`, `"1"`, … -/
inductive Bson where
  | oid (bytes : Bytes)
  | null
  | int32 (n : Int32)
  | int64 (n : Int64)
  | utf8 (s : CString)
  | array (elements : List Bson)

/-- A document: its elements in the order they were appended. -/
abbrev Document := List (String × Bson)

/-- The value of an integer that is not set. -/
def INT_UNDEFINED : Nat := 0

def LABEL_INODE := "inode"
def LABEL_FILETYPE := "filetype"
def LABEL_MODE := "mode"
def LABEL_ATIME := "atime"
def LABEL_CTIME := "ctime"
def LABEL_MTIME := "mtime"
def LABEL_SIZE := "size"
def LABEL_OWNER := "owner"
def LABEL_GROUP := "group"
def LABEL_UID := "uid"
def LABEL_GID := "gid"
def LABEL_NAME := "name"
def LABEL_LINK := "link"
def LABEL_HASHLIST := "hashlist"

/-! ## Writing -/

/-- `BSON_APPEND_INT64` of a field that is defined. -/
def appendInt64 (document : Document) (label : String) (value : UInt64) : Document :=
  if value.toNat ≠ INT_UNDEFINED then document ++ [(label, Bson.int64 value.toInt64)] else document

/-- `BSON_APPEND_INT32` of a field that is defined: an unsigned value becomes a signed one. -/
def appendInt32 (document : Document) (label : String) (value : UInt32) : Document :=
  if value.toNat ≠ INT_UNDEFINED then document ++ [(label, Bson.int32 value.toInt32)] else document

/-- `BSON_APPEND_UTF8` of a string that is not `NULL`. -/
def appendUtf8 (document : Document) (label : String) (value : Option CString) : Document :=
  match value with
  | none => document
  | some s => document ++ [(label, Bson.utf8 s)]

/-- One value of a hash list: the hash in hexadecimal; `bson_append_utf8` appends null for `NULL`. -/
def listValue (hashData : HashData) : Bson :=
  match hashToString hashData.hash with
  | none => Bson.null
  | some s => Bson.utf8 s

/-- The loop of `add_list_values_to_bson`. The bound is the length of what is left of the list, not of the list. -/
def addListValues (i : Nat) (array : List Bson) : List HashData → List Bson
  | [] => array
  | hashData :: head =>
    if i < (hashData :: head).length then addListValues (i + 1) (array ++ [listValue hashData]) head else array

/-- `add_list_values_to_bson`: the document is left as it is when there is no list. -/
def addListValuesToBson (document : Document) (bsonKey : String) (list : List HashData) : Document :=
  if list ≠ [] then document ++ [(bsonKey, Bson.array (addListValues 0 [] list))] else document

/-- `init_meta_bson`, into an empty document; `oid` is the identifier the driver makes. -/
def initMetaBson (oid : Bytes) (smeta : ServerMetaData) : Document :=
  match smeta.metaData with
  | none => []
  | some m =>
    let document : Document := [("_id", Bson.oid oid)]
    let document := appendInt64 document LABEL_INODE m.inode
    let document := appendInt32 document LABEL_FILETYPE m.fileType.toUInt32
    let document := appendInt32 document LABEL_MODE m.mode
    let document := appendInt64 document LABEL_ATIME m.atime
    let document := appendInt64 document LABEL_CTIME m.ctime
    let document := appendInt64 document LABEL_MTIME m.mtime
    let document := appendInt64 document LABEL_SIZE m.size
    let document := appendUtf8 document LABEL_OWNER m.owner
    let document := appendUtf8 document LABEL_GROUP m.group
    let document := appendInt32 document LABEL_UID m.uid
    let document := appendInt32 document LABEL_GID m.gid
    let document := appendUtf8 document LABEL_NAME m.name
    let document := appendUtf8 document LABEL_LINK m.link
    addListValuesToBson document LABEL_HASHLIST m.hashDataList

/-! ## Reading -/

/-- A field read with `BSON_ITER_HOLDS_INT64`; the field keeps its value when there is no such element. -/
def readInt64 (document : Document) (label : String) (field : UInt64) : UInt64 :=
  match document.lookup label with
  | some (Bson.int64 n) => n.toUInt64
  | _ => field

/-- A field read with `BSON_ITER_HOLDS_INT32`. -/
def readInt32 (document : Document) (label : String) (field : UInt32) : UInt32 :=
  match document.lookup label with
  | some (Bson.int32 n) => n.toUInt32
  | _ => field

/-- A field read with `BSON_ITER_HOLDS_UTF8`. -/
def readUtf8 (document : Document) (label : String) (field : Option CString) : Option CString :=
  match document.lookup label with
  | some (Bson.utf8 s) => some s
  | _ => field

/-- The loop over the elements of the hash list: each string goes to the front of the list. -/
def prependHashs (list : List HashData) : List Bson → List HashData
  | [] => list
  | Bson.utf8 s :: child =>
    prependHashs (newHashDataAsIs none 0 (stringToHash (some s)) COMPRESS_NONE_TYPE 0 :: list) child
  | _ :: child => prependHashs list child

/-- The hash list read with `BSON_ITER_HOLDS_ARRAY`. -/
def readHashList (document : Document) (label : String) (list : List HashData) : List HashData :=
  match document.lookup label with
  | some (Bson.array elements) => (prependHashs list elements).reverse
  | _ => list

/-- `init_meta_data_from_bson`. -/
def initMetaDataFromBson (m : MetaData) (document : Document) : MetaData :=
  { m with
    inode := readInt64 document LABEL_INODE m.inode
    fileType := (readInt32 document LABEL_FILETYPE m.fileType.toUInt32).toUInt8
    mode := readInt32 document LABEL_MODE m.mode
    atime := readInt64 document LABEL_ATIME m.atime
    ctime := readInt64 document LABEL_CTIME m.ctime
    mtime := readInt64 document LABEL_MTIME m.mtime
    size := readInt64 document LABEL_SIZE m.size
    owner := readUtf8 document LABEL_OWNER m.owner
    group := readUtf8 document LABEL_GROUP m.group
    uid := readInt32 document LABEL_UID m.uid
    gid := readInt32 document LABEL_GID m.gid
    name := readUtf8 document LABEL_NAME m.name
    link := readUtf8 document LABEL_LINK m.link
    hashDataList := readHashList document LABEL_HASHLIST m.hashDataList }

/-- `init_meta_data`: everything is zero or `NULL`. -/
def initMetaData : MetaData :=
  { newMetaData with uid := 0, gid := 0, inCache := false, blocksize := 0 }

/-! ## What is found in a document -/

/-- A document in which the elements that `m` tells are found. -/
def Holds (document : Document) (m : String → Option Bson) : Prop := ∀ k, document.lookup k = m k

/-- An element appended under a new label is found under it, and the others are as they were. -/
theorem Holds.append {document : Document} {m : String → Option Bson} (h : Holds document m) (label : String)
    (hlabel : m label = none) (value : Bson) :
    Holds (document ++ [(label, value)]) fun k => if k = label then some value else m k := by
  intro k
  rw [List.lookup_append, h k, List.lookup_cons, List.lookup_nil]
  by_cases hk : k = label
  · simp [hk, hlabel]
  · have hb : (k == label) = false := by simpa using hk
    simp [hk, hb]

/-- An integer of 64 bits is found unless it is zero. -/
theorem Holds.appendInt64 {document : Document} {m : String → Option Bson} (h : Holds document m) (label : String)
    (hlabel : m label = none) (value : UInt64) :
    Holds (appendInt64 document label value) fun k =>
      if k = label then (if value = 0 then none else some (Bson.int64 value.toInt64)) else m k := by
  by_cases hv : value = 0
  · intro k
    simp only [Sauvegarde.appendInt64, hv, UInt64.toNat_zero, INT_UNDEFINED, ne_eq, not_true_eq_false, if_false, if_true, h k]
    split_ifs with hk
    · rw [hk, hlabel]
    · rfl
  · have hne : value.toNat ≠ INT_UNDEFINED := fun e => hv (UInt64.toNat_inj.mp e)
    simp only [Sauvegarde.appendInt64, hne, ne_eq, not_false_eq_true, if_true, hv, if_false]
    exact h.append label hlabel _

/-- An integer of 32 bits is found unless it is zero. -/
theorem Holds.appendInt32 {document : Document} {m : String → Option Bson} (h : Holds document m) (label : String)
    (hlabel : m label = none) (value : UInt32) :
    Holds (appendInt32 document label value) fun k =>
      if k = label then (if value = 0 then none else some (Bson.int32 value.toInt32)) else m k := by
  by_cases hv : value = 0
  · intro k
    simp only [Sauvegarde.appendInt32, hv, UInt32.toNat_zero, INT_UNDEFINED, ne_eq, not_true_eq_false, if_false, if_true, h k]
    split_ifs with hk
    · rw [hk, hlabel]
    · rfl
  · have hne : value.toNat ≠ INT_UNDEFINED := fun e => hv (UInt32.toNat_inj.mp e)
    simp only [Sauvegarde.appendInt32, hne, ne_eq, not_false_eq_true, if_true, hv, if_false]
    exact h.append label hlabel _

/-- A string is found unless it is `NULL`. -/
theorem Holds.appendUtf8 {document : Document} {m : String → Option Bson} (h : Holds document m) (label : String)
    (hlabel : m label = none) (value : Option CString) :
    Holds (appendUtf8 document label value) fun k => if k = label then value.map Bson.utf8 else m k := by
  cases value with
  | none =>
    intro k
    simp only [Sauvegarde.appendUtf8, h k, Option.map_none]
    split_ifs with hk
    · rw [hk, hlabel]
    · rfl
  | some s => exact h.append label hlabel _

/-- A hash list is found unless it is empty. -/
theorem Holds.addListValuesToBson {document : Document} {m : String → Option Bson} (h : Holds document m) (label : String)
    (hlabel : m label = none) (list : List HashData) :
    Holds (addListValuesToBson document label list) fun k =>
      if k = label then (if list = [] then none else some (Bson.array (addListValues 0 [] list))) else m k := by
  by_cases hl : list = []
  · intro k
    simp only [Sauvegarde.addListValuesToBson, hl, ne_eq, not_true_eq_false, if_false, if_true, h k]
    split_ifs with hk
    · rw [hk, hlabel]
    · rfl
  · simp only [Sauvegarde.addListValuesToBson, hl, ne_eq, not_false_eq_true, if_true, if_false]
    exact h.append label hlabel _

/-! ## The hash list -/

/-- The loop of `add_list_values_to_bson` stops half way: after `i` values it writes half of what is left of the list beyond
`i`, rounded up. -/
theorem addListValues_eq (list : List HashData) : ∀ (i : Nat) (array : List Bson),
    addListValues i array list = array ++ (list.take ((list.length - i + 1) / 2)).map listValue := by
  induction list with
  | nil => intro i array; simp [addListValues]
  | cons hd head ih =>
    intro i array
    rw [addListValues]
    split_ifs with hi
    · have hcount : ((hd :: head).length - i + 1) / 2 = (head.length - (i + 1) + 1) / 2 + 1 := by
        simp only [List.length_cons] at hi ⊢
        omega
      rw [ih, hcount, List.take_succ_cons, List.map_cons, List.append_assoc, List.singleton_append]
    · have hcount : ((hd :: head).length - i + 1) / 2 = 0 := by
        simp only [List.length_cons] at hi ⊢
        omega
      rw [hcount, List.take_zero, List.map_nil, List.append_nil]

/-- The hashs read from the values of a list are the hashs written. -/
theorem prependHashs_listValues {list : List HashData} {hs : List Hash} (h : HashsAre list hs) (head : List HashData) :
    prependHashs head (list.map listValue) =
      (hs.map fun g => newHashDataAsIs none 0 (some g.bytes) COMPRESS_NONE_TYPE 0).reverse ++ head := by
  induction list generalizing hs head with
  | nil =>
    have hnil : hs = [] := by simpa [HashsAre] using h
    simp [prependHashs, hnil]
  | cons hd list ih =>
    rcases hs with _ | ⟨g, hs⟩
    · simp [HashsAre] at h
    · simp only [HashsAre, List.map_cons, List.cons.injEq] at h
      have hg := stringToHash_hashToString g
      have hvalue : listValue hd = Bson.utf8 (hexText (g.bytes.take HASH_LEN)) := by
        rw [listValue, h.1]
        rfl
      rw [List.map_cons, hvalue, prependHashs, ih h.2]
      simp only [hashToString, Option.map_some] at hg
      rw [hg]
      simp

/-- The hashs of the first elements of a list are the first of its hashs. -/
theorem HashsAre.take {list : List HashData} {hs : List Hash} (h : HashsAre list hs) (n : Nat) :
    HashsAre (list.take n) (hs.take n) := by
  unfold HashsAre at h ⊢
  rw [List.map_take, List.map_take, h]

end Sauvegarde
