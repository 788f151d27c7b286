import Sauvegarde.Libcdpfgl.Dates
import Sauvegarde.Libcdpfgl.FileLists
import Sauvegarde.Server.FileMeta
import Sauvegarde.Server.MongodbBackend

/-!
# Searching in MongoDB

The search properties that mongodb_backend.c makes of a query and the list of files it makes of the documents that have them.
MongoDB keeps the documents of a collection in the order in which they were inserted, and of the values of a repeated key the
last. A regular expression is one for GLib and MongoDB, and a text that is none matches nothing.
-/

namespace Sauvegarde

/-- A value of the search properties: a regular expression with the option `i`, or a document with one operator, `$lte` or
`$gte`. -/
inductive SearchProperty where
  | regex (pattern : CString)
  | lessThanEqual (n : Int32)
  | greaterThanEqual (n : Int32)

/-- `BSON_APPEND_REGEX` of a pattern that is not `NULL`. -/
def appendRegex (out : List (String × SearchProperty)) (label : String) (pattern : Option CString) :
    List (String × SearchProperty) :=
  match pattern with
  | none => out
  | some pattern => out ++ [(label, SearchProperty.regex pattern)]

/-- The time of a date of the query, cut to 32 bits. -/
def dateUnix (localTime : LocalTime) (date : CString) : Int32 :=
  (gDateTimeToUnix (convertGcharDateToGdatetime localTime (some date))).toInt32

/-- `init_search_property_bson`, into an empty document. -/
def initSearchPropertyBson (localTime : LocalTime) (filename : Option CString) (query : Query) :
    List (String × SearchProperty) :=
  let out := appendRegex [] LABEL_NAME filename
  let out := match query.beforedate with
    | none => out
    | some beforedate => out ++ [(LABEL_MTIME, SearchProperty.lessThanEqual (dateUnix localTime beforedate))]
  let out := match query.afterdate with
    | none => out
    | some afterdate => out ++ [(LABEL_MTIME, SearchProperty.greaterThanEqual (dateUnix localTime afterdate))]
  let out := appendRegex out LABEL_OWNER (some query.owner)
  appendRegex out LABEL_GROUP (some query.group)

/-! ## What MongoDB finds -/

section

variable (regexMatch : CString → CString → Bool)

/-- Whether an element of a document has a property. Integers compare by their values, and there is no array where the
program searches. -/
def SearchProperty.holds (property : SearchProperty) (element : Option Bson) : Bool :=
  match property, element with
  | regex pattern, some (Bson.utf8 s) => regexMatch pattern s
  | lessThanEqual n, some (Bson.int64 t) => t ≤ n.toInt64
  | lessThanEqual n, some (Bson.int32 t) => t ≤ n
  | greaterThanEqual n, some (Bson.int64 t) => n.toInt64 ≤ t
  | greaterThanEqual n, some (Bson.int32 t) => n ≤ t
  | _, _ => false

/-- The search properties with the last value of each key. -/
def lastValues : List (String × SearchProperty) → List (String × SearchProperty)
  | [] => []
  | element :: rest => if rest.any fun other => other.1 = element.1 then lastValues rest else element :: lastValues rest

/-- Whether a document is found. -/
def isFound (search : List (String × SearchProperty)) (document : Document) : Bool :=
  (lastValues search).all fun element => element.2.holds regexMatch (document.lookup element.1)

/-- `mongodb_store_smeta`: the collection of the host after a document was inserted into it. -/
def mongodbStoreSmeta (oid : Bytes) (collection : List Document) (serverMeta : ServerMetaData) : List Document :=
  match serverMeta.hostname, serverMeta.metaData with
  | some _, some _ => collection ++ [initMetaBson oid serverMeta]
  | _, _ => collection

/-- The files of `mongodb_get_list_of_files`, sorted, and only the latest of each file when those are asked for. -/
def mongodbFileList (collateKeyForFilename : CString → CString) (localTime : LocalTime) (filename : Option CString)
    (query : Query) (latest : Bool) (collection : List Document) : List MetaData :=
  let searchProperties := initSearchPropertyBson localTime filename query
  let fileList := (collection.filter (isFound regexMatch searchProperties)).foldl
    (fun fileList doc => initMetaDataFromBson initMetaData doc :: fileList) []
  let fileList := gListSort (compareMetaData collateKeyForFilename) fileList
  if latest then keepLatestsMetaDataInList collateKeyForFilename fileList else fileList

end

end Sauvegarde
