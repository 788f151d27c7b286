import Sauvegarde.Libcdpfgl.Dates
import Sauvegarde.Libcdpfgl.FileLists
import Sauvegarde.Libcdpfgl.Packing
import Sauvegarde.Server.FileMeta

/-!
# The list of the files of a host

What the file backend makes of the records it has read.
-/

namespace Sauvegarde

/-- What `file_get_list_of_files` filters by: without a pattern there is no regular expression, and none matches; the dates are
those of the local time zone. `regexMatch` tells of a pattern whether it matches in a text, whatever the case. -/
def gLibFilters (regexMatch : CString → CString → Bool) (localTime : LocalTime) (filename : Option CString) : Filters where
  gRegexMatch := fun name => filename.any fun pattern => regexMatch pattern name
  hasPrefix := fun mtime date => (formatMtime localTime mtime).any fun theDate => date.bytes.isPrefixOf theDate.bytes
  compareDate := fun mtime date => compareMtimeToGcharDate localTime mtime (some date)

/-- The records of `file_get_list_of_files`, sorted, and only the latest of each file when those are asked for. -/
def fileList (collateKeyForFilename : CString → CString) (filters : Filters) (query : Query) (latest : Bool)
    (stream : List Bytes) : List MetaData :=
  let fileList := gListSort (compareMetaData collateKeyForFilename) (getFileListFromRegexAndQuery filters query stream)
  if latest then keepLatestsMetaDataInList collateKeyForFilename fileList else fileList

/-- `file_get_list_of_files`: without the file of the host the answer has no list. -/
def fileGetListOfFiles (collateKeyForFilename : CString → CString) (filters : Filters) (query : Query) (hostname : CString)
    (latest : Bool) (stream : Option (List Bytes)) : Option Json :=
  let array := stream.map fun stream =>
    convertMetaDataListToJsonArray (fileList collateKeyForFilename filters query latest stream) (some hostname) false
  (insertJsonValueIntoJsonRoot (Json.obj []) "file_list" array).dumps

end Sauvegarde
