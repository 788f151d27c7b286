import Sauvegarde.Libcdpfgl.FileLists
import Sauvegarde.Libcdpfgl.Unpacking

/-!
# The files a server has

The list that restore.c makes of the answer of the server, and the file it takes from it.
-/

namespace Sauvegarde

/-- `get_files_from_server`, from the answer to the request: none when there was none. -/
def getFilesFromServer (collateKeyForFilename : CString → CString) (answer : Option Json) : List ServerMetaData :=
  match answer.bind Json.loads with
  | none => []
  | some root => gListSort (compareFilenames collateKeyForFilename) (extractSmetaGslistFromJsonArray root)

/-- `restore_last_file`: the meta data of the file that is restored. -/
def restoreLastFile (collateKeyForFilename : CString → CString) (answer : Option Json) : Option MetaData :=
  (getFilesFromServer collateKeyForFilename answer).getLast?.bind ServerMetaData.metaData

/-- The list is sorted. -/
theorem pairwise_getFilesFromServer (collateKeyForFilename : CString → CString) (answer : Option Json) :
    (getFilesFromServer collateKeyForFilename answer).Pairwise fun sa sb => compareFilenames collateKeyForFilename sa sb ≤ 0 := by
  have htotal : Std.Total fun sa sb : ServerMetaData => compareFilenames collateKeyForFilename sa sb ≤ 0 :=
    ⟨compareFilenames_total⟩
  have htrans : IsTrans ServerMetaData fun sa sb => compareFilenames collateKeyForFilename sa sb ≤ 0 :=
    ⟨fun _ _ _ => compareFilenames_trans⟩
  unfold getFilesFromServer
  rcases answer.bind Json.loads with _ | root
  · exact List.Pairwise.nil
  · exact List.pairwise_insertionSort _ _

end Sauvegarde
