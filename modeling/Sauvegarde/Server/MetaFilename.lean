import Sauvegarde.Extern.Gio
import Sauvegarde.Server.ListRequest
import Sauvegarde.Server.Post

/-!
# The name of a file of meta data

Which file of the file backend a request makes the server open to append meta data to it or to read the list of files from it.
-/

namespace Sauvegarde

/-- The directory of the files of meta data. -/
def metaDirectory (backend : FileBackend) : Bytes := gBuildFilenameOf [backend.pathPrefix, str "meta"]

/-- The name of the file that `file_store_smeta` opens: none without a host name. -/
def fileStoreSmetaFilename (backend : FileBackend) (smeta : ServerMetaData) : Option Bytes :=
  match smeta.hostname, smeta.metaData with
  | some hostname, some _ => some (gBuildFilenameOf [metaDirectory backend, hostname.bytes])
  | _, _ => none

/-- The name of the file that `file_get_list_of_files` opens. A `NULL` ends the elements of a name. -/
def fileGetListOfFilesFilename (backend : FileBackend) (query : QueryT) : Bytes :=
  gBuildFilenameOf (backend.pathPrefix :: str "meta" :: (query.hostname.map CString.bytes).toList)

/-- A request with a host name in it. -/
inductive HostRequest where
  | metaJson (body : Json)
  | fileListJson (arguments : List (CString × Option CString))

/-- The host name that is received. -/
def HostRequest.hostname : HostRequest → Option CString
  | metaJson body => getStringFromJsonRoot body "hostname"
  | fileListJson arguments => getArgumentValueFromKey arguments (CString.lit "hostname") false

/-- The names of the files of meta data that are opened for a request, by the thread that stores what was pushed or to answer
it. -/
def HostRequest.opened (backend : FileBackend) (files : Files) : HostRequest → List Bytes
  | metaJson body =>
    (answerMetaJsonPostRequest (some backend) files body).metaQueue.filterMap (fileStoreSmetaFilename backend)
  | fileListJson arguments => ((getAListOfFiles arguments).map (fileGetListOfFilesFilename backend)).toList

/-- The names that are opened for a request are built from the host name it carries. -/
theorem HostRequest.eq_of_mem_opened {backend : FileBackend} {files : Files} {request : HostRequest} {hostname : CString}
    (hhost : request.hostname = some hostname) {name : Bytes} (hname : name ∈ request.opened backend files) :
    name = gBuildFilenameOf [metaDirectory backend, hostname.bytes] ∨
      name = gBuildFilenameOf [backend.pathPrefix, str "meta", hostname.bytes] := by
  rcases request with body | arguments
  · left
    have hpushed : name ∈ [fillsServerMetaDataFromJson body].filterMap (fileStoreSmetaFilename backend) := hname
    have hstored : (fillsServerMetaDataFromJson body).hostname = some hostname := hhost
    rw [List.filterMap_cons, List.filterMap_nil, fileStoreSmetaFilename, hstored] at hpushed
    exact List.mem_singleton.mp hpushed
  · right
    have hanswered : name ∈ ((getAListOfFiles arguments).map (fileGetListOfFilesFilename backend)).toList := hname
    have hquery : (receivedQuery arguments).hostname = some hostname := hhost
    unfold getAListOfFiles at hanswered
    simp only at hanswered
    split_ifs at hanswered
    · rw [Option.map_some, Option.toList_some, List.mem_singleton, fileGetListOfFilesFilename, hquery] at hanswered
      exact hanswered
    · exact absurd hanswered List.not_mem_nil

end Sauvegarde
