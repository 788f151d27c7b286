import Sauvegarde.Restore.AllVersions
import Sauvegarde.Restore.FreeNames

/-!
# The program that restores

What cdpfglrestore does for its options: it asks the server for the list of the files, and restores all of them, the last one, or all
versions of the last one.
-/

namespace Sauvegarde

section

variable (collateKeyForFilename : CString → CString) (currentDir : Location) (transformDateToString : UInt64 → Option CString)
  (resStruct : ResStruct) (user : UserInfos) (getUrl : Bytes → Option Json)

/-- `get_files_from_server`: the request is made and its answer read. -/
def filesOfQuery (query : QueryT) : List ServerMetaData := getFilesFromServer collateKeyForFilename (getUrl (filesRequest query))

/-- `restore_last_file`. -/
def restoreTheLastFile (fs : LocalFiles) (query : QueryT) : Option LocalFiles :=
  match (filesOfQuery collateKeyForFilename getUrl query).getLast? with
  | none => some fs
  | some elem => restoreOneFile currentDir transformDateToString resStruct fs elem

/-- `restore_all_files`. -/
def restoreAllFiles (fs : LocalFiles) (query : QueryT) : Option LocalFiles :=
  restoreListOfSmeta currentDir transformDateToString resStruct fs (filesOfQuery collateKeyForFilename getUrl query)

/-- `restore_all_versions`. -/
def restoreAllVersions (fs : LocalFiles) (query : QueryT) : Option LocalFiles :=
  match versionsQuery collateKeyForFilename user (getUrl (filesRequest query)) with
  | none => some fs
  | some queryLast => restoreAllFiles collateKeyForFilename currentDir transformDateToString resStruct getUrl fs queryLast

/-- `restore_files`. -/
def restoreFiles (fs : LocalFiles) (opt : RestoreOptions) (allFiles : Bool) : Option LocalFiles :=
  let query := getUserInfos user opt
  if resStruct.opt.allVersions then
    restoreAllVersions collateKeyForFilename currentDir transformDateToString resStruct user getUrl fs query
  else if allFiles then restoreAllFiles collateKeyForFilename currentDir transformDateToString resStruct getUrl fs query
  else restoreTheLastFile collateKeyForFilename currentDir transformDateToString resStruct getUrl fs query

/-- `list_files`: the records that are printed. -/
def listFiles (opt : RestoreOptions) (allVersions : Bool) : List ServerMetaData :=
  let query := getUserInfos user opt
  if allVersions then
    match versionsQuery collateKeyForFilename user (getUrl (filesRequest query)) with
    | none => []
    | some queryLast => filesOfQuery collateKeyForFilename getUrl queryLast
  else filesOfQuery collateKeyForFilename getUrl query

end

variable {collateKeyForFilename : CString → CString} {currentDir : Location} {transformDateToString : UInt64 → Option CString}
  {resStruct : ResStruct} {user : UserInfos} {getUrl : Bytes → Option Json}

/-- Without the whole list the file that is restored is the last one. -/
theorem restoreTheLastFile_eq (fs : LocalFiles) (query : QueryT) :
    restoreTheLastFile collateKeyForFilename currentDir transformDateToString resStruct getUrl fs query =
      match restoreLastFile collateKeyForFilename (getUrl (filesRequest query)) with
      | none => some fs
      | some metaData => createFile currentDir transformDateToString resStruct fs metaData := by
  unfold restoreTheLastFile restoreLastFile filesOfQuery
  rcases (getFilesFromServer collateKeyForFilename (getUrl (filesRequest query))).getLast? with _ | elem
  · rfl
  · rcases hmeta : elem.metaData with _ | metaData <;> simp only [restoreOneFile, Option.bind_some, hmeta]

/-- What is restored are the files that are listed for the same options, in that order: all of them with all the versions or all the
files, else the last one. -/
theorem restoreFiles_eq (fs : LocalFiles) (opt : RestoreOptions) (allFiles : Bool) :
    restoreFiles collateKeyForFilename currentDir transformDateToString resStruct user getUrl fs opt allFiles =
      let list := listFiles collateKeyForFilename user getUrl opt resStruct.opt.allVersions
      restoreListOfSmeta currentDir transformDateToString resStruct fs
        (if resStruct.opt.allVersions = true ∨ allFiles = true then list else list.getLast?.toList) := by
  unfold restoreFiles listFiles
  by_cases hversions : resStruct.opt.allVersions = true
  · simp only [hversions, if_true, true_or, restoreAllVersions]
    rcases versionsQuery collateKeyForFilename user (getUrl (filesRequest (getUserInfos user opt))) with _ | queryLast
    · rfl
    · rfl
  · by_cases hall : allFiles = true
    · simp only [hversions, hall, or_true, if_true]
      rfl
    · simp only [hversions, hall, or_self, restoreTheLastFile, Bool.false_eq_true, if_false]
      rcases (filesOfQuery collateKeyForFilename getUrl (getUserInfos user opt)).getLast? with _ | elem
      · rfl
      · rw [Option.toList_some, restoreListOfSmeta]
        exact (Option.bind_fun_some _).symm

/-- Whatever is asked for and whatever the server answers, what stood somewhere still stands there. -/
theorem kept_restoreFiles {fs fs' : LocalFiles} {opt : RestoreOptions} {allFiles : Bool}
    (h : restoreFiles collateKeyForFilename currentDir transformDateToString resStruct user getUrl fs opt allFiles = some fs') :
    FileSystem.Kept fs fs' := by
  rw [restoreFiles_eq] at h
  exact kept_restoreListOfSmeta h

end Sauvegarde
