import Sauvegarde.Restore.Files
import Sauvegarde.Restore.Request

/-!
# All versions of a file

The second query that restore.c makes when all versions of a file are asked for: the name of the last file of the first answer
becomes a regular expression.
-/

namespace Sauvegarde

/-- `new_query_from_filename`: neither dates nor the latest versions are asked for. -/
def newQueryFromFilename (user : UserInfos) (filename : CString) : QueryT :=
  { prepareQuery user with filename := encodeToBase64 (some filename) }

/-- The expression of `restore_all_versions` and `print_all_versions` for a file: its name as it is, between the signs for the
beginning and the end. -/
def allVersionsPattern (name : Option CString) : CString := CString.ofBytes (str "^" ++ printString name ++ str "$")

/-- The second query of `restore_all_versions` and `print_all_versions`: there is none when the first found no file. -/
def versionsQuery (collateKeyForFilename : CString → CString) (user : UserInfos) (answer : Option Json) : Option QueryT :=
  (restoreLastFile collateKeyForFilename answer).map fun metaData =>
    newQueryFromFilename user (allVersionsPattern metaData.name)

/-- The options that ask for all versions of a file. -/
def versionsOptions (name : CString) : RestoreOptions := ⟨allVersionsPattern (some name), none, none, none, false⟩

/-- The second query is that of the options for the name of the last file. -/
theorem versionsQuery_eq {collateKeyForFilename : CString → CString} {answer : Option Json} {metaData : MetaData}
    {name : CString} (hlast : restoreLastFile collateKeyForFilename answer = some metaData) (hname : metaData.name = some name)
    (user : UserInfos) :
    versionsQuery collateKeyForFilename user answer = some (getUserInfos user (versionsOptions name)) := by
  rw [versionsQuery, hlast, Option.map_some, hname]
  rfl

/-- A query has the options it was made from. -/
theorem getUserInfos_injective (user : UserInfos) : Function.Injective (getUserInfos user) := by
  rintro ⟨filename, date, afterdate, beforedate, latest⟩ ⟨filename', date', afterdate', beforedate', latest'⟩ h
  have hfilename : some filename = some filename' := encodeToBase64_injective (congrArg QueryT.filename h)
  have hdate : date = date' := encodeToBase64_injective (congrArg QueryT.date h)
  have hafterdate : afterdate = afterdate' := encodeToBase64_injective (congrArg QueryT.afterdate h)
  have hbeforedate : beforedate = beforedate' := encodeToBase64_injective (congrArg QueryT.beforedate h)
  have hlatest : latest = latest' := congrArg QueryT.latest h
  rw [Option.some.inj hfilename, hdate, hafterdate, hbeforedate, hlatest]

/-- The characters of the expression. -/
theorem bytes_allVersionsPattern (name : CString) : (allVersionsPattern (some name)).bytes = 94 :: (name.bytes ++ [36]) := by
  refine CString.bytes_ofBytes ?_
  intro c hc
  have hchars : str "^" ++ printString (some name) ++ str "$" = 94 :: (name.bytes ++ [36]) := rfl
  rw [hchars, List.mem_cons, List.mem_append, List.mem_singleton] at hc
  rcases hc with rfl | hc | rfl
  · decide
  · exact name.nulFree c hc
  · decide

end Sauvegarde
