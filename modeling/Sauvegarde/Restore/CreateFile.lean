import Sauvegarde.Libcdpfgl.Communique
import Sauvegarde.Libcdpfgl.Files
import Sauvegarde.Libcdpfgl.HashHeader
import Sauvegarde.Libcdpfgl.LocalFiles
import Sauvegarde.Libcdpfgl.Unpacking

/-!
# Creating restored files

The functions of restore.c that create what is restored. The attributes of a file are set after it is there; they are left out.
-/

namespace Sauvegarde

/-- The fields of `options_t` that files are created by. -/
structure CreateOptions where
  whereDir : Option CString
  parents : Bool
  allVersions : Bool

/-- The fields of `res_struct_t` that files are created with: the options, and for `comm` what the server answers to a request for
blocks with a header, none when it fails. -/
structure ResStruct where
  opt : CreateOptions
  getHashArray : Bytes → Option Json

/-- What one answer adds to the stream. -/
def writtenOf (answer : Option Json) : Bytes :=
  match answer.bind convertStringToHashData with
  | none => []
  | some hashData => (hashData.data.getD []).take hashData.read.toNatClampNeg

/-- `restore_data_to_stream`: what is written. It would not end for a `max` of zero, which is never given. -/
def restoreDataToStream (getHashArray : Bytes → Option Json) (hashList : List HashData) (max : Nat) : Bytes :=
  if hashList = [] then []
  else
    let header := (createXGetHashArrayHttpHeader hashList max).1
    let rest := (createXGetHashArrayHttpHeader hashList max).2
    if rest.length < hashList.length then
      writtenOf (getHashArray header) ++ restoreDataToStream getHashArray rest max
    else writtenOf (getHashArray header)
termination_by hashList.length

/-- Where the loop of `restore_data_to_stream` stands: the hashs that are left, the headers that were sent, what is written. -/
structure Restoring where
  hashList : List HashData
  headers : List Bytes
  written : Bytes
deriving DecidableEq

/-- One turn of the loop. -/
def Restoring.turn (getHashArray : Bytes → Option Json) (max : Nat) (restoring : Restoring) : Restoring :=
  let (header, rest) := createXGetHashArrayHttpHeader restoring.hashList max
  ⟨rest, restoring.headers ++ [header], restoring.written ++ writtenOf (getHashArray header)⟩

/-- The loop: none when it does not end within so many turns. -/
def Restoring.loop (getHashArray : Bytes → Option Json) (max : Nat) : Nat → Restoring → Option Restoring
  | 0, restoring => if restoring.hashList = [] then some restoring else none
  | turns + 1, restoring =>
    if restoring.hashList = [] then some restoring else Restoring.loop getHashArray max turns (restoring.turn getHashArray max)

/-- While hashs are left, one more request is made and the rest is asked for after it. -/
theorem restoreDataToStream_of_ne_nil {getHashArray : Bytes → Option Json} {hashList : List HashData} (hne : hashList ≠ [])
    {max : Nat} (hmax : 0 < max) :
    restoreDataToStream getHashArray hashList max =
      writtenOf (getHashArray (createXGetHashArrayHttpHeader hashList max).1) ++
        restoreDataToStream getHashArray (createXGetHashArrayHttpHeader hashList max).2 max := by
  have hpos := List.length_pos_iff.mpr hne
  have hshorter : (createXGetHashArrayHttpHeader hashList max).2.length < hashList.length := by
    rw [createXGetHashArrayHttpHeader_eq, List.length_drop]
    omega
  rw [restoreDataToStream, if_neg hne]
  exact if_pos hshorter

/-- Without hashs nothing more is written. -/
theorem Restoring.written_of_nil {restoring : Restoring} (hnil : restoring.hashList = []) (getHashArray : Bytes → Option Json)
    (max : Nat) : restoring.written = restoring.written ++ restoreDataToStream getHashArray restoring.hashList max := by
  rw [hnil, restoreDataToStream, if_pos rfl, List.append_nil]

/-- A loop that ends has written what `restoreDataToStream` is. -/
theorem Restoring.written_loop {getHashArray : Bytes → Option Json} {max : Nat} (hmax : 0 < max) (turns : Nat) :
    ∀ {restoring ended : Restoring}, restoring.loop getHashArray max turns = some ended →
      ended.written = restoring.written ++ restoreDataToStream getHashArray restoring.hashList max := by
  induction turns with
  | zero =>
    intro restoring ended h
    rw [Restoring.loop] at h
    split at h
    · rename_i hnil
      rw [← Option.some.inj h]
      exact Restoring.written_of_nil hnil getHashArray max
    · exact absurd h (by simp)
  | succ turns ih =>
    intro restoring ended h
    rw [Restoring.loop] at h
    split at h
    · rename_i hnil
      rw [← Option.some.inj h]
      exact Restoring.written_of_nil hnil getHashArray max
    · rename_i hne
      rw [ih h, restoreDataToStream_of_ne_nil hne hmax, Restoring.turn, List.append_assoc]

/-- The header lines of a request for blocks: `get_url` sends the one that names the hashs behind its own. -/
def hashArrayHeaders (header : Bytes) : List Bytes :=
  appendContentTypeToHeader [] (CString.lit "/Data/Hash_Array.json") ++ [header]

section

variable (currentDir : Location) (transformDateToString : UInt64 → Option CString) (resStruct : ResStruct)

/-- The directory that `create_file` creates a file in. -/
def destination (fs : LocalFiles) : Bytes :=
  match resStruct.opt.whereDir with
  | none => gGetCurrentDir currentDir
  | some whereDir => if gFileTestIsDir fs currentDir whereDir.bytes then whereDir.bytes else gGetCurrentDir currentDir

/-- `create_file`: none when no name is free, or when `newname`, which `get_unique_filename` has freed, is freed once more: the
program is aborted then. -/
def createFile (fs : LocalFiles) (metaData : MetaData) : Option LocalFiles :=
  let opt := resStruct.opt
  let whereDir := destination currentDir resStruct fs
  let name := metaData.name.map CString.bytes
  let basename := if opt.parents then name else name.map gPathGetBasename
  let theDate := if opt.allVersions then (transformDateToString metaData.mtime).map CString.bytes else none
  let newname :=
    if opt.allVersions then some (theDate.getD (str "(null)") ++ str "_" ++ basename.getD (str "(null)")) else basename
  (getUniqueFilename fs currentDir opt.allVersions basename whereDir newname theDate).bind fun unique =>
    let file := gFileNewForPath currentDir unique.filename
    let fs :=
      if metaData.link = some (CString.lit "") then
        let fs := if opt.parents then createDirectory fs currentDir (gPathGetDirname unique.filename) else fs
        let max := calculateMaxNumberOfHashs metaData.size
        gFileReplace fs file (restoreDataToStream resStruct.getHashArray metaData.hashDataList max)
      else makeSymbolicLink fs file metaData.link
    if unique.newnameFreed then none else some fs

/-- `restore_one_file`. -/
def restoreOneFile (fs : LocalFiles) (elem : ServerMetaData) : Option LocalFiles :=
  match elem.metaData with
  | none => some fs
  | some metaData => createFile currentDir transformDateToString resStruct fs metaData

/-- `restore_list_of_smeta`. -/
def restoreListOfSmeta (fs : LocalFiles) : List ServerMetaData → Option LocalFiles
  | [] => some fs
  | elem :: list =>
    (restoreOneFile currentDir transformDateToString resStruct fs elem).bind fun fs => restoreListOfSmeta fs list

end

/-- The destination has a name. -/
theorem destination_ne_nil (currentDir : Location) (resStruct : ResStruct) (fs : LocalFiles) :
    destination currentDir resStruct fs ≠ [] := by
  unfold destination
  rcases resStruct.opt.whereDir with _ | whereDir
  · exact List.cons_ne_nil _ _
  · simp only
    split_ifs with h
    · simp only [gFileTestIsDir, Bool.and_eq_true, decide_eq_true_eq] at h
      exact h.1
    · exact List.cons_ne_nil _ _

end Sauvegarde
