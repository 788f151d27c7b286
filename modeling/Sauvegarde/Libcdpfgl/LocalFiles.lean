import Sauvegarde.Extern.LocalFiles
import Sauvegarde.Lib.Decimal

/-!
# Creating files

The functions of files.c and libcdpfgl.c that look for a name that is free and create directories and links. The program runs in
the directory `currentDir`.
-/

namespace Sauvegarde

section

variable (fs : LocalFiles) (currentDir : Location)

/-- `file_exists`. -/
def fileExists (filename : Bytes) : Bool := gFileQueryExists fs (gFileNewForPath currentDir filename)

/-- The name that the loop of `get_unique_filename` tries after `i` others: the first is `newname`, the others have numbers. Numbers
of 32 bits are written as signed ones. -/
def candidateName (allVersions : Bool) (basename newname theDate : Option Bytes) : Nat → Option Bytes
  | 0 => newname
  | i + 1 =>
    let number := Decimal.printInt (UInt32.ofNat i).toInt32.toInt
    let basename := basename.getD (str "(null)")
    if allVersions then some (theDate.getD (str "(null)") ++ str "-" ++ number ++ str "_" ++ basename)
    else some (number ++ str "-" ++ basename)

/-- The loop of `get_unique_filename`, from a candidate on. -/
def firstFreeName (filename : Nat → Bytes) : Nat → Nat → Option Bytes
  | 0, _ => none
  | left + 1, i =>
    if fileExists fs currentDir (filename i) then firstFreeName filename left (i + 1) else some (filename i)

/-- What `get_unique_filename` leaves its caller with: the name, and whether the `newname` it was given was freed. -/
structure UniqueFilename where
  filename : Bytes
  newnameFreed : Bool
deriving DecidableEq

/-- `get_unique_filename`: none when it does not end, because all names are taken. There are no others after `2^32` numbers. The
names that are taken are freed, and the first of them is that of the caller, who frees it as well. -/
def getUniqueFilename (allVersions : Bool) (basename : Option Bytes) (whereDir : Bytes) (newname theDate : Option Bytes) :
    Option UniqueFilename :=
  let filename := fun i => gBuildFilenameOf (whereDir :: (candidateName allVersions basename newname theDate i).toList)
  (firstFreeName fs currentDir filename (2 ^ 32 + 1) 0).map fun chosen =>
    ⟨chosen, newname.isSome && fileExists fs currentDir (filename 0)⟩

/-- `create_directory`. -/
def createDirectory (directory : Bytes) : LocalFiles :=
  gFileMakeDirectoryWithParents fs (gFileNewForPath currentDir directory)

/-- `make_symbolic_link`. -/
def makeSymbolicLink (file : Location) (pointsTo : Option CString) : LocalFiles :=
  match pointsTo with
  | none => fs
  | some pointsTo => gFileMakeSymbolicLink fs file pointsTo.bytes

end

end Sauvegarde
