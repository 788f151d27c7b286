import Sauvegarde.Extern.Gio
import Sauvegarde.Lib.FileSystem

/-!
# Local files

What GIO does with the files of the computer: names and contents are bytes, and a link has the text of the path it leads to.
Attributes are left out.
-/

namespace Sauvegarde

/-- The files of the computer. -/
abbrev LocalFiles := FileSystem.Files Bytes Bytes Bytes

/-- How the system reads paths. -/
def pathRules : FileSystem.Rules Bytes Bytes where
  here := str "."
  parent := str ".."
  leads := fun target => (target.head? = some 47, Paths.components 47 target)
  maxLinks := 40

/-- `g_get_current_dir`. -/
def gGetCurrentDir (currentDir : Location) : Bytes := 47 :: [47].intercalate currentDir

/-- `g_file_test` with `G_FILE_TEST_IS_DIR`: links are followed. -/
def gFileTestIsDir (fs : LocalFiles) (currentDir : Location) (path : Bytes) : Bool :=
  path ≠ [] && ((FileSystem.walk pathRules fs pathRules.maxLinks (if path.head? = some 47 then [] else currentDir)
    (Paths.components 47 path)).any fun r => FileSystem.isDir fs r.1)

/-- `g_file_query_exists`: a link exists wherever it leads. -/
def gFileQueryExists (fs : LocalFiles) (file : Location) : Bool := (FileSystem.lookup pathRules fs file).isSome

/-- `g_file_make_directory_with_parents`. -/
def gFileMakeDirectoryWithParents (fs : LocalFiles) (file : Location) : LocalFiles :=
  FileSystem.makeDirectories pathRules fs [] file

/-- `g_file_replace`, what is written to the stream and `g_output_stream_close`, for a file that does not exist. -/
def gFileReplace (fs : LocalFiles) (file : Location) (written : Bytes) : LocalFiles :=
  FileSystem.make pathRules fs file (.file written)

/-- `g_file_make_symbolic_link`. -/
def gFileMakeSymbolicLink (fs : LocalFiles) (file : Location) (symlinkValue : Bytes) : LocalFiles :=
  FileSystem.make pathRules fs file (.link symlinkValue)

end Sauvegarde
