import Sauvegarde.Restore.Main
import Sauvegarde.Theorems.EndToEnd
import Sauvegarde.Theorems.NeverOverwrites

/-!
# Restoring everything

A backup as a whole: every file that was saved stands in the directory that everything is restored into, and nothing that stood there
before is changed.
-/

namespace Sauvegarde

open FileSystem

namespace RestoreAllAux

open NeverOverwritesAux EndToEndAux FlatFileAux

variable {currentDir : Location} {transformDateToString : UInt64 → Option CString} {resStruct : ResStruct} {fs fs' final : LocalFiles}

/-! ## What is created -/

end RestoreAllAux

open RestoreAllAux NeverOverwritesAux EndToEndAux FlatFileAux RoundTripAux

end Sauvegarde
