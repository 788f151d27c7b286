import Sauvegarde.Server.MetaFilename

/-!
# Files of meta data and their directory

The host name that a request carries becomes a part of a name of a file as it is, so a host name with separators and parent
directories in it leads out of the directory of the files of meta data.
-/

namespace Sauvegarde

/-! ## The name below the directory -/

namespace MetaDirectoryAux

/-- An element without a character does not count. -/
theorem gBuildFilenameOf_nil_cons (rest : List Bytes) : gBuildFilenameOf ([] :: rest) = gBuildFilenameOf rest := by
  unfold gBuildFilenameOf
  rw [List.filter_cons_of_neg (by simp)]

/-- One element more leads on from where the elements before it lead. -/
theorem gFileNewForPath_append (currentDir : Location) {first : Bytes} (hfirst : first ≠ []) (rest more : List Bytes) :
    gFileNewForPath currentDir (gBuildFilenameOf (first :: (rest ++ more))) =
      Paths.resolve (str ".") (str "..") (gFileNewForPath currentDir (gBuildFilenameOf (first :: rest)))
        (more.flatMap (Paths.components 47)) := by
  unfold gFileNewForPath
  rw [head?_gBuildFilenameOf hfirst, head?_gBuildFilenameOf hfirst, components_gBuildFilenameOf, components_gBuildFilenameOf,
    List.flatMap_cons, List.flatMap_append, ← List.append_assoc, ← List.flatMap_cons]
  exact List.foldl_append

variable (currentDir : Location) (backend : FileBackend) (hostname : CString)

/-- The file that is read lies where the host name leads from the directory. -/
theorem listed_location :
    gFileNewForPath currentDir (gBuildFilenameOf [backend.pathPrefix, str "meta", hostname.bytes]) =
      Paths.resolve (str ".") (str "..") (gFileNewForPath currentDir (metaDirectory backend))
        (Paths.components 47 hostname.bytes) := by
  have hmore : [hostname.bytes].flatMap (Paths.components 47) = Paths.components 47 hostname.bytes := List.flatMap_singleton ..
  unfold metaDirectory
  by_cases hempty : backend.pathPrefix = []
  · rw [hempty, gBuildFilenameOf_nil_cons, gBuildFilenameOf_nil_cons, ← hmore]
    exact gFileNewForPath_append currentDir (by decide) [] [hostname.bytes]
  · rw [← hmore]
    exact gFileNewForPath_append currentDir hempty [str "meta"] [hostname.bytes]

/-- The file that is appended to is the same. -/
theorem stored_location :
    gFileNewForPath currentDir (gBuildFilenameOf [metaDirectory backend, hostname.bytes]) =
      Paths.resolve (str ".") (str "..") (gFileNewForPath currentDir (metaDirectory backend))
        (Paths.components 47 hostname.bytes) := by
  have hmore : [hostname.bytes].flatMap (Paths.components 47) = Paths.components 47 hostname.bytes := List.flatMap_singleton ..
  have hcomponents : Paths.components 47 (metaDirectory backend) ≠ [] := by
    unfold metaDirectory
    rw [components_gBuildFilenameOf]
    have hmeta : Paths.components 47 (str "meta") = [str "meta"] := Paths.components_name (by decide) (by decide)
    simp [hmeta]
  have hdirectory : metaDirectory backend ≠ [] := by
    intro hempty
    rw [hempty] at hcomponents
    exact hcomponents (Paths.components_nil 47)
  have hsingle : gFileNewForPath currentDir (gBuildFilenameOf [metaDirectory backend]) =
      gFileNewForPath currentDir (metaDirectory backend) := by
    unfold gFileNewForPath
    rw [head?_gBuildFilenameOf hdirectory, components_gBuildFilenameOf, List.flatMap_singleton]
  rw [← hsingle, ← hmore]
  exact gFileNewForPath_append currentDir hdirectory [] [hostname.bytes]

end MetaDirectoryAux

/-! ## Files in the directory -/

/-- A name of a file directly in the directory of the files of meta data, for a server that runs in a directory. -/
def InMetaDirectory (currentDir : Location) (backend : FileBackend) (name : Bytes) : Prop :=
  ∃ file, gFileNewForPath currentDir name = gFileNewForPath currentDir (metaDirectory backend) ++ [file]

/-- Whatever request carries a host name, the files that are opened for it lie in the directory. -/
def StaysInMetaDirectory (currentDir : Location) (backend : FileBackend) (hostname : CString) : Prop :=
  ∀ (files : Files) (request : HostRequest), request.hostname = some hostname →
    ∀ name ∈ request.opened backend files, InMetaDirectory currentDir backend name

/-- A host name that is one name below a directory: in its shortest form it goes up some levels, back down the same names, and
then along one name more. -/
def OneNameBelow (directory : Location) (hostname : CString) : Prop :=
  let shortest := Paths.normal (str ".") (str "..") (Paths.components 47 hostname.bytes)
  shortest.downs ≠ [] ∧ shortest.downs.dropLast = directory.drop (directory.length - shortest.ups)

instance (directory : Location) (hostname : CString) : Decidable (OneNameBelow directory hostname) :=
  inferInstanceAs (Decidable (_ ∧ _))

/-- A host name without a separator, that is not `.` or `..`, is one. -/
theorem oneNameBelow_of_not_mem {hostname : CString} (hseparator : (47 : UInt8) ∉ hostname.bytes) (hempty : hostname.bytes ≠ [])
    (hhere : hostname.bytes ≠ str ".") (hparent : hostname.bytes ≠ str "..") (directory : Location) :
    OneNameBelow directory hostname := by
  have hshortest : Paths.normal (str ".") (str "..") (Paths.components 47 hostname.bytes) = ⟨0, [hostname.bytes]⟩ := by
    rw [Paths.components_name hseparator hempty, Paths.normal, List.foldl_cons, List.foldl_nil, Paths.Normal.step, if_neg hhere,
      if_neg hparent, List.nil_append]
  unfold OneNameBelow
  rw [hshortest]
  exact ⟨List.cons_ne_nil _ _, by simp⟩

/-- The files of meta data that are opened for a host name lie directly in their directory exactly when the host name is one name
below it. -/
theorem staysInMetaDirectory_iff (currentDir : Location) (backend : FileBackend) (hostname : CString) :
    StaysInMetaDirectory currentDir backend hostname ↔
      OneNameBelow (gFileNewForPath currentDir (metaDirectory backend)) hostname := by
  have hbelow := Paths.exists_resolve_eq_append (str ".") (str "..") (gFileNewForPath currentDir (metaDirectory backend))
    (Paths.components 47 hostname.bytes)
  constructor
  · intro hstays
    -- a well formed request for a list carries any host name
    have hopened := hstays (fun _ => none) (.fileListJson [(CString.lit "hostname", some hostname),
      (CString.lit "uid", some (CString.lit "")), (CString.lit "gid", some (CString.lit "")),
      (CString.lit "owner", some (CString.lit "")), (CString.lit "group", some (CString.lit ""))]) rfl _ List.mem_cons_self
    unfold InMetaDirectory at hopened
    rw [show fileGetListOfFilesFilename backend _ = gBuildFilenameOf [backend.pathPrefix, str "meta", hostname.bytes] from rfl,
      MetaDirectoryAux.listed_location] at hopened
    exact hbelow.mp hopened
  · intro hone files request hhost name hname
    unfold InMetaDirectory
    rcases HostRequest.eq_of_mem_opened hhost hname with rfl | rfl
    · rw [MetaDirectoryAux.stored_location]
      exact hbelow.mpr hone
    · rw [MetaDirectoryAux.listed_location]
      exact hbelow.mpr hone

/-- A host name that leads from the default directory to the files of another program. -/
theorem hostnameOfCrontab_leavesMetaDirectory :
    ¬StaysInMetaDirectory [] ⟨str "/var/tmp/cdpfgl/server", 2, by decide⟩ (CString.lit "../../../../../etc/crontab") := by
  intro hstays
  obtain ⟨file, hfile⟩ := hstays (fun _ => none)
    (.metaJson (.obj [("hostname", .str (CString.lit "../../../../../etc/crontab"))])) rfl
    (str "/var/tmp/cdpfgl/server/meta/../../../../../etc/crontab") (by decide +kernel)
  have hopened : gFileNewForPath [] (str "/var/tmp/cdpfgl/server/meta/../../../../../etc/crontab") =
      [str "etc", str "crontab"] := by
    decide +kernel
  have hdirectory : gFileNewForPath [] (metaDirectory ⟨str "/var/tmp/cdpfgl/server", 2, by decide⟩) =
      [str "var", str "tmp", str "cdpfgl", str "server", str "meta"] := by
    decide +kernel
  rw [hopened, hdirectory] at hfile
  simpa using congrArg List.length hfile

end Sauvegarde
