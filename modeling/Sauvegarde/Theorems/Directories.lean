import Sauvegarde.Server.Subdirectories

/-!
# The directories exist

Which levels have the directory of every block made: `read_from_group_file_backend` takes levels that `make_all_subdirectories` does
not make.
-/

namespace Sauvegarde

/-- For every hash the directory of its block is one of those that are made, and the file of the block is in it. -/
def DirectoriesExist (fileBackend : FileBackend) : Prop :=
  ∀ h : Hash, ∃ directory,
    makePathFromHash (gBuildFilename fileBackend.pathPrefix (str "data")) h.bytes fileBackend.level = some directory ∧
      directory ∈ makeAllSubdirectories fileBackend ∧
      ∃ name, (47 : UInt8) ∉ name ∧ blockFilename fileBackend (some h.bytes) = some (directory ++ 47 :: name)

namespace DirectoriesAux

/-- The directory of a hash is that of the number whose octets are its first bytes. -/
theorem makePathFromHash_eq (fileBackend : FileBackend) (h : Hash) (hlevel : 0 < fileBackend.level) :
    makePathFromHash (gBuildFilename fileBackend.pathPrefix (str "data")) h.bytes fileBackend.level =
      some (gBuildFilenameOf
        [fileBackend.pathPrefix, str "data", subdirectory fileBackend.level (numberOf (h.bytes.take fileBackend.level))]) := by
  have hlast := getLast_dataDirectory fileBackend.pathPrefix
  have hlen : (h.bytes.take fileBackend.level).length = fileBackend.level :=
    List.length_take_of_le (by rw [h.length_eq]; exact fileBackend.level_lt.le)
  have hne : h.bytes.take fileBackend.level ≠ [] := List.ne_nil_of_length_pos (by rw [hlen]; exact hlevel)
  have hpath := subdirectory_numberOf hne
  have htrimmed := subdirectory_trimmed hne
  rw [hlen] at hpath htrimmed
  rw [makePathFromHash, if_pos fileBackend.level_lt, (foldl_gBuildFilename _ _ hlast).1, ← hpath]
  exact congrArg some (@gBuildFilenameOf_concat [fileBackend.pathPrefix, str "data"] hlast _ htrimmed).symm

/-- The number of a hash is one that the loop comes to. -/
theorem mem_makeAllSubdirectories (fileBackend : FileBackend) (h : Hash) (hlevel : fileBackend.level < 5 ∧ fileBackend.level > 1) :
    gBuildFilenameOf
        [fileBackend.pathPrefix, str "data", subdirectory fileBackend.level (numberOf (h.bytes.take fileBackend.level))] ∈
      makeAllSubdirectories fileBackend := by
  have hlen : (h.bytes.take fileBackend.level).length = fileBackend.level :=
    List.length_take_of_le (by rw [h.length_eq]; exact fileBackend.level_lt.le)
  have hlt := numberOf_lt (h.bytes.take fileBackend.level)
  rw [hlen] at hlt
  rw [makeAllSubdirectories, if_pos hlevel]
  exact List.mem_append_left _ (List.mem_map.mpr ⟨_, List.mem_range.mpr hlt, rfl⟩)

/-- The file of a block is in the directory of its hash. -/
theorem blockFilename_in_directory (fileBackend : FileBackend) (h : Hash) {directory : Bytes}
    (hdirectory : makePathFromHash (gBuildFilename fileBackend.pathPrefix (str "data")) h.bytes fileBackend.level = some directory) :
    ∃ name, (47 : UInt8) ∉ name ∧ blockFilename fileBackend (some h.bytes) = some (directory ++ 47 :: name) := by
  rw [makePathFromHash, if_pos fileBackend.level_lt,
    (foldl_gBuildFilename _ _ (getLast_dataDirectory fileBackend.pathPrefix)).1, Option.some.injEq] at hdirectory
  refine ⟨(h.bytes.drop fileBackend.level).flatMap hexOctet, fun hmem => ?_, ?_⟩
  · obtain ⟨b, -, hb⟩ := List.mem_flatMap.mp hmem
    exact hexOctet_ne_slash hb rfl
  · rw [blockFilename_eq, blockPath, ← hdirectory, List.append_assoc]

/-- The directories exist for the levels from 2 to 4. -/
theorem directoriesExist_of_level (fileBackend : FileBackend) :
    DirectoriesExist fileBackend ↔ fileBackend.level < 5 ∧ fileBackend.level > 1 := by
  constructor
  · intro hexist
    obtain ⟨directory, -, hmem, -⟩ := hexist ⟨List.replicate HASH_LEN 0, List.length_replicate⟩
    by_contra hlevel
    rw [makeAllSubdirectories, if_neg hlevel] at hmem
    exact List.not_mem_nil hmem
  · intro hlevel h
    have hdirectory := makePathFromHash_eq fileBackend h (by omega)
    exact ⟨_, hdirectory, mem_makeAllSubdirectories fileBackend h hlevel, blockFilename_in_directory fileBackend h hdirectory⟩

/-- A number is read off its bits. -/
theorem toNat_toUInt32_eq (n m : Int32) : n = m ↔ n.toUInt32.toNat = m.toUInt32.toNat := by
  rw [UInt32.toNat_inj]
  exact ⟨fun h => h ▸ rfl, fun h => Int32.toBitVec_inj.mp (congrArg UInt32.toBitVec h)⟩

end DirectoriesAux

open DirectoriesAux

/-- The directories that the blocks go to exist exactly when the level of the configuration file, if there is one, is neither 1 nor
5. -/
theorem directoriesExist_iff (homeDir : Bytes) (group : Option (Option Bytes × Int32)) :
    DirectoriesExist (readFromGroupFileBackend homeDir defaultFileBackend group) ↔
      ∀ values ∈ group, values.2 ≠ 1 ∧ values.2 ≠ 5 := by
  rw [directoriesExist_of_level]
  rcases group with _ | ⟨directory, level⟩
  · exact iff_of_true ⟨by simp [readFromGroupFileBackend, readLevel, defaultFileBackend, FILE_BACKEND_LEVEL],
      by simp [readFromGroupFileBackend, readLevel, defaultFileBackend, FILE_BACKEND_LEVEL]⟩ (by simp)
  · have hone : level = 1 ↔ level.toUInt32.toNat = 1 := toNat_toUInt32_eq level 1
    have hfive : level = 5 ↔ level.toUInt32.toNat = 5 := toNat_toUInt32_eq level 5
    simp only [readFromGroupFileBackend, defaultFileBackend, FILE_BACKEND_LEVEL, readLevel, Option.map_some, Option.getD_some,
      Option.mem_some_iff, forall_eq', Ne, hone, hfive, UInt32.lt_iff_toNat_lt]
    have hzero : (0 : UInt32).toNat = 0 := rfl
    have hsix : (6 : UInt32).toNat = 6 := rfl
    rw [hzero, hsix]
    split_ifs <;> omega

/-- A level of 1 is taken, and no directory is made for any block. -/
theorem levelOne_noDirectory :
    (readFromGroupFileBackend (str "/root") defaultFileBackend (some (none, 1))).level = 1 ∧
      makeAllSubdirectories (readFromGroupFileBackend (str "/root") defaultFileBackend (some (none, 1))) = [] ∧
      ¬DirectoriesExist (readFromGroupFileBackend (str "/root") defaultFileBackend (some (none, 1))) := by
  refine ⟨by decide, by decide, fun hexist => ?_⟩
  obtain ⟨directory, -, hmem, -⟩ := hexist ⟨List.replicate HASH_LEN 0, List.length_replicate⟩
  exact List.not_mem_nil hmem

end Sauvegarde
