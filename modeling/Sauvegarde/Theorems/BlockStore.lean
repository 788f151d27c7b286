import Sauvegarde.Server.FileData

/-!
# The blocks in flat files

What `file_retrieve_data` gives back after any number of blocks were stored by `file_store_data`.
-/

namespace Sauvegarde

/-- A block that `file_store_data` can be asked to store: a hash of the right length, data with their length, and a type of
compression that is allowed. -/
def StorableBlock (hd : HashData) : Prop := ∃ h data, hd.IsBlock h data ∧ isCompressTypeAllowed hd.cmptype = true

/-- The last block with this hash. -/
def lastStored (stores : List HashData) (h : Hash) : Option HashData := stores.reverse.find? fun hd => hd.hash = some h.bytes

/-- The files of the blocks are kept apart: storing and retrieving make the same names, and two files of the same name are the
same file of the same block. -/
structure PathsApart (backend : FileBackend) : Prop where
  same : ∀ h : Hash, ∃ hexHash, hashToString (some h.bytes) = some hexHash ∧
    hexBlockFilename backend hexHash = blockFilename backend (some h.bytes)
  named : ∀ h : Hash, (blockFilename backend (some h.bytes)).isSome = true
  data : ∀ g h : Hash, blockFilename backend (some g.bytes) = blockFilename backend (some h.bytes) → g = h
  keyFile : ∀ g h : Hash, (blockFilename backend (some g.bytes)).map (· ++ str ".meta") =
    (blockFilename backend (some h.bytes)).map (· ++ str ".meta") → g = h
  dataKeyFile : ∀ g h : Hash, blockFilename backend (some g.bytes) ≠
    (blockFilename backend (some h.bytes)).map (· ++ str ".meta")

namespace BlockStoreAux

/-- The name of the file of a block is one that is put together. -/
theorem blockFilename_eq_blockName (backend : FileBackend) (h : Hash) :
    blockFilename backend (some h.bytes) = some (blockName backend h) := blockFilename_eq backend h

/-- The files of the blocks are kept apart, at every level. -/
theorem pathsApart (backend : FileBackend) : PathsApart backend where
  same := fun h => ⟨hexText h.bytes, hashToString_bytes h, hexBlockFilename_hexText backend h⟩
  named := fun h => by rw [blockFilename_eq_blockName]; rfl
  data := fun g h heq => by
    rw [blockFilename_eq_blockName, blockFilename_eq_blockName, Option.some.injEq] at heq
    exact blockName_inj heq
  keyFile := fun g h heq => by
    rw [blockFilename_eq_blockName, blockFilename_eq_blockName, Option.map_some, Option.map_some, Option.some.injEq] at heq
    exact blockName_inj (List.append_cancel_right heq)
  dataKeyFile := fun g h heq => by
    rw [blockFilename_eq_blockName, blockFilename_eq_blockName, Option.map_some, Option.some.injEq] at heq
    exact blockName_ne_meta backend g h heq

/-- What `file_retrieve_data` reads of a block. -/
theorem fileRetrieveData_eq (backend : FileBackend) (files : Files) (h : Hash) :
    fileRetrieveData backend files (hexText h.bytes) = (files (blockName backend h)).map fun data =>
      newHashDataAsIs (some data) (Int64.ofNat data.length) (some h.bytes) (getCmptypeFromFileMeta files (blockName backend h))
        (getUncmplenFromFileMeta files (blockName backend h)) := by
  simp only [fileRetrieveData, hexBlockFilename_hexText, blockFilename_eq_blockName, Option.bind_some, stringToHash_hexText]

/-- The key file that was written beside a block gives its values. -/
theorem meta_eq {files : Files} {filename : Bytes} {uncmplen : Int64} {cmptype : Int16}
    (hcmp : isCompressTypeAllowed cmptype = true)
    (h : files (filename ++ str ".meta") = some (gKeyFileToData (filemetaKeyfile uncmplen cmptype))) :
    getCmptypeFromFileMeta files filename = cmptype ∧ getUncmplenFromFileMeta files filename = uncmplen := by
  have hload : fileMeta files filename = some (filemetaKeyfile uncmplen cmptype) := by
    rw [fileMeta, h, Option.bind_some, gKeyFileLoadFromData_filemetaKeyfile uncmplen hcmp]
  obtain ⟨hcmptype, huncmplen⟩ := read_filemetaKeyfile uncmplen hcmp COMPRESS_NONE_TYPE.toInt32 0
  simp only [getCmptypeFromFileMeta, getUncmplenFromFileMeta, hload, hcmptype, hcmp, if_true, huncmplen, and_self]

/-- A block with a hash that is stored is retrieved with it; what is retrieved with another hash is what was before. -/
theorem fileRetrieveData_fileStoreData (backend : FileBackend) (files : Files) {hd : HashData} (hhd : StorableBlock hd)
    (g : Hash) :
    fileRetrieveData backend (fileStoreData backend files hd) (hexText g.bytes) =
      if hd.hash = some g.bytes then some hd else fileRetrieveData backend files (hexText g.bytes) := by
  obtain ⟨h, data, hblock, hcmp⟩ := hhd
  rw [fileRetrieveData_eq, fileRetrieveData_eq, fileStoreData_isBlock backend files hblock, hblock.hash]
  by_cases hgh : g = h
  · subst hgh
    have hwritten : Function.update (Function.update files (blockName backend g ++ str ".meta")
        (some (gKeyFileToData (filemetaKeyfile hd.uncmplen hd.cmptype)))) (blockName backend g) (some data)
          (blockName backend g ++ str ".meta") = some (gKeyFileToData (filemetaKeyfile hd.uncmplen hd.cmptype)) := by
      rw [Function.update_of_ne (blockName_ne_meta backend g g).symm, Function.update_self]
    obtain ⟨hcmptype, huncmplen⟩ := meta_eq hcmp hwritten
    have hread : Int64.ofNat data.length = hd.read := by
      rw [← Int64.toInt_inj, hblock.read, Int64.toInt_ofNat_of_lt (by have := hd.read.toInt_lt; have := hblock.read; omega)]
    rw [if_pos rfl, Function.update_self, Option.map_some, hcmptype, huncmplen, hread, newHashDataAsIs, ← hblock.hash,
      ← hblock.data]
  · have hdata : blockName backend g ≠ blockName backend h := fun heq => hgh (blockName_inj heq)
    have hkey : blockName backend g ++ str ".meta" ≠ blockName backend h ++ str ".meta" :=
      fun heq => hgh (blockName_inj (List.append_cancel_right heq))
    have hne : ¬ some h.bytes = some g.bytes := fun heq => hgh (Hash.ext (Option.some.inj heq).symm)
    have hfile : fileMeta (Function.update (Function.update files (blockName backend h ++ str ".meta")
        (some (gKeyFileToData (filemetaKeyfile hd.uncmplen hd.cmptype)))) (blockName backend h) (some data))
          (blockName backend g) = fileMeta files (blockName backend g) := by
      rw [fileMeta, Function.update_of_ne (blockName_ne_meta backend h g).symm, Function.update_of_ne hkey, fileMeta]
    rw [if_neg hne, Function.update_of_ne hdata, Function.update_of_ne (blockName_ne_meta backend g h)]
    simp only [getCmptypeFromFileMeta, getUncmplenFromFileMeta, hfile]

end BlockStoreAux

/-- After any number of blocks are stored, the last one with a hash comes back for it; for a hash that none of them has, and
that had no block before, nothing does. -/
theorem lastStored_comesBack (backend : FileBackend) {files : Files} {h : Hash} (hempty : hasBlock backend files h = false)
    {stores : List HashData} (hstores : ∀ hd ∈ stores, StorableBlock hd) :
    PathsApart backend ∧ ∃ hexHash, hashToString (some h.bytes) = some hexHash ∧
      fileRetrieveData backend (stores.foldl (fileStoreData backend) files) hexHash = lastStored stores h := by
  refine ⟨BlockStoreAux.pathsApart backend, hexText h.bytes, hashToString_bytes h, ?_⟩
  induction stores using List.reverseRecOn with
  | nil =>
    have hnone : files (blockName backend h) = none := by
      simpa [hasBlock_eq] using hempty
    rw [List.foldl_nil, BlockStoreAux.fileRetrieveData_eq, hnone]
    rfl
  | append_singleton stores hd ih =>
    have hrest := ih fun hd' hmem => hstores hd' (List.mem_append_left _ hmem)
    have hlast := hstores hd (List.mem_append_right _ List.mem_cons_self)
    rw [List.foldl_append, List.foldl_cons, List.foldl_nil, BlockStoreAux.fileRetrieveData_fileStoreData _ _ hlast, hrest,
      lastStored, lastStored, List.reverse_append, List.reverse_singleton, List.singleton_append, List.find?_cons]
    by_cases heq : hd.hash = some h.bytes
    · rw [if_pos heq, decide_eq_true heq]
    · rw [if_neg heq, decide_eq_false heq]

/-- A backend with as many directories as a hash allows. -/
def deepBackend : FileBackend := ⟨str "/var/tmp/cdpfgl/server", 31, by decide⟩

/-- A hash. -/
def sevens : Hash := ⟨List.replicate 32 7, rfl⟩

/-- A block that is not compressed. -/
def plainBlock : HashData := newHashDataAsIs (some (str "text")) 4 (some sevens.bytes) COMPRESS_NONE_TYPE 4

/-- The same block, compressed. -/
def zlibBlock : HashData := newHashDataAsIs (some [120, 218, 0]) 3 (some sevens.bytes) COMPRESS_ZLIB_TYPE 4

/-- Both blocks may be stored. -/
theorem storable_blocks : StorableBlock plainBlock ∧ StorableBlock zlibBlock :=
  ⟨⟨sevens, str "text", ⟨rfl, rfl, by decide⟩, rfl⟩, ⟨sevens, [120, 218, 0], ⟨rfl, rfl, by decide⟩, rfl⟩⟩

/-- Of two blocks with the same hash the one comes back that is stored last. -/
theorem zlibBlock_comesBack : PathsApart deepBackend ∧ ∃ hexHash, hashToString (some sevens.bytes) = some hexHash ∧
    fileRetrieveData deepBackend ([plainBlock, zlibBlock].foldl (fileStoreData deepBackend) fun _ => none) hexHash =
      some zlibBlock := by
  refine lastStored_comesBack deepBackend (hasBlock_eq _ _ sevens) fun hd hmem => ?_
  rcases List.mem_pair.mp hmem with rfl | rfl
  · exact storable_blocks.1
  · exact storable_blocks.2

end Sauvegarde
