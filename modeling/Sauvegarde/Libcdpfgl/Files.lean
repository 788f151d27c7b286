import Sauvegarde.Libcdpfgl.Hashs

/-!
# Meta data

`meta_data_t` and `server_meta_data_t` of files.c.
-/

namespace Sauvegarde

/-- `normalize_directory`. -/
def normalizeDirectory (homeDir path : Bytes) : Bytes :=
  match path with
  | 126 :: rest => homeDir ++ rest
  | _ => path

/-- `meta_data_t`: the meta data of a file and the list of its hashs. -/
@[ext] structure MetaData where
  inode : UInt64
  fileType : UInt8
  mode : UInt32
  atime : UInt64
  ctime : UInt64
  mtime : UInt64
  size : UInt64
  owner : Option CString
  group : Option CString
  uid : UInt32
  gid : UInt32
  name : Option CString
  link : Option CString
  hashDataList : List HashData
  inCache : Bool
  blocksize : Int64
deriving DecidableEq

/-- `server_meta_data_t`: meta data, the host they come from and whether the data of the file were sent. -/
@[ext] structure ServerMetaData where
  hostname : Option CString
  dataSent : Bool
  metaData : Option MetaData
deriving DecidableEq

/-- `new_meta_data_t`. -/
def newMetaData : MetaData where
  inode := 0
  fileType := 0
  mode := 0
  atime := 0
  ctime := 0
  mtime := 0
  size := 0
  owner := none
  group := none
  uid := 65534
  gid := 65534
  name := none
  link := none
  hashDataList := []
  inCache := false
  blocksize := 16384

/-- `new_smeta_data_t`. -/
def newSmetaData : ServerMetaData := ⟨none, false, none⟩

/-- Two records of a file are the same to the server: every field that is sent or stored is equal, and the lists have the same
hashs in the same order. The data of the blocks are not part of a record. -/
structure MetaData.Same (m m' : MetaData) : Prop where
  fileType : m'.fileType = m.fileType
  mode : m'.mode = m.mode
  atime : m'.atime = m.atime
  ctime : m'.ctime = m.ctime
  mtime : m'.mtime = m.mtime
  size : m'.size = m.size
  inode : m'.inode = m.inode
  owner : m'.owner = m.owner
  group : m'.group = m.group
  uid : m'.uid = m.uid
  gid : m'.gid = m.gid
  name : m'.name = m.name
  link : m'.link = m.link
  hashs : m'.hashDataList.map HashData.hash = m.hashDataList.map HashData.hash

/-- The hashs of a list are the hashs `hs`, in order. -/
def HashsAre (list : List HashData) (hs : List Hash) : Prop := list.map HashData.hash = hs.map fun h => some h.bytes

/-- Every element of the list has a hash of the right length. -/
def AllHashed (list : List HashData) : Prop := ∀ hd ∈ list, ∃ h : Hash, hd.hash = some h.bytes

/-- A list whose elements have hashs of the right length has hashs. -/
theorem AllHashed.exists_hashs {list : List HashData} (h : AllHashed list) : ∃ hs, HashsAre list hs := by
  induction list with
  | nil => exact ⟨[], rfl⟩
  | cons hd list ih =>
    obtain ⟨g, hg⟩ := h hd List.mem_cons_self
    obtain ⟨hs, hhs⟩ := ih fun e he => h e (List.mem_cons_of_mem _ he)
    refine ⟨g :: hs, ?_⟩
    simp only [HashsAre, List.map_cons, hg] at hhs ⊢
    rw [hhs]

/-- A list has no other hashs than its hashs. -/
theorem HashsAre.unique {list : List HashData} {hs hs' : List Hash} (h : HashsAre list hs) (h' : HashsAre list hs') :
    hs' = hs :=
  List.map_injective_iff.mpr (fun _ _ heq => Hash.ext (Option.some.inj heq)) (Eq.trans (Eq.symm h') h)

/-- A list that has hashs has hashs of the right length. -/
theorem HashsAre.allHashed {list : List HashData} {hs : List Hash} (h : HashsAre list hs) : AllHashed list := by
  intro hd hhd
  have hmem : hd.hash ∈ hs.map fun h => some h.bytes := (show list.map HashData.hash = _ from h) ▸ List.mem_map_of_mem hhd
  obtain ⟨g, _, hg⟩ := List.mem_map.mp hmem
  exact ⟨g, hg.symm⟩

end Sauvegarde
