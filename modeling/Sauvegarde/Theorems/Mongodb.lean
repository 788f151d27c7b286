import Sauvegarde.Server.MongodbBackend

/-!
# Meta data in MongoDB

What `init_meta_data_from_bson` makes of the document `init_meta_bson` built. The fields come back, zero and `NULL` included;
of the hash list only the first half does.
-/

namespace Sauvegarde

namespace MongodbAux

/-- The elements of the document made of meta data. -/
theorem holds_initMetaBson (oid : Bytes) (hostname : Option CString) (dataSent : Bool) (m : MetaData) :
    Holds (initMetaBson oid ⟨hostname, dataSent, some m⟩) fun k =>
      if k = "hashlist" then
        (if m.hashDataList = [] then none else some (Bson.array (addListValues 0 [] m.hashDataList)))
      else if k = "link" then m.link.map Bson.utf8
      else if k = "name" then m.name.map Bson.utf8
      else if k = "gid" then (if m.gid = 0 then none else some (Bson.int32 m.gid.toInt32))
      else if k = "uid" then (if m.uid = 0 then none else some (Bson.int32 m.uid.toInt32))
      else if k = "group" then m.group.map Bson.utf8
      else if k = "owner" then m.owner.map Bson.utf8
      else if k = "size" then (if m.size = 0 then none else some (Bson.int64 m.size.toInt64))
      else if k = "mtime" then (if m.mtime = 0 then none else some (Bson.int64 m.mtime.toInt64))
      else if k = "ctime" then (if m.ctime = 0 then none else some (Bson.int64 m.ctime.toInt64))
      else if k = "atime" then (if m.atime = 0 then none else some (Bson.int64 m.atime.toInt64))
      else if k = "mode" then (if m.mode = 0 then none else some (Bson.int32 m.mode.toInt32))
      else if k = "filetype" then
        (if m.fileType.toUInt32 = 0 then none else some (Bson.int32 m.fileType.toUInt32.toInt32))
      else if k = "inode" then (if m.inode = 0 then none else some (Bson.int64 m.inode.toInt64))
      else if k = "_id" then some (Bson.oid oid)
      else none := by
  have h : Holds [] fun _ => none := fun _ => rfl
  have h := h.append "_id" rfl (Bson.oid oid)
  have h := h.appendInt64 "inode" (by simp) m.inode
  have h := h.appendInt32 "filetype" (by simp) m.fileType.toUInt32
  have h := h.appendInt32 "mode" (by simp) m.mode
  have h := h.appendInt64 "atime" (by simp) m.atime
  have h := h.appendInt64 "ctime" (by simp) m.ctime
  have h := h.appendInt64 "mtime" (by simp) m.mtime
  have h := h.appendInt64 "size" (by simp) m.size
  have h := h.appendUtf8 "owner" (by simp) m.owner
  have h := h.appendUtf8 "group" (by simp) m.group
  have h := h.appendInt32 "uid" (by simp) m.uid
  have h := h.appendInt32 "gid" (by simp) m.gid
  have h := h.appendUtf8 "name" (by simp) m.name
  have h := h.appendUtf8 "link" (by simp) m.link
  exact h.addListValuesToBson "hashlist" (by simp) m.hashDataList

/-- A 64 bit field that was written unless zero is read into a field that is zero. -/
theorem readInt64_eq {document : Document} (label : String) (value : UInt64)
    (h : document.lookup label = if value = 0 then none else some (Bson.int64 value.toInt64)) :
    readInt64 document label 0 = value := by
  rw [readInt64, h]
  split_ifs with hv
  · exact hv.symm
  · exact UInt64.toUInt64_toInt64 value

/-- A 32 bit field that was written unless zero is read into a field that is zero. -/
theorem readInt32_eq {document : Document} (label : String) (value : UInt32)
    (h : document.lookup label = if value = 0 then none else some (Bson.int32 value.toInt32)) :
    readInt32 document label 0 = value := by
  rw [readInt32, h]
  split_ifs with hv
  · exact hv.symm
  · exact UInt32.toUInt32_toInt32 value

/-- A string that was written unless `NULL` is read into a field that is `NULL`. -/
theorem readUtf8_eq {document : Document} (label : String) (value : Option CString)
    (h : document.lookup label = value.map Bson.utf8) : readUtf8 document label none = value := by
  rw [readUtf8, h]
  cases value <;> rfl

/-- The hashs read are the hashs of the first half of the list, rounded up. -/
theorem readHashList_eq {document : Document} (label : String) {list : List HashData} {hs : List Hash}
    (hhs : HashsAre list hs)
    (h : document.lookup label = if list = [] then none else some (Bson.array (addListValues 0 [] list))) :
    readHashList document label [] =
      (hs.take ((list.length + 1) / 2)).map fun g => newHashDataAsIs none 0 (some g.bytes) COMPRESS_NONE_TYPE 0 := by
  rw [readHashList, h]
  split_ifs with hl
  · have hnil : hs = [] := by simpa [HashsAre, hl] using hhs
    rw [hnil, List.take_nil, List.map_nil]
  · simp only [addListValues_eq, List.nil_append, Nat.sub_zero, prependHashs_listValues (hhs.take _), List.append_nil,
      List.reverse_reverse]

/-- What comes back: every field, and the first half of the hash list. -/
theorem initMetaDataFromBson_initMetaBson (oid : Bytes) (hostname : Option CString) (dataSent : Bool) {m : MetaData}
    {hs : List Hash} (hhs : HashsAre m.hashDataList hs) :
    initMetaDataFromBson initMetaData (initMetaBson oid ⟨hostname, dataSent, some m⟩) =
      { m with
        hashDataList := (hs.take ((m.hashDataList.length + 1) / 2)).map fun g =>
          newHashDataAsIs none 0 (some g.bytes) COMPRESS_NONE_TYPE 0
        inCache := false
        blocksize := 0 } := by
  have hget := holds_initMetaBson oid hostname dataSent m
  have hfileType : (readInt32 (initMetaBson oid ⟨hostname, dataSent, some m⟩) LABEL_FILETYPE
      (0 : UInt8).toUInt32).toUInt8 = m.fileType := by
    rw [show (0 : UInt8).toUInt32 = 0 from rfl]
    rw [readInt32_eq _ m.fileType.toUInt32 ((hget _).trans (by simp [LABEL_FILETYPE]))]
    exact UInt8.toUInt8_toUInt32 m.fileType
  have hinode := readInt64_eq LABEL_INODE m.inode ((hget _).trans (by simp [LABEL_INODE]))
  have hmode := readInt32_eq LABEL_MODE m.mode ((hget _).trans (by simp [LABEL_MODE]))
  have hatime := readInt64_eq LABEL_ATIME m.atime ((hget _).trans (by simp [LABEL_ATIME]))
  have hctime := readInt64_eq LABEL_CTIME m.ctime ((hget _).trans (by simp [LABEL_CTIME]))
  have hmtime := readInt64_eq LABEL_MTIME m.mtime ((hget _).trans (by simp [LABEL_MTIME]))
  have hsize := readInt64_eq LABEL_SIZE m.size ((hget _).trans (by simp [LABEL_SIZE]))
  have howner := readUtf8_eq LABEL_OWNER m.owner ((hget _).trans (by simp [LABEL_OWNER]))
  have hgroup := readUtf8_eq LABEL_GROUP m.group ((hget _).trans (by simp [LABEL_GROUP]))
  have huid := readInt32_eq LABEL_UID m.uid ((hget _).trans (by simp [LABEL_UID]))
  have hgid := readInt32_eq LABEL_GID m.gid ((hget _).trans (by simp [LABEL_GID]))
  have hname := readUtf8_eq LABEL_NAME m.name ((hget _).trans (by simp [LABEL_NAME]))
  have hlink := readUtf8_eq LABEL_LINK m.link ((hget _).trans (by simp [LABEL_LINK]))
  have hlist := readHashList_eq LABEL_HASHLIST hhs ((hget _).trans (by simp [LABEL_HASHLIST]))
  simp only [initMetaDataFromBson, initMetaData, newMetaData]
  rw [hfileType, hinode, hmode, hatime, hctime, hmtime, hsize, howner, hgroup, huid, hgid, hname, hlink, hlist]

end MongodbAux

/-- The record comes back from the document that is made of it. -/
def ComesBackFromBson (oid : Bytes) (hostname : Option CString) (dataSent : Bool) (m : MetaData) : Prop :=
  m.Same (initMetaDataFromBson initMetaData (initMetaBson oid ⟨hostname, dataSent, some m⟩))

/-- A record comes back from MongoDB exactly when it has at most one hash. -/
theorem comesBackFromBson_iff (oid : Bytes) (hostname : Option CString) (dataSent : Bool) (m : MetaData)
    (h : AllHashed m.hashDataList) : ComesBackFromBson oid hostname dataSent m ↔ m.hashDataList.length ≤ 1 := by
  obtain ⟨hs, hhs⟩ := h.exists_hashs
  have hlen : hs.length = m.hashDataList.length := by
    have hmap := congrArg List.length hhs
    simpa using hmap.symm
  rw [ComesBackFromBson, MongodbAux.initMetaDataFromBson_initMetaBson oid hostname dataSent hhs]
  constructor
  · intro hsame
    have hlength := congrArg List.length hsame.hashs
    simp only [List.length_map, List.length_take] at hlength
    omega
  · intro hone
    exact {
      fileType := rfl, mode := rfl, atime := rfl, ctime := rfl, mtime := rfl, size := rfl, inode := rfl, owner := rfl,
      group := rfl, uid := rfl, gid := rfl, name := rfl, link := rfl
      hashs := by
        rw [show m.hashDataList.map HashData.hash = _ from hhs, List.take_of_length_le (by omega), List.map_map]
        rfl }

/-- The record of a file of `n` equal blocks. -/
def blocksFile (n : Nat) : MetaData :=
  { newMetaData with
    name := some (CString.lit "/home/file")
    hashDataList := List.replicate n (newHashDataAsIs none 0 (some (List.replicate 32 7)) COMPRESS_NONE_TYPE 0) }

/-- The hashs of a file of equal blocks have the right length. -/
theorem allHashed_blocksFile (n : Nat) : AllHashed (blocksFile n).hashDataList := fun hd hhd =>
  ⟨⟨List.replicate 32 7, rfl⟩, by
    rw [(List.mem_replicate.mp hhd).2]
    rfl⟩

/-- The record of a file of one block comes back. -/
theorem oneBlock_comesBackFromBson : ComesBackFromBson [1] none true (blocksFile 1) :=
  (comesBackFromBson_iff [1] none true (blocksFile 1) (allHashed_blocksFile 1)).mpr (by decide)

/-- The record of a file of two blocks comes back with one. -/
theorem twoBlocks_lose_one : AllHashed (blocksFile 2).hashDataList ∧ ¬ ComesBackFromBson [1] none true (blocksFile 2) := by
  refine ⟨allHashed_blocksFile 2, fun hsame => ?_⟩
  have hlength := congrArg List.length hsame.hashs
  have hhs : HashsAre (blocksFile 2).hashDataList (List.replicate 2 ⟨List.replicate 32 7, rfl⟩) := rfl
  rw [MongodbAux.initMetaDataFromBson_initMetaBson _ _ _ hhs] at hlength
  exact absurd hlength (by decide)

end Sauvegarde
