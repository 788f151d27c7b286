import Sauvegarde.Libcdpfgl.Unpacking

/-!
# Meta data and blocks on the wire

What `fills_server_meta_data_t_from_json_t` makes of what `convert_meta_data_to_json` wrote. Every field comes back but the
group id: it is written from the user id. What `convert_json_t_to_hash_data` makes of what `convert_hash_data_t_to_json` wrote, and of
anything else: every field of a block comes back, and lengths that do not fit are refused.
-/

namespace Sauvegarde

namespace WireAux

/-- The members of the object made of meta data: one for each field, and none for a string that is `NULL`. -/
theorem finds_convertMetaDataToJson (m : MetaData) (hostname : Option CString) (dataSent : Bool) :
    Finds (convertMetaDataToJson m hostname dataSent) fun k =>
      if k = "hash_list" then some (convertHashListToJson m.hashDataList)
      else if k = "data_sent" then some (Json.bool dataSent)
      else if k = "hostname" then hostname.map Json.str
      else if k = "link" then m.link.map Json.str
      else if k = "name" then m.name.map Json.str
      else if k = "gid" then some (Json.int m.uid.toUInt64.toInt64)
      else if k = "uid" then some (Json.int m.uid.toUInt64.toInt64)
      else if k = "group" then m.group.map Json.str
      else if k = "owner" then m.owner.map Json.str
      else if k = "inode" then some (Json.int m.inode.toInt64)
      else if k = "fsize" then some (Json.int m.size.toInt64)
      else if k = "mtime" then some (Json.int m.mtime.toInt64)
      else if k = "ctime" then some (Json.int m.ctime.toInt64)
      else if k = "atime" then some (Json.int m.atime.toInt64)
      else if k = "mode" then some (Json.int m.mode.toUInt64.toInt64)
      else if k = "filetype" then some (Json.int m.fileType.toUInt64.toInt64)
      else if k = "msg_id" then some (Json.int ENC_META_DATA.toUInt64.toInt64)
      else none := by
  have h := finds_empty
  have h := h.insert "msg_id" rfl (some (Json.int ENC_META_DATA.toUInt64.toInt64))
  have h := h.insert "filetype" (by simp) (some (Json.int m.fileType.toUInt64.toInt64))
  have h := h.insert "mode" (by simp) (some (Json.int m.mode.toUInt64.toInt64))
  have h := h.insert "atime" (by simp) (some (Json.int m.atime.toInt64))
  have h := h.insert "ctime" (by simp) (some (Json.int m.ctime.toInt64))
  have h := h.insert "mtime" (by simp) (some (Json.int m.mtime.toInt64))
  have h := h.insert "fsize" (by simp) (some (Json.int m.size.toInt64))
  have h := h.insert "inode" (by simp) (some (Json.int m.inode.toInt64))
  have h := h.insert "owner" (by simp) (m.owner.map Json.str)
  have h := h.insert "group" (by simp) (m.group.map Json.str)
  have h := h.insert "uid" (by simp) (some (Json.int m.uid.toUInt64.toInt64))
  have h := h.insert "gid" (by simp) (some (Json.int m.uid.toUInt64.toInt64))
  have h := h.insert "name" (by simp) (m.name.map Json.str)
  have h := h.insert "link" (by simp) (m.link.map Json.str)
  have h := h.insert "hostname" (by simp) (hostname.map Json.str)
  have h := h.insert "data_sent" (by simp) (some (Json.bool dataSent))
  exact h.insert "hash_list" (by simp) (some (convertHashListToJson m.hashDataList))

/-- The string of a member that holds a string, or is missing for one that is `NULL`. -/
theorem stringValue_map_str (s : Option CString) : Json.stringValue (s.map Json.str) = s := by
  cases s <;> rfl

/-- What is read back: every field as it was written, so the user id for the group id, and an element with its hash and nothing
else for each hash of the list. -/
theorem fills_convertMetaDataToJson {m : MetaData} {hs : List Hash} (h : HashsAre m.hashDataList hs)
    (hostname : Option CString) (dataSent : Bool) :
    fillsServerMetaDataFromJson (convertMetaDataToJson m hostname dataSent) =
      ⟨hostname, dataSent, some { newMetaData with
        fileType := m.fileType, mode := m.mode, atime := m.atime, ctime := m.ctime, mtime := m.mtime, size := m.size,
        inode := m.inode, owner := m.owner, group := m.group, uid := m.uid, gid := m.uid, name := m.name, link := m.link,
        hashDataList := hs.map fun g => newHashDataAsIs none 0 (some g.bytes) COMPRESS_NONE_TYPE 0 }⟩ := by
  obtain ⟨_, _, hget⟩ := finds_convertMetaDataToJson m hostname dataSent
  have hlist : extractHashsFromArray (convertMetaDataToJson m hostname dataSent) "hash_list" =
      hs.map fun g => newHashDataAsIs none 0 (some g.bytes) COMPRESS_NONE_TYPE 0 := by
    rw [extractHashsFromArray, extractGlistFromArray_eq, hget]
    simp only [if_true, convertHashListToJson_eq h, Json.elements_arr, List.map_map]
    exact List.map_congr_left fun g _ => hashDataOfText_base64Text g
  simp only [fillsServerMetaDataFromJson, getGuint8FromJsonRoot, getGuint32FromJsonRoot, getGuint64FromJsonRoot,
    getStringFromJsonRoot, getBooleanFromJsonRoot, getJsonValueFromJsonRoot, hlist, hget, String.reduceEq, if_true,
    if_false, Json.integerValue_int, Json.isTrue_bool, stringValue_map_str, UInt64.toUInt64_toInt64,
    UInt8.toUInt8_toUInt64, UInt32.toUInt32_toUInt64]

end WireAux

/-- The record comes back from the wire: the same meta data, host and flag. -/
def ComesBack (m : MetaData) (hostname : Option CString) (dataSent : Bool) : Prop :=
  let smeta := fillsServerMetaDataFromJson (convertMetaDataToJson m hostname dataSent)
  (∃ m', smeta.metaData = some m' ∧ m.Same m') ∧ smeta.hostname = hostname ∧ smeta.dataSent = dataSent

/-- A record comes back from the wire exactly when its user id and its group id are the same number. -/
theorem comesBack_iff (m : MetaData) (hostname : Option CString) (dataSent : Bool) (h : AllHashed m.hashDataList) :
    ComesBack m hostname dataSent ↔ m.uid = m.gid := by
  obtain ⟨hs, hhs⟩ := h.exists_hashs
  rw [ComesBack, WireAux.fills_convertMetaDataToJson hhs]
  constructor
  · rintro ⟨⟨m', hm', hsame⟩, _, _⟩
    rw [Option.some.injEq] at hm'
    subst hm'
    exact hsame.gid
  · intro hid
    refine ⟨⟨_, rfl, ?_⟩, rfl, rfl⟩
    exact {
      fileType := rfl, mode := rfl, atime := rfl, ctime := rfl, mtime := rfl, size := rfl, inode := rfl, owner := rfl,
      group := rfl, uid := rfl, gid := hid, name := rfl, link := rfl
      hashs := by
        rw [show m.hashDataList.map HashData.hash = _ from hhs, List.map_map]
        rfl }

/-- The record of a file of root, with one block. -/
def rootFile : MetaData :=
  { newMetaData with
    uid := 0, gid := 0, name := some (CString.lit "/etc/passwd")
    hashDataList := [newHashDataAsIs none 0 (some (List.replicate 32 7)) COMPRESS_NONE_TYPE 0] }

/-- The record of a file of root comes back. -/
theorem rootFile_comesBack : ComesBack rootFile (some (CString.lit "host")) true :=
  (comesBack_iff rootFile _ _ fun hd hhd => ⟨⟨List.replicate 32 7, rfl⟩, by
    rw [List.mem_singleton.mp hhd]
    rfl⟩).mpr rfl

/-- A file of user 1000 and group 100 comes back as one of group 1000. -/
theorem gid_comes_back_as_uid :
    AllHashed { newMetaData with uid := 1000, gid := 100 }.hashDataList ∧
      ¬ ComesBack { newMetaData with uid := 1000, gid := 100 } none false := by
  refine ⟨by simp [AllHashed, newMetaData], ?_⟩
  rintro ⟨⟨m', hm', hsame⟩, _, _⟩
  have hhs : HashsAre { newMetaData with uid := 1000, gid := 100 }.hashDataList [] := rfl
  rw [WireAux.fills_convertMetaDataToJson hhs, Option.some.injEq] at hm'
  subst hm'
  exact absurd hsame.gid (by decide)

/-! ## Blocks -/

/-- The lengths in the object of a block are right: the hash that is decoded has `HASH_LEN` bytes, and the data that are decoded are as
long as the object says; data that are missing have no bytes. -/
structure LengthsFit (root : Json) (hd : HashData) : Prop where
  hash : ∃ h : Hash, gBase64Decode (Json.stringValue (root.get "hash")) = some h.bytes ∧ hd.hash = some h.bytes
  data : hd.data = gBase64Decode (Json.stringValue (root.get "data"))
  size : (Json.integerValue (root.get "size")).toInt = ((hd.data.map List.length).getD 0 : Nat)
  read : hd.read = Json.integerValue (root.get "size")

/-- What is made of an object has the lengths that the object says. The text of the data is one that memory holds. -/
theorem lengthsFit_of_convertJsonToHashData {root : Json} {hd : HashData}
    (htext : ∀ text, Json.stringValue (root.get "data") = some text → text.bytes.length < 2 ^ 63)
    (h : convertJsonToHashData root = some hd) : LengthsFit root hd := by
  have hsmall : ((gBase64Decode (Json.stringValue (root.get "data"))).map List.length).getD 0 < 2 ^ 63 := by
    cases hvalue : Json.stringValue (root.get "data") with
    | none => decide
    | some text => exact Nat.lt_of_le_of_lt (Base64.length_decode_le text.bytes) (htext text hvalue)
  unfold convertJsonToHashData at h
  simp only [getJsonValueFromJsonRoot, getGuint64FromJsonRoot, Int64.toInt64_toUInt64] at h
  split at h
  · rename_i hlengths
    obtain ⟨hdata, hhash⟩ := hlengths
    rw [Option.some.injEq] at h
    subst h
    obtain ⟨bytes, hbytes⟩ : ∃ bytes, gBase64Decode (Json.stringValue (root.get "hash")) = some bytes := by
      cases hnone : gBase64Decode (Json.stringValue (root.get "hash")) with
      | none => rw [hnone] at hhash; exact absurd hhash (by decide)
      | some bytes => exact ⟨bytes, rfl⟩
    rw [hbytes] at hhash
    exact {
      hash := ⟨⟨bytes, hhash⟩, hbytes, hbytes⟩
      data := rfl
      size := by
        have hback := congrArg (fun n : UInt64 => n.toInt64.toInt) hdata
        simp only [Int64.toInt64_toUInt64] at hback
        rw [← hback]
        exact Int64.toInt_ofNat_of_lt hsmall
      read := rfl }
  · cases h

/-- A block comes back from the object that is made of it, with every field, and an object whose lengths do not fit makes no block. -/
theorem blockMessage_roundTrip :
    (∀ hd h data, HashData.IsBlock hd h data →
      ∃ root, convertHashDataToJson hd = some root ∧ convertJsonToHashData root = some hd) ∧
    ∀ root hd, (∀ text, Json.stringValue (root.get "data") = some text → text.bytes.length < 2 ^ 63) →
      convertJsonToHashData root = some hd → LengthsFit root hd :=
  ⟨fun _ _ _ hhd => convertJsonToHashData_of_isBlock hhd, fun _ _ htext h => lengthsFit_of_convertJsonToHashData htext h⟩

/-- A block without a byte, which says that it was compressed. -/
def emptyBlock : HashData := newHashDataAsIs (some []) 0 (some (List.replicate 32 7)) COMPRESS_ZLIB_TYPE (-1)

/-- It comes back, and the object that is made of it has its lengths. -/
theorem emptyBlock_comesBack :
    ∃ root, convertHashDataToJson emptyBlock = some root ∧ convertJsonToHashData root = some emptyBlock ∧
      LengthsFit root emptyBlock := by
  obtain ⟨root, hroot, hback⟩ := blockMessage_roundTrip.1 emptyBlock ⟨List.replicate 32 7, rfl⟩ [] ⟨rfl, rfl, rfl⟩
  refine ⟨root, hroot, hback, blockMessage_roundTrip.2 root emptyBlock (fun text htext => ?_) hback⟩
  have hempty : convertHashDataToJson emptyBlock = some root → Json.stringValue (root.get "data") = some (base64Text []) := by
    intro h
    rw [← Option.some.inj h]
    rfl
  rw [hempty hroot] at htext
  rw [← Option.some.inj htext]
  decide

end Sauvegarde
