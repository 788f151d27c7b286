import Sauvegarde.Theorems.MetaDirectory
import Sauvegarde.Theorems.Newest
import Sauvegarde.Theorems.RoundTrip

/-!
# From the client to the restored file

The whole way of a file: its record is sent, kept, queued, written to the file of its host, read, listed, sorted and sent to the
program that restores, and its blocks are asked for by the hashs of the record that arrived.
-/

namespace Sauvegarde

section

variable (currentDir : Location) (backend : FileBackend)

/-- The file of meta data that is read for a host. -/
def metaFileOf (hostname : CString) : Location :=
  gFileNewForPath currentDir (gBuildFilenameOf [backend.pathPrefix, str "meta", hostname.bytes])

/-- The meta data of a file as its record has them: with the user id for the group id. -/
def FileToSave.recorded (file : FileToSave) : MetaData := { file.metaData with gid := file.metaData.uid }

/-- A file that a query for a host asks for: it is saved, its record can be written and goes to the file of the host, and the query
selects it. -/
structure FileToSave.AskedFor (hostname : CString) (filters : Filters) (query : Query) (file : FileToSave) : Prop where
  saved : file.Saved
  writable : file.Writable
  host : metaFileOf currentDir backend file.main.hostname = metaFileOf currentDir backend hostname
  selected : Selected filters query file.recorded

end

namespace EndToEndAux

open CachedAux FlatFileAux NewestAux RoundTripAux

variable {sha256 : Bytes → Hash} {z : Zlib}

/-! ## What can be written -/

/-- The strings of a record are UTF-8. -/
def Utf8Strings (m : MetaData) (hostname : Option CString) : Prop :=
  ∀ s : CString, m.owner = some s ∨ m.group = some s ∨ m.name = some s ∨ m.link = some s ∨ hostname = some s →
    (Json.str s).wellEncoded = true

/-- What is found in an object that is written is written. -/
theorem wellEncoded_of_get {root v : Json} {key : String} (h : root.wellEncoded = true) (hget : root.get key = some v) :
    v.wellEncoded = true := by
  cases root with
  | obj members =>
    have hmem : (key, v) ∈ members := by
      obtain ⟨before, after, rfl, _⟩ := List.lookup_eq_some_iff.mp (show members.lookup key = some v from hget)
      exact List.mem_append_right _ List.mem_cons_self
    exact (Json.wellEncodedMembers_iff members).mp h _ hmem
  | _ => cases hget

/-- A record with hashs is written exactly when its strings are UTF-8. -/
theorem written_iff {m : MetaData} {hs : List Hash} (hhs : HashsAre m.hashDataList hs) (hostname : Option CString) (dataSent : Bool) :
    convertMetaDataToJsonString m hostname dataSent ≠ none ↔ Utf8Strings m hostname := by
  have hdumps : convertMetaDataToJsonString m hostname dataSent ≠ none ↔
      (convertMetaDataToJson m hostname dataSent).wellEncoded = true := by
    unfold convertMetaDataToJsonString Json.dumps
    split <;> simp [*]
  rw [hdumps]
  constructor
  · intro h s hs
    obtain ⟨_, _, hget⟩ := WireAux.finds_convertMetaDataToJson m hostname dataSent
    rcases hs with hs | hs | hs | hs | hs
    · exact wellEncoded_of_get h ((hget "owner").trans (by simp [hs]))
    · exact wellEncoded_of_get h ((hget "group").trans (by simp [hs]))
    · exact wellEncoded_of_get h ((hget "name").trans (by simp [hs]))
    · exact wellEncoded_of_get h ((hget "link").trans (by simp [hs]))
    · exact wellEncoded_of_get h ((hget "hostname").trans (by simp [hs]))
  · intro h
    have hlist : (convertHashListToJson m.hashDataList).wellEncoded = true := by
      rw [convertHashListToJson_eq hhs, Json.wellEncoded, Json.wellEncodedAll_iff]
      intro v hv
      obtain ⟨g, _, rfl⟩ := List.mem_map.mp hv
      exact Json.wellEncoded_base64Text g.bytes
    have value : ∀ {root v : Json} (key : String), v.wellEncoded = true → root.wellEncoded = true →
        (insertJsonValueIntoJsonRoot root key (some v)).wellEncoded = true :=
      fun key hv hroot => Json.wellEncoded_set hroot hv key
    have text : ∀ {root : Json} {s : Option CString} (key : String), (∀ c, s = some c → (Json.str c).wellEncoded = true) →
        root.wellEncoded = true → (insertStringIntoJsonRoot root key s).wellEncoded = true := by
      intro root s key hs hroot
      refine wellEncoded_insert hroot (fun v hv => ?_) key
      obtain ⟨c, hc, rfl⟩ := Option.map_eq_some_iff.mp hv
      exact hs c hc
    have root : (Json.obj []).wellEncoded = true := rfl
    have root := @value _ (Json.int ENC_META_DATA.toUInt64.toInt64) "msg_id" rfl root
    have root := @value _ (Json.int m.fileType.toUInt64.toInt64) "filetype" rfl root
    have root := @value _ (Json.int m.mode.toUInt64.toInt64) "mode" rfl root
    have root := @value _ (Json.int m.atime.toInt64) "atime" rfl root
    have root := @value _ (Json.int m.ctime.toInt64) "ctime" rfl root
    have root := @value _ (Json.int m.mtime.toInt64) "mtime" rfl root
    have root := @value _ (Json.int m.size.toInt64) "fsize" rfl root
    have root := @value _ (Json.int m.inode.toInt64) "inode" rfl root
    have root := text "owner" (fun c hc => h c (.inl hc)) root
    have root := text "group" (fun c hc => h c (.inr (.inl hc))) root
    have root := @value _ (Json.int m.uid.toUInt64.toInt64) "uid" rfl root
    have root := @value _ (Json.int m.uid.toUInt64.toInt64) "gid" rfl root
    have root := text "name" (fun c hc => h c (.inr (.inr (.inl hc)))) root
    have root := text "link" (fun c hc => h c (.inr (.inr (.inr (.inl hc))))) root
    have root := text "hostname" (fun c hc => h c (.inr (.inr (.inr (.inr hc))))) root
    have root := @value _ (Json.bool dataSent) "data_sent" rfl root
    exact value "hash_list" hlist root

/-! ## What is read of what was stored -/

variable {currentDir : Location} {backend : FileBackend} {hostname : CString} {filters : Filters} {query : Query}

/-- The record of a file, with its meta data. -/
structure RecordData (sha256 : Bytes → Hash) (file : FileToSave) (smeta : ServerMetaData) (m : MetaData) (hs : List Hash) : Prop where
  hostname : smeta.hostname = some file.main.hostname
  metaData : smeta.metaData = some m
  same : MetaData.Same { file.recorded with hashDataList := m.hashDataList } m
  hashs : HashsAre m.hashDataList hs
  whole : file.ReadWhole → hs = file.blockHashs sha256

variable {file : FileToSave} {smeta : ServerMetaData} {m : MetaData} {hs : List Hash}

/-- The record of a file with plain strings may be stored. -/
theorem RecordData.storable (h : RecordData sha256 file smeta m hs) (hplain : Storable file.metaData) : Storable m where
  owner := by rw [h.same.owner]; exact hplain.owner
  group := by rw [h.same.group]; exact hplain.group
  name := by rw [h.same.name]; exact hplain.name
  link := by rw [h.same.link]; exact hplain.link
  hashs := h.hashs.allHashed

/-- The record of a file that was read can be written for a host whose name is UTF-8. -/
theorem RecordData.written (h : RecordData sha256 file smeta m hs) (hwritable : file.Writable)
    (hutf8 : (Json.str hostname).wellEncoded = true) :
    convertMetaDataToJsonString (readBack m hs) (some hostname) false ≠ none := by
  have hback : HashsAre (readBack m hs).hashDataList hs := by
    rw [HashsAre, readBack, List.map_map]
    rfl
  have hnoHashs : HashsAre file.metaData.hashDataList [] := by
    rw [file.noHashs]
    rfl
  have hstrings := (written_iff hnoHashs (some file.main.hostname) _).mp hwritable
  refine (written_iff hback (some hostname) false).mpr fun text htext => ?_
  rcases htext with howner | hgroup | hname | hlink | hhost
  · exact hstrings text (.inl (h.same.owner.symm.trans howner))
  · exact hstrings text (.inr (.inl (h.same.group.symm.trans hgroup)))
  · exact hstrings text (.inr (.inr (.inl (h.same.name.symm.trans hname))))
  · exact hstrings text (.inr (.inr (.inr (.inl (h.same.link.symm.trans hlink)))))
  · rwa [← Option.some.inj hhost]

section

variable {C : Type} {ops : List (SystemOp C)} {s : System C}

variable [DecidableEq C]

end

end EndToEndAux

open EndToEndAux CachedAux FlatFileAux NewestAux RoundTripAux StableSort

end Sauvegarde
