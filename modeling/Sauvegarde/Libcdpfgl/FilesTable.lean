import Sauvegarde.Libcdpfgl.Files

/-!
# The local cache

The table `files` of the client's database, in which each file that was saved has a row, and the statements of database.c on it. An
unsigned value is bound as a signed one with the same bits. Each statement is atomic and succeeds.
-/

namespace Sauvegarde

/-- What `bind_values_to_get_file_id` binds: a version of a file. -/
@[ext] structure FileKey where
  inode : Int64
  name : Option CString
  fileType : Int32
  uid : Int32
  gid : Int32
  ctime : Int64
  mtime : Int64
  mode : Int32
  size : Int64
deriving DecidableEq

/-- A row of the table `files`. -/
structure FileRow where
  fileId : Nat
  cacheTime : Int64
  key : FileKey
  fileUser : Option CString
  fileGroup : Option CString
  atime : Int64
  transmitted : Int32
  link : Option CString
deriving DecidableEq

/-- The table, and the greatest `file_id` that was ever given. -/
structure FilesTable where
  rows : List FileRow
  sequence : Nat
deriving DecidableEq

/-- The table as `verify_if_tables_exists` creates it. -/
def FilesTable.created : FilesTable := ⟨[], 0⟩

/-- `bind_guint_value`. -/
def bindGuintValue (value : UInt32) : Int32 := value.toInt32

/-- `bind_guint64_value`. -/
def bindGuint64Value (value : UInt64) : Int64 := value.toInt64

/-- `bind_values_to_get_file_id`. -/
def bindValuesToGetFileId (metaData : MetaData) : FileKey where
  inode := bindGuint64Value metaData.inode
  name := metaData.name
  fileType := bindGuintValue metaData.fileType.toUInt32
  uid := bindGuintValue metaData.uid
  gid := bindGuintValue metaData.gid
  ctime := bindGuint64Value metaData.ctime
  mtime := bindGuint64Value metaData.mtime
  mode := bindGuintValue metaData.mode
  size := bindGuint64Value metaData.size

/-- `bind_values_to_save_meta_data`: the row that is inserted. -/
def bindValuesToSaveMetaData (fileId : Nat) (metaData : MetaData) (onlyMeta : Bool) (cacheTime : UInt64) : FileRow where
  fileId := fileId
  cacheTime := bindGuint64Value cacheTime
  key := bindValuesToGetFileId metaData
  fileUser := metaData.owner
  fileGroup := metaData.group
  atime := bindGuint64Value metaData.atime
  transmitted := bindGuintValue (if onlyMeta then 1 else 0)
  link := metaData.link

/-- `db_save_meta_data`. -/
def FilesTable.dbSaveMetaData (files : FilesTable) (metaData : MetaData) (onlyMeta : Bool) (cacheTime : UInt64) : FilesTable where
  rows := files.rows ++ [bindValuesToSaveMetaData (files.sequence + 1) metaData onlyMeta cacheTime]
  sequence := files.sequence + 1

/-- The condition of the statement of `get_file_id`: nothing is equal to `NULL`. -/
def FileRow.isSelected (row : FileRow) (key : FileKey) : Bool := key.name.isSome && row.key = key

/-- The loop of `get_file_id`: the rows are counted in a `guint`. -/
def countRows (key : FileKey) : UInt32 → List FileRow → UInt32
  | nbRow, [] => nbRow
  | nbRow, row :: rows => countRows key (if row.isSelected key then nbRow + 1 else nbRow) rows

/-- `get_file_id`. -/
def FilesTable.getFileId (files : FilesTable) (metaData : MetaData) : UInt32 :=
  countRows (bindValuesToGetFileId metaData) 0 files.rows

/-- `is_file_in_cache`. -/
def FilesTable.isFileInCache (files : FilesTable) (metaData : MetaData) : Bool := files.getFileId metaData ≠ 0

/-! ## What the statements do -/

@[simp] theorem FilesTable.keys_dbSaveMetaData (files : FilesTable) (metaData : MetaData) (onlyMeta : Bool) (cacheTime : UInt64) :
    (files.dbSaveMetaData metaData onlyMeta cacheTime).rows.map FileRow.key =
      files.rows.map FileRow.key ++ [bindValuesToGetFileId metaData] := by
  simp [FilesTable.dbSaveMetaData, bindValuesToSaveMetaData]

/-- The rows are counted modulo 2^32. -/
theorem countRows_eq (key : FileKey) (rows : List FileRow) : ∀ nbRow : UInt32,
    countRows key nbRow rows = nbRow + UInt32.ofNat (rows.countP fun row => row.isSelected key) := by
  induction rows with
  | nil => exact fun nbRow => by simp [countRows]
  | cons row rows ih =>
    intro nbRow
    rw [countRows, ih, List.countP_cons]
    split
    · rw [UInt32.ofNat_add]
      ac_rfl
    · rw [Nat.add_zero]

/-- When no version is in the table twice, a file with a name is found exactly when its version is there. -/
theorem FilesTable.isFileInCache_iff {files : FilesTable} (hnodup : (files.rows.map FileRow.key).Nodup) {metaData : MetaData}
    (hname : metaData.name ≠ none) :
    files.isFileInCache metaData = true ↔ bindValuesToGetFileId metaData ∈ files.rows.map FileRow.key := by
  have hsome : (bindValuesToGetFileId metaData).name.isSome = true := Option.isSome_iff_ne_none.mpr hname
  have hcount : (files.rows.countP fun row => row.isSelected (bindValuesToGetFileId metaData)) =
      (files.rows.map FileRow.key).count (bindValuesToGetFileId metaData) := by
    rw [List.count, List.countP_map]
    refine List.countP_congr fun row _ => ?_
    simp [FileRow.isSelected, hsome]
  have hone := List.nodup_iff_count_le_one.mp hnodup (bindValuesToGetFileId metaData)
  rw [FilesTable.isFileInCache, FilesTable.getFileId, countRows_eq, hcount, ← List.count_pos_iff]
  rcases Nat.le_one_iff_eq_zero_or_eq_one.mp hone with h | h <;> rw [h] <;> decide

/-- The values that are bound are those of the file: versions that are bound alike are the same version. -/
theorem bindValuesToGetFileId_inj {m m' : MetaData} (h : bindValuesToGetFileId m = bindValuesToGetFileId m') :
    m.inode = m'.inode ∧ m.name = m'.name ∧ m.fileType = m'.fileType ∧ m.uid = m'.uid ∧ m.gid = m'.gid ∧ m.ctime = m'.ctime ∧
      m.mtime = m'.mtime ∧ m.mode = m'.mode ∧ m.size = m'.size := by
  have hlong : ∀ {a b : UInt64}, a.toInt64 = b.toInt64 → a = b := fun {a b} hab => by
    rw [← UInt64.toUInt64_toInt64 a, hab, UInt64.toUInt64_toInt64]
  have hshort : ∀ {a b : UInt32}, a.toInt32 = b.toInt32 → a = b := fun {a b} hab => by
    rw [← UInt32.toUInt32_toInt32 a, hab, UInt32.toUInt32_toInt32]
  have htype : ∀ {a b : UInt8}, a.toUInt32 = b.toUInt32 → a = b := fun {a b} hab => by
    rw [← UInt8.toUInt8_toUInt32 a, hab, UInt8.toUInt8_toUInt32]
  obtain ⟨hinode, hname, hfileType, huid, hgid, hctime, hmtime, hmode, hsize⟩ := FileKey.ext_iff.mp h
  exact ⟨hlong hinode, hname, htype (hshort hfileType), hshort huid, hshort hgid, hlong hctime, hlong hmtime, hshort hmode, hlong hsize⟩

end Sauvegarde
