import Sauvegarde.Lib.Scan
import Sauvegarde.Lib.Split
import Sauvegarde.Libcdpfgl.Files
import Sauvegarde.Libcdpfgl.Strings

/-!
# The flat file of meta data

The part of file_backend.c that keeps the meta data of the files of a host in one text file: one line for each record, written at
its end, and read back through a buffer. Texts may be of any length, and the file is only written by `file_store_smeta`.
-/

namespace Sauvegarde

/-! ## Writing -/

/-- The fields of a line but for the hashs, in their order. `%d` writes unsigned numbers of 32 bits as signed ones. -/
def smetaFields (metaData : MetaData) : List Bytes :=
  let name64 := (encodeToBase64 metaData.name).getD (CString.lit "")
  let link64 := (encodeToBase64 metaData.link).getD (CString.lit "")
  [Decimal.printInt metaData.fileType.toUInt32.toInt32.toInt, Decimal.printInt metaData.inode.toNat,
    Decimal.printInt metaData.mode.toInt32.toInt, Decimal.printInt metaData.atime.toNat,
    Decimal.printInt metaData.ctime.toNat, Decimal.printInt metaData.mtime.toNat, Decimal.printInt metaData.size.toNat,
    quoted (printString metaData.owner), quoted (printString metaData.group), Decimal.printInt metaData.uid.toInt32.toInt,
    Decimal.printInt metaData.gid.toInt32.toInt, quoted name64.bytes, quoted link64.bytes]

/-- A line, without its end: the fields and the hashs if there are any, with a comma and a blank between two. -/
def smetaLine (metaData : MetaData) : Bytes :=
  (str ", ").intercalate (smetaFields metaData ++ (convertHashDataListToGchar metaData.hashDataList).toList)

/-- `file_store_smeta`: the content of the file of the host after a line was appended to it. -/
def fileStoreSmeta (file : Bytes) (smeta : ServerMetaData) : Bytes :=
  match smeta.hostname, smeta.metaData with
  | some _, some metaData => file ++ smetaLine metaData ++ [10]
  | _, _ => file

/-! ## Reading lines -/

/-- `FILE_BACKEND_BUFFER_SIZE`. -/
def FILE_BACKEND_BUFFER_SIZE : Nat := 65536

/-- `buffer_t`: what was read last, the position in it, and what the reads to come will give; after them they give nothing. -/
structure ABuffer where
  buf : Bytes
  pos : Nat
  stream : List Bytes
deriving DecidableEq

/-- `a_buffer->size`. -/
def ABuffer.size (b : ABuffer) : Nat := b.buf.length

/-- `read_one_buffer`. -/
def readOneBuffer (b : ABuffer) : ABuffer :=
  match b.stream with
  | [] => ⟨[], 0, []⟩
  | chunk :: stream => ⟨chunk, 0, stream⟩

/-- `in_string` and `comma` after one more character; none when the character ends the line. A line has fewer than 2³¹ commas, which
`comma` counts: the body of a request that a line is made of has at most 4 GiB. -/
def nextInLine (state : Bool × Nat) (c : UInt8) : Option (Bool × Nat) :=
  let (inString, comma) := state
  let state := if c = 34 then (!inString, comma) else if c = 44 ∧ inString = false then (inString, comma + 1) else state
  if c = 10 ∧ state.1 = false ∧ 12 ≤ state.2 then none else some state

/-- The loop of `extract_one_line_from_buffer`, from the position in the buffer on: the line ends in the buffer, or what is left
of the buffer goes to the line and the next is read. `stream` is that of the buffer. -/
def extractLine (state : Bool × Nat) (wholeLine buf : Bytes) (pos : Nat) (stream : List Bytes) : Bytes × ABuffer :=
  match Scan.scan nextInLine state (buf.drop pos) with
  | .found n => (wholeLine ++ gStrndup (buf.drop pos) n, ⟨buf, pos + n + 1, stream⟩)
  | .exhausted state =>
    let wholeLine := wholeLine ++ gStrndup (buf.drop pos) (buf.length - pos)
    match stream with
    | [] => (wholeLine, ⟨[], 1, []⟩)
    | chunk :: stream => if chunk = [] then (wholeLine, ⟨[], 1, stream⟩) else extractLine state wholeLine chunk 0 stream

/-- `extract_one_line_from_buffer`: the line, and the buffer with the position behind its end. -/
def extractOneLineFromBuffer (b : ABuffer) : Bytes × ABuffer :=
  if b.size = 0 then ([], { b with pos := b.pos + 1 }) else extractLine (false, 0) [] b.buf b.pos b.stream

/-- What is still to be read. -/
def ABuffer.rest (b : ABuffer) : Bytes := b.buf.drop b.pos ++ b.stream.flatten

/-- A line takes something of what is to be read, unless nothing more can be read. -/
theorem rest_extractLine (stream : List Bytes) : ∀ (state : Bool × Nat) (wholeLine buf : Bytes) (pos : Nat),
    (extractLine state wholeLine buf pos stream).2.size = 0 ∨
      (extractLine state wholeLine buf pos stream).2.rest.length < (ABuffer.mk buf pos stream).rest.length := by
  induction stream with
  | nil =>
    intro state wholeLine buf pos
    unfold extractLine
    split
    · rename_i n hfound
      have := Scan.found_lt_length hfound
      refine Or.inr ?_
      simp only [ABuffer.rest, List.flatten_nil, List.append_nil, List.length_drop] at this ⊢
      omega
    · exact Or.inl rfl
  | cons chunk stream ih =>
    intro state wholeLine buf pos
    unfold extractLine
    split
    · rename_i n hfound
      have := Scan.found_lt_length hfound
      refine Or.inr ?_
      simp only [ABuffer.rest, List.length_append, List.length_drop] at this ⊢
      omega
    · simp only
      split
      · exact Or.inl rfl
      · refine (ih _ _ _ _).imp_right fun h => Nat.lt_of_lt_of_le h ?_
        simp only [ABuffer.rest, List.drop_zero, List.flatten_cons, List.length_append, List.length_drop]
        omega

/-- The lines that the loop of `get_file_list_from_regex_and_query` hands to `extract_from_line`, in their order. -/
def handedLines (b : ABuffer) : List Bytes :=
  if (extractOneLineFromBuffer b).2.size = 0 then []
  else (extractOneLineFromBuffer b).1 :: handedLines (extractOneLineFromBuffer b).2
termination_by b.rest.length
decreasing_by
  rename_i h
  by_cases hsize : b.size = 0
  · exact absurd (by rw [extractOneLineFromBuffer, if_pos hsize]; exact hsize) h
  · rw [extractOneLineFromBuffer, if_neg hsize] at h ⊢
    exact (rest_extractLine b.stream (false, 0) [] b.buf b.pos).resolve_left h

/-! ## Reading a line -/

/-- The fields of `query_t` that records are selected by. -/
structure Query where
  uid : CString
  gid : CString
  owner : CString
  group : CString
  date : Option CString
  afterdate : Option CString
  beforedate : Option CString

/-- What GLib does with the regular expression for the name, and with a time in the local time zone: whether it begins with a
text, and how it compares to a date. -/
structure Filters where
  gRegexMatch : CString → Bool
  hasPrefix : UInt64 → CString → Bool
  compareDate : UInt64 → CString → Int

/-- `compare_mtime_to_date`. -/
def compareMtimeToDate (filters : Filters) (mtime : UInt64) (date : Option CString) : Bool :=
  match date with
  | none => true
  | some date => filters.hasPrefix mtime date

/-- `compare_after_before_date`. -/
def compareAfterBeforeDate (filters : Filters) (mtime : UInt64) (date : Option CString) (after : Bool) : Bool :=
  match date with
  | none => false
  | some date => if 0 ≤ filters.compareDate mtime date then after else !after

/-- Whether the time of a record is one that is asked for. -/
def dateSelected (filters : Filters) (query : Query) (mtime : UInt64) : Bool :=
  compareMtimeToDate filters mtime query.date &&
    (query.afterdate.isNone || compareAfterBeforeDate filters mtime query.afterdate true) &&
    (query.beforedate.isNone || compareAfterBeforeDate filters mtime query.beforedate false)

/-- `extract_from_line`, of a line with the fields that are looked at. What it does with a line that lacks one, as that of an owner
with a comma does, is `extractFromAnyLine`: there the program fails, and what it gives else is this. -/
def extractFromLine (filters : Filters) (query : Query) (line : Bytes) : Option MetaData :=
  if 16 < line.length then
    let params := fun i => (Split.pieces 44 13 line)[i]?
    (getSubstringFromString (params 11) true).bind fun filename =>
      if filters.gRegexMatch filename then
        let metaData : MetaData := { newMetaData with
          name := some filename
          fileType := (getUintFromString (params 0)).toUInt8
          inode := getGuint64FromString (params 1)
          mode := getUintFromString (params 2)
          atime := getGuint64FromString (params 3)
          ctime := getGuint64FromString (params 4)
          mtime := getGuint64FromString (params 5) }
        if dateSelected filters query metaData.mtime then
          let metaData : MetaData := { metaData with
            size := getGuint64FromString (params 6)
            owner := getSubstringFromString (params 7) false
            group := getSubstringFromString (params 8) false
            link := getSubstringFromString (params 12) true
            uid := getUintFromString (params 9)
            gid := getUintFromString (params 10) }
          if metaData.owner = some query.owner ∧ metaData.group = some query.group ∧
              metaData.uid = getUintFromString (some query.uid.bytes) ∧
              metaData.gid = getUintFromString (some query.gid.bytes) then
            some { metaData with hashDataList := makeHashDataListFromString ((params 13).map CString.ofBytes) }
          else none
        else none
      else none
  else none

/-- `get_file_list_from_regex_and_query`: the records of the lines that are selected, the last first. -/
def getFileListFromRegexAndQuery (filters : Filters) (query : Query) (stream : List Bytes) : List MetaData :=
  (handedLines (readOneBuffer ⟨[], 0, stream⟩)).foldl (fun fileList line =>
    match extractFromLine filters query line with
    | none => fileList
    | some metaData => metaData :: fileList) []

end Sauvegarde
