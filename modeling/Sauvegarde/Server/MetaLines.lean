import Mathlib.Data.Bool.AllAny
import Sauvegarde.Server.FileMeta

/-!
# The lines of the flat file

What the scanner for line ends and the cut at the commas make of a line that `file_store_smeta` wrote, whatever is in it, and of
a file of such lines, however the reads cut it.
-/

namespace Sauvegarde

/-- Whether there is an odd number of quotes in a text. -/
def oddQuotes (text : Bytes) : Bool := text.count 34 % 2 = 1

/-- A line that ends where it was ended: behind it the scanner is outside of a string and has counted enough commas. What the fields
between the commas are is another matter. -/
def LineOk (line : Bytes) : Prop :=
  (∃ comma, 12 ≤ comma ∧ Scan.scan nextInLine (false, 0) line = .exhausted (false, comma)) ∧ ∀ c ∈ line, c ≠ 0

/-- A file that consists of such lines. -/
def WellFormedFile (file : Bytes) : Prop :=
  ∃ lines : List Bytes, (∀ line ∈ lines, LineOk line) ∧ file = lines.flatMap fun line => line ++ [10]

/-- The reads cut the file: each gives at least one byte and at most as many as the buffer holds, and together they are the
file. -/
structure IsReading (file : Bytes) (reads : List Bytes) : Prop where
  whole : reads.flatten = file
  sizes : ∀ read ∈ reads, 0 < read.length ∧ read.length ≤ FILE_BACKEND_BUFFER_SIZE

/-- A file may be read byte by byte. -/
theorem isReading_bytes (file : Bytes) : IsReading file (file.map fun c => [c]) := by
  refine ⟨by simp [← List.flatMap_def], fun read hread => ?_⟩
  obtain ⟨c, _, rfl⟩ := List.mem_map.mp hread
  exact ⟨Nat.one_pos, by simp [FILE_BACKEND_BUFFER_SIZE]⟩

/-- The records that are read from the file of a host and selected by a query, in the order in which they stand in it. -/
def readRecords (filters : Filters) (query : Query) (reads : List Bytes) : List MetaData :=
  (handedLines (readOneBuffer ⟨[], 0, reads⟩)).filterMap (extractFromLine filters query)

/-- The list is read with the last record first. -/
theorem getFileListFromRegexAndQuery_eq (filters : Filters) (query : Query) (reads : List Bytes) :
    getFileListFromRegexAndQuery filters query reads = (readRecords filters query reads).reverse := by
  unfold getFileListFromRegexAndQuery readRecords
  generalize handedLines (readOneBuffer ⟨[], 0, reads⟩) = lines
  induction lines using List.reverseRecOn with
  | nil => rfl
  | append_singleton lines line ih =>
    rw [List.foldl_append, List.foldl_cons, List.foldl_nil, ih, List.filterMap_append, List.filterMap_cons]
    rcases extractFromLine filters query line with _ | m <;> simp

namespace MetaLinesAux

/-! ## Quotes -/

theorem oddQuotes_append (a b : Bytes) : oddQuotes (a ++ b) = (oddQuotes a ^^ oddQuotes b) := by
  rw [oddQuotes, oddQuotes, oddQuotes, List.count_append]
  by_cases ha : a.count 34 % 2 = 1 <;> by_cases hb : b.count 34 % 2 = 1 <;> simp [ha, hb] <;> omega

/-- A text that is quoted has two quotes more. -/
theorem oddQuotes_quoted (text : Bytes) : oddQuotes (quoted text) = oddQuotes text := by
  have hquote : oddQuotes [34] = true := by decide
  rw [quoted, show 34 :: text ++ [34] = [34] ++ text ++ [34] from rfl, oddQuotes_append, oddQuotes_append, hquote]
  cases oddQuotes text <;> rfl

theorem oddQuotes_of_not_mem {text : Bytes} (h : (34 : UInt8) ∉ text) : oddQuotes text = false := by
  rw [oddQuotes, List.count_eq_zero.mpr h]
  rfl

/-- A text without a comma is passed over, and each quote in it is one; a line end in it is none as long as too few commas were
counted. -/
theorem scan_text {text : Bytes} (hcomma : (44 : UInt8) ∉ text) (comma : Nat) (hend : (10 : UInt8) ∉ text ∨ comma < 12) :
    ∀ inString : Bool, Scan.scan nextInLine (inString, comma) text = .exhausted (inString ^^ oddQuotes text, comma) := by
  induction text with
  | nil =>
    intro inString
    cases inString <;> rfl
  | cons c text ih =>
    intro inString
    have hc : c ≠ 44 := fun heq => hcomma (heq ▸ List.mem_cons_self)
    have hno : ¬ (c = 10 ∧ (inString ^^ decide (c = 34)) = false ∧ 12 ≤ comma) := by
      rintro ⟨rfl, _, hmany⟩
      exact hend.elim (fun hnot => hnot List.mem_cons_self) fun hfew => absurd hmany (by omega)
    have hnext : nextInLine (inString, comma) c = some (inString ^^ decide (c = 34), comma) := by
      by_cases hquote : c = 34
      · simp [nextInLine, hquote]
      · simp only [nextInLine, hquote, hc, if_false, false_and, decide_false, Bool.xor_false] at hno ⊢
        rw [if_neg hno]
    have hrest := ih (fun h => hcomma (List.mem_cons_of_mem _ h)) (hend.imp_left fun h hmem => h (List.mem_cons_of_mem _ hmem))
      (inString ^^ decide (c = 34))
    have hodd : oddQuotes (c :: text) = (decide (c = 34) ^^ oddQuotes text) := by
      rw [show c :: text = [c] ++ text from rfl, oddQuotes_append, oddQuotes]
      by_cases hquote : c = 34 <;> simp [hquote]
    rw [Scan.scan, hnext, hodd, ← Bool.xor_assoc]
    simp only [hrest, Scan.Result.shift_exhausted]

/-! ## Fields -/

/-- The state after one field more, with a comma and a blank before it: within a string the comma is not counted. -/
def afterField (state : Bool × Nat) (field : Bytes) : Bool × Nat :=
  (state.1 ^^ oddQuotes field, if state.1 then state.2 else state.2 + 1)

/-- Fields without commas are passed over. -/
theorem scan_fields {fields : List Bytes} (hcomma : ∀ field ∈ fields, (44 : UInt8) ∉ field) :
    ∀ state : Bool × Nat, (∀ field ∈ fields, (10 : UInt8) ∉ field) ∨ state.2 + fields.length < 12 →
      Scan.scan nextInLine state (fields.flatMap fun field => 44 :: (32 :: field)) = .exhausted (fields.foldl afterField state) := by
  induction fields with
  | nil => exact fun _ _ => rfl
  | cons field fields ih =>
    rintro ⟨inString, comma⟩ hend
    obtain ⟨hfield, hfields⟩ := List.forall_mem_cons.mp hcomma
    have hseparator : Scan.scan nextInLine (inString, comma) [44, 32] =
        .exhausted (inString, if inString then comma else comma + 1) := by
      cases inString <;> simp [Scan.scan, nextInLine]
    have htext := scan_text hfield (if inString then comma else comma + 1) (hend.imp
      (fun h => h field List.mem_cons_self) (fun h => by
        rw [List.length_cons] at h
        split <;> omega)) inString
    have hrest := ih hfields (afterField (inString, comma) field) (hend.imp
      (fun h f hf => h f (List.mem_cons_of_mem _ hf)) (fun h => by
        simp only [afterField, List.length_cons] at h ⊢
        split <;> omega))
    rw [List.flatMap_cons, List.foldl_cons]
    exact Scan.scan_append_exhausted (Scan.scan_append_exhausted hseparator htext) hrest

/-- A field that is the same to the scanner and the cut as any other: no comma, no line end, no zero, and quotes in pairs. -/
structure PlainField (field : Bytes) : Prop where
  comma : (44 : UInt8) ∉ field
  lineEnd : (10 : UInt8) ∉ field
  nul : (0 : UInt8) ∉ field
  quotes : oddQuotes field = false

theorem plainField_printInt (z : Int) : PlainField (Decimal.printInt z) where
  comma := Decimal.not_mem_printInt (by decide)
  lineEnd := Decimal.not_mem_printInt (by decide)
  nul := Decimal.not_mem_printInt (by decide)
  quotes := oddQuotes_of_not_mem (Decimal.not_mem_printInt (by decide))

/-- A quoted text of letters is a plain field. -/
theorem plainField_quoted {text : Bytes} (h : ∀ c ∈ text, c ≠ 0 ∧ c ≠ 34 ∧ c ≠ 44 ∧ c ≠ 10) : PlainField (quoted text) := by
  have hmem : ∀ c ∈ quoted text, c = 34 ∨ c ∈ text := by
    intro c hc
    simp only [quoted, List.cons_append, List.mem_cons, List.mem_append, List.not_mem_nil, or_false] at hc
    exact hc.elim Or.inl fun h => h.symm
  refine ⟨fun hc => ?_, fun hc => ?_, fun hc => ?_, ?_⟩
  · exact (hmem 44 hc).elim (by decide) fun hc => (h 44 hc).2.2.1 rfl
  · exact (hmem 10 hc).elim (by decide) fun hc => (h 10 hc).2.2.2 rfl
  · exact (hmem 0 hc).elim (by decide) fun hc => (h 0 hc).1 rfl
  · rw [oddQuotes_quoted]
    exact oddQuotes_of_not_mem fun hc => (h 34 hc).2.1 rfl

theorem plainField_quoted_base64 (bytes : Bytes) : PlainField (quoted (Base64.encode bytes)) :=
  plainField_quoted fun _ hc =>
    have hchar := base64_char (Base64.inAlphabet_of_mem_encode hc)
    ⟨hchar.1, hchar.2.1, hchar.2.2.1, hchar.2.2.2.1⟩

theorem plainField_quotedHash (hd : HashData) : PlainField (quotedHash hd) := by
  have hnull : PlainField (quoted (str "(null)")) := plainField_quoted (List.all_iff_forall_prop.mp (by decide))
  rcases hhash : hd.hash with _ | hash
  · rw [quotedHash, hhash]
    exact hnull
  · rw [quotedHash, hhash]
    exact plainField_quoted_base64 _

/-- Plain fields outside of a string are counted, and leave the scanner outside of it. -/
theorem foldl_afterField_outside {fields : List Bytes} (h : ∀ field ∈ fields, PlainField field) :
    ∀ comma : Nat, fields.foldl afterField (false, comma) = (false, comma + fields.length) := by
  induction fields with
  | nil => exact fun _ => rfl
  | cons field fields ih =>
    intro comma
    obtain ⟨hfield, hfields⟩ := List.forall_mem_cons.mp h
    rw [List.foldl_cons, afterField, hfield.quotes, List.length_cons]
    simp only [Bool.xor_self, Bool.false_eq_true, if_false, ih hfields (comma + 1), Prod.mk.injEq, true_and]
    omega

/-- Plain fields inside of a string leave the scanner inside of it. -/
theorem foldl_afterField_inside {fields : List Bytes} (h : ∀ field ∈ fields, PlainField field) (comma : Nat) :
    fields.foldl afterField (true, comma) = (true, comma) := by
  induction fields with
  | nil => rfl
  | cons field fields ih =>
    obtain ⟨hfield, hfields⟩ := List.forall_mem_cons.mp h
    rw [List.foldl_cons, afterField, hfield.quotes]
    exact ih hfields

/-! ## The line of a record -/

/-- The numbers between the first field of a line and the owner. -/
def beforeOwner (m : MetaData) : List Bytes :=
  [Decimal.printInt m.inode.toNat, Decimal.printInt m.mode.toInt32.toInt, Decimal.printInt m.atime.toNat,
    Decimal.printInt m.ctime.toNat, Decimal.printInt m.mtime.toNat, Decimal.printInt m.size.toNat]

/-- The fields behind the group: two numbers, the name and the link. -/
def afterGroup (m : MetaData) : List Bytes :=
  [Decimal.printInt m.uid.toInt32.toInt, Decimal.printInt m.gid.toInt32.toInt,
    quoted ((encodeToBase64 m.name).getD (CString.lit "")).bytes, quoted ((encodeToBase64 m.link).getD (CString.lit "")).bytes]

/-- The fields of a line behind the first, without the hashs. -/
def otherFields (m : MetaData) : List Bytes :=
  beforeOwner m ++ quoted (printString m.owner) :: quoted (printString m.group) :: afterGroup m

/-- The text of the hashs of a line after its first hash. -/
def hashFields (m : MetaData) : List Bytes := m.hashDataList.map quotedHash

theorem plainField_beforeOwner {m : MetaData} : ∀ field ∈ beforeOwner m, PlainField field := by
  intro field hfield
  simp only [beforeOwner, List.mem_cons, List.not_mem_nil, or_false] at hfield
  rcases hfield with rfl | rfl | rfl | rfl | rfl | rfl <;> exact plainField_printInt _

/-- A text that was encoded, or the empty one where there was none, is a base64 text. -/
theorem encodeToBase64_getD (s : Option CString) :
    ∃ bytes, ((encodeToBase64 s).getD (CString.lit "")).bytes = Base64.encode bytes := by
  rcases s with _ | s
  · exact ⟨[], rfl⟩
  · refine ⟨s.bytes, ?_⟩
    rw [encodeToBase64_some]
    rfl

theorem plainField_afterGroup {m : MetaData} : ∀ field ∈ afterGroup m, PlainField field := by
  intro field hfield
  obtain ⟨name, hname⟩ := encodeToBase64_getD m.name
  obtain ⟨link, hlink⟩ := encodeToBase64_getD m.link
  simp only [afterGroup, hname, hlink, List.mem_cons, List.not_mem_nil, or_false] at hfield
  rcases hfield with rfl | rfl | rfl | rfl
  · exact plainField_printInt _
  · exact plainField_printInt _
  · exact plainField_quoted_base64 _
  · exact plainField_quoted_base64 _

theorem plainField_hashFields {m : MetaData} : ∀ field ∈ hashFields m, PlainField field := by
  intro field hfield
  obtain ⟨hd, _, rfl⟩ := List.mem_map.mp hfield
  exact plainField_quotedHash hd

/-- Fields with a comma and a blank between two. -/
theorem intercalate_eq (first : Bytes) (others : List Bytes) :
    (str ", ").intercalate (first :: others) = first ++ others.flatMap fun field => 44 :: (32 :: field) := by
  induction others generalizing first with
  | nil => simp [List.intercalate]
  | cons field others ih =>
    have hsep : str ", " = [44, 32] := by decide
    rw [List.intercalate_cons_cons, ih, hsep, List.flatMap_cons]
    simp

/-- The text of the hashs, if there are any. -/
theorem convertHashDataListToGchar_eq_fields (m : MetaData) :
    convertHashDataListToGchar m.hashDataList = (hashFields m).head?.map fun first =>
      first ++ (hashFields m).tail.flatMap fun field => 44 :: (32 :: field) := by
  rcases h : m.hashDataList with _ | ⟨hd, list⟩
  · simp [hashFields, h, convertHashDataListToGchar, appendQuotedHashs]
  · simp [hashFields, h, convertHashDataListToGchar, appendQuotedHashs, appendQuotedHashs_some, List.flatMap_map]

/-- A line: the fields, and behind them the text of the hashs if there are any. -/
theorem smetaLine_eq (m : MetaData) :
    smetaLine m = Decimal.printInt m.fileType.toUInt32.toInt32.toInt ++
      ((otherFields m).flatMap fun field => 44 :: (32 :: field)) ++
        ((convertHashDataListToGchar m.hashDataList).map fun text => 32 :: text).elim [] fun text => 44 :: text := by
  have hfields : smetaFields m = Decimal.printInt m.fileType.toUInt32.toInt32.toInt :: otherFields m := rfl
  rw [smetaLine, hfields, List.cons_append, intercalate_eq]
  cases convertHashDataListToGchar m.hashDataList <;> simp

/-- A line is fields alone: the hashs are fields too. -/
theorem smetaLine_eq_fields (m : MetaData) :
    smetaLine m = Decimal.printInt m.fileType.toUInt32.toInt32.toInt ++
      (otherFields m ++ hashFields m).flatMap fun field => 44 :: (32 :: field) := by
  rw [smetaLine_eq, List.flatMap_append, List.append_assoc, convertHashDataListToGchar_eq_fields]
  cases hashFields m <;> simp

/-- No comma is in the owner or the group of a record. -/
structure NoComma (m : MetaData) : Prop where
  owner : (44 : UInt8) ∉ printString m.owner
  group : (44 : UInt8) ∉ printString m.group

/-- A text that is quoted has no other comma than those it had. -/
theorem comma_not_mem_quoted_text {text : Bytes} (h : (44 : UInt8) ∉ text) : (44 : UInt8) ∉ quoted text := by
  simpa [quoted] using h

variable {m : MetaData}

/-- The fields of such a record have no commas. -/
theorem NoComma.not_mem_otherFields (h : NoComma m) : ∀ field ∈ otherFields m, (44 : UInt8) ∉ field := by
  intro field hfield
  simp only [otherFields, List.mem_append, List.mem_cons] at hfield
  rcases hfield with hfield | rfl | rfl | hfield
  · exact (plainField_beforeOwner field hfield).comma
  · exact comma_not_mem_quoted_text h.owner
  · exact comma_not_mem_quoted_text h.group
  · exact (plainField_afterGroup field hfield).comma

/-- What the scanner is left with behind the line of such a record. Between two odd numbers of quotes one comma is not counted;
behind an odd number in all the scanner stays inside of a string. -/
theorem NoComma.scan_smetaLine (h : NoComma m) :
    Scan.scan nextInLine (false, 0) (smetaLine m) = .exhausted
      (if oddQuotes (printString m.owner) ^^ oddQuotes (printString m.group) then
        (true, if oddQuotes (printString m.owner) then 7 else 8)
      else (false, (if oddQuotes (printString m.owner) then 11 else 12) + m.hashDataList.length)) := by
  have hfirst : Scan.scan nextInLine (false, 0) (Decimal.printInt m.fileType.toUInt32.toInt32.toInt) = .exhausted (false, 0) := by
    have hplain := plainField_printInt m.fileType.toUInt32.toInt32.toInt
    rw [scan_text hplain.comma 0 (Or.inl hplain.lineEnd), hplain.quotes]
    rfl
  have hlast : ∀ field ∈ afterGroup m ++ hashFields m, PlainField field := fun field hfield =>
    (List.mem_append.mp hfield).elim (plainField_afterGroup field) (plainField_hashFields field)
  -- up to the group too few commas are counted for a line end, behind it there is none
  have hsplit : otherFields m ++ hashFields m =
      (beforeOwner m ++ [quoted (printString m.owner), quoted (printString m.group)]) ++ (afterGroup m ++ hashFields m) := by
    simp [otherFields]
  have hfront := @scan_fields (beforeOwner m ++ [quoted (printString m.owner), quoted (printString m.group)])
    (fun field hfield => h.not_mem_otherFields field (by
      simp only [otherFields, List.mem_append, List.mem_cons, List.not_mem_nil, or_false] at hfield ⊢
      tauto)) (false, 0) (Or.inr (by simp [beforeOwner]))
  have hback := scan_fields (fun field hfield => (hlast field hfield).comma)
    ((beforeOwner m ++ [quoted (printString m.owner), quoted (printString m.group)]).foldl afterField (false, 0))
    (Or.inl fun field hfield => (hlast field hfield).lineEnd)
  rw [smetaLine_eq_fields, hsplit, List.flatMap_append]
  refine (Scan.scan_append_exhausted hfirst (Scan.scan_append_exhausted hfront hback)).trans (congrArg _ ?_)
  have hcount : (afterGroup m ++ hashFields m).length = 4 + m.hashDataList.length := by
    rw [List.length_append, hashFields, List.length_map]
    rfl
  have hstate : (beforeOwner m ++ [quoted (printString m.owner), quoted (printString m.group)]).foldl afterField (false, 0) =
      (oddQuotes (printString m.owner) ^^ oddQuotes (printString m.group),
        if oddQuotes (printString m.owner) then 7 else 8) := by
    rw [List.foldl_append, foldl_afterField_outside plainField_beforeOwner]
    simp [afterField, oddQuotes_quoted, beforeOwner]
  rw [hstate]
  rcases oddQuotes (printString m.owner) <;> rcases oddQuotes (printString m.group)
  · rw [Bool.xor_self, foldl_afterField_outside hlast, hcount]
    simp
    omega
  · rw [Bool.false_xor, foldl_afterField_inside hlast]
    simp
  · rw [Bool.xor_false, foldl_afterField_inside hlast]
    simp
  · rw [Bool.xor_self, foldl_afterField_outside hlast, hcount]
    simp
    omega

/-- No character of a line is zero. -/
theorem ne_zero_of_mem_smetaLine : ∀ c ∈ smetaLine m, c ≠ 0 := by
  have hprint : ∀ s : Option CString, ∀ c ∈ printString s, c ≠ 0 := by
    intro s
    rcases s with _ | s
    · exact List.all_iff_forall_prop.mp (by decide)
    · exact s.nulFree
  have hquoted : ∀ s : Option CString, ∀ c ∈ quoted (printString s), c ≠ 0 := by
    intro s c hc
    simp only [quoted, List.cons_append, List.mem_cons, List.mem_append, List.not_mem_nil, or_false] at hc
    rcases hc with rfl | hc | rfl
    · decide
    · exact hprint s c hc
    · decide
  intro c hc hzero
  rw [smetaLine_eq_fields] at hc
  rcases List.mem_append.mp hc with hc | hc
  · exact (plainField_printInt _).nul (hzero ▸ hc)
  · obtain ⟨field, hfield, hc⟩ := List.mem_flatMap.mp hc
    rcases List.mem_cons.mp hc with rfl | hc
    · exact absurd hzero (by decide)
    rcases List.mem_cons.mp hc with rfl | hc
    · exact absurd hzero (by decide)
    simp only [otherFields, List.mem_append, List.mem_cons] at hfield
    rcases hfield with (hfield | rfl | rfl | hfield) | hfield
    · exact (plainField_beforeOwner field hfield).nul (hzero ▸ hc)
    · exact hquoted _ c hc hzero
    · exact hquoted _ c hc hzero
    · exact (plainField_afterGroup field hfield).nul (hzero ▸ hc)
    · exact (plainField_hashFields field hfield).nul (hzero ▸ hc)

/-- The pieces of the line of a record without commas: the fields, each after a blank but the first, and the text of the hashs
if there are any. -/
theorem NoComma.pieces_eq (h : NoComma m) :
    Split.pieces 44 13 (smetaLine m) =
      Decimal.printInt m.fileType.toUInt32.toInt32.toInt :: ((otherFields m).map fun field => 32 :: field) ++
        ((convertHashDataListToGchar m.hashDataList).map fun text => 32 :: text).toList := by
  have hothers : ∀ piece ∈ (otherFields m).map fun field => 32 :: field, (44 : UInt8) ∉ piece := by
    intro piece hpiece
    obtain ⟨field, hfield, rfl⟩ := List.mem_map.mp hpiece
    rw [List.mem_cons, not_or]
    exact ⟨by decide, h.not_mem_otherFields field hfield⟩
  have hpieces := Split.pieces_flatMap (plainField_printInt m.fileType.toUInt32.toInt32.toInt).comma _ hothers
    ((convertHashDataListToGchar m.hashDataList).map fun text => 32 :: text)
  rw [List.flatMap_map] at hpieces
  rw [smetaLine_eq]
  exact hpieces

/-- A line is long enough to be looked at. -/
theorem length_smetaLine (m : MetaData) : 16 < (smetaLine m).length := by
  rw [smetaLine_eq]
  simp only [otherFields, beforeOwner, afterGroup, List.cons_append, List.nil_append, List.flatMap_cons, List.length_append,
    List.length_cons]
  omega

/-! ## Reading lines -/

/-- A buffer that was read into: it is not empty, and neither are the reads to come. -/
structure Readable (b : ABuffer) : Prop where
  size : b.size ≠ 0
  stream : ∀ chunk ∈ b.stream, chunk ≠ []

/-- A line that ends in the buffer is extracted from it. -/
theorem extractLine_of_found {state : Bool × Nat} {wholeLine buf : Bytes} {pos n : Nat} {stream : List Bytes}
    (hstream : ∀ chunk ∈ stream, chunk ≠ []) (hzero : ∀ c ∈ buf.drop pos, c ≠ 0)
    (hfound : Scan.scan nextInLine state (buf.drop pos) = .found n) :
    (extractLine state wholeLine buf pos stream).1 = wholeLine ++ (buf.drop pos).take n ∧
      (extractLine state wholeLine buf pos stream).2.rest = (buf.drop pos).drop (n + 1) ++ stream.flatten ∧
      Readable (extractLine state wholeLine buf pos stream).2 := by
  have hlt := Scan.found_lt_length hfound
  rw [List.length_drop] at hlt
  rw [extractLine, hfound, List.drop_drop, ← Nat.add_assoc]
  simp only
  rw [gStrndup_eq fun c hc => hzero c (List.mem_of_mem_take hc)]
  refine ⟨rfl, rfl, ⟨?_, hstream⟩⟩
  show buf.length ≠ 0
  omega

/-- A line that ends in what is to be read is extracted, however that is cut into reads. -/
theorem extractLine_found (stream : List Bytes) : ∀ (state : Bool × Nat) (wholeLine buf : Bytes) (pos n : Nat),
    (∀ chunk ∈ stream, chunk ≠ []) → (∀ c ∈ (ABuffer.mk buf pos stream).rest, c ≠ 0) →
      Scan.scan nextInLine state (ABuffer.mk buf pos stream).rest = .found n →
      (extractLine state wholeLine buf pos stream).1 = wholeLine ++ (ABuffer.mk buf pos stream).rest.take n ∧
        (extractLine state wholeLine buf pos stream).2.rest = (ABuffer.mk buf pos stream).rest.drop (n + 1) ∧
        Readable (extractLine state wholeLine buf pos stream).2 := by
  induction stream with
  | nil =>
    intro state wholeLine buf pos n hstream hzero hscan
    have hrest : (ABuffer.mk buf pos []).rest = buf.drop pos := List.append_nil _
    rw [hrest] at hzero hscan ⊢
    have hline := @extractLine_of_found state wholeLine buf pos n [] hstream hzero hscan
    rwa [List.flatten_nil, List.append_nil] at hline
  | cons chunk stream ih =>
    intro state wholeLine buf pos n hstream hzero hscan
    rcases hfirst : Scan.scan nextInLine state (buf.drop pos) with k | state'
    · -- the line ends in the buffer
      have hk := Scan.scan_append_of_found hfirst (chunk :: stream).flatten
      have hlt := Scan.found_lt_length hfirst
      rw [ABuffer.rest, hk, Scan.Result.found.injEq] at hscan
      subst hscan
      have hrest : (ABuffer.mk buf pos (chunk :: stream)).rest = buf.drop pos ++ (chunk :: stream).flatten := rfl
      rw [hrest, List.take_append_of_le_length hlt.le, List.drop_append_of_le_length hlt]
      exact extractLine_of_found hstream (fun c hc => hzero c (List.mem_append_left _ hc)) hfirst
    · -- the next read goes on in the state that the buffer left
      have hmore := Scan.scan_append hfirst (chunk :: stream).flatten
      rw [ABuffer.rest, hmore] at hscan
      rcases hnext : Scan.scan nextInLine state' (chunk :: stream).flatten with k | state''
      · rw [hnext, Scan.Result.shift_found, Scan.Result.found.injEq] at hscan
        have hchunk : chunk ≠ [] := hstream chunk List.mem_cons_self
        have hrest : (ABuffer.mk chunk 0 stream).rest = (chunk :: stream).flatten := rfl
        obtain ⟨hline, hleft, hreadable⟩ := ih state' (wholeLine ++ gStrndup (buf.drop pos) (buf.length - pos)) chunk 0 k
          (fun c hc => hstream c (List.mem_cons_of_mem _ hc))
          (fun c hc => hzero c (List.mem_append_right _ (hrest ▸ hc))) (hrest ▸ hnext)
        have hcopy : gStrndup (buf.drop pos) (buf.length - pos) = buf.drop pos := by
          rw [gStrndup_eq fun c hc => hzero c (List.mem_append_left _ (List.mem_of_mem_take hc)),
            List.take_of_length_le (le_of_eq List.length_drop)]
        rw [extractLine, hfirst]
        simp only [if_neg hchunk]
        refine ⟨?_, ?_, hreadable⟩
        · rw [hline, hrest, hcopy, ABuffer.rest, ← hscan, List.append_assoc, Nat.add_comm, List.take_length_add_append]
        · rw [hleft, hrest, ABuffer.rest, ← hscan,
            show k + (buf.drop pos).length + 1 = (buf.drop pos).length + (k + 1) by omega, List.drop_length_add_append]
      · rw [hnext] at hscan
        simp at hscan

/-- When there is no end of a line in what is to be read, no line is extracted. -/
theorem extractLine_exhausted (stream : List Bytes) : ∀ (state state' : Bool × Nat) (wholeLine buf : Bytes) (pos : Nat),
    Scan.scan nextInLine state (ABuffer.mk buf pos stream).rest = .exhausted state' →
      (extractLine state wholeLine buf pos stream).2.size = 0 := by
  induction stream with
  | nil =>
    intro state state' wholeLine buf pos hscan
    simp only [ABuffer.rest, List.flatten_nil, List.append_nil] at hscan
    rw [extractLine, hscan]
    rfl
  | cons chunk stream ih =>
    intro state state' wholeLine buf pos hscan
    rcases hfirst : Scan.scan nextInLine state (buf.drop pos) with k | state''
    · rw [ABuffer.rest, Scan.scan_append_of_found hfirst] at hscan
      exact absurd hscan (by simp)
    · rw [ABuffer.rest, Scan.scan_append hfirst] at hscan
      rw [extractLine, hfirst]
      simp only
      split
      · rfl
      · rcases hnext : Scan.scan nextInLine state'' (chunk :: stream).flatten with k | last
        · rw [hnext] at hscan
          simp at hscan
        · exact ih state'' last _ chunk 0 hnext

/-- The lines handed over are the lines of the file; what stands behind them, and has no end, is not. -/
theorem handedLines_eq {tail : Bytes} {state : Bool × Nat} (htail : Scan.scan nextInLine (false, 0) tail = .exhausted state)
    (hclear : ∀ c ∈ tail, c ≠ 0) {lines : List Bytes} (hlines : ∀ line ∈ lines, LineOk line) :
    ∀ {b : ABuffer}, Readable b → b.rest = (lines.flatMap fun line => line ++ [10]) ++ tail → handedLines b = lines := by
  induction lines with
  | nil =>
    intro b hb hrest
    rw [handedLines, if_pos]
    rw [extractOneLineFromBuffer, if_neg hb.size]
    exact extractLine_exhausted b.stream (false, 0) state [] b.buf b.pos ((congrArg _ hrest).trans htail)
  | cons line lines ih =>
    intro b hb hrest
    obtain ⟨⟨comma, hcomma, hscan⟩, hzero⟩ := hlines line List.mem_cons_self
    have hmore : ∀ l ∈ lines, ∀ c ∈ l, c ≠ 0 := fun l hl => (hlines l (List.mem_cons_of_mem _ hl)).2
    rw [List.flatMap_cons, List.append_assoc, List.append_assoc] at hrest
    have hend : Scan.scan nextInLine (false, comma) ([10] ++ ((lines.flatMap fun line => line ++ [10]) ++ tail)) = .found 0 := by
      simp [Scan.scan, nextInLine, hcomma]
    have hfound : Scan.scan nextInLine (false, 0) b.rest = .found line.length := by
      rw [hrest, Scan.scan_append hscan, hend, Scan.Result.shift_found, Nat.zero_add]
    have hnonzero : ∀ c ∈ b.rest, c ≠ 0 := by
      intro c hc
      simp only [hrest, List.mem_append, List.mem_singleton, List.mem_flatMap] at hc
      rcases hc with hc | rfl | ⟨l, hl, hc | rfl⟩ | hc
      · exact hzero c hc
      · decide
      · exact hmore l hl c hc
      · decide
      · exact hclear c hc
    obtain ⟨hline, hleft, hreadable⟩ := extractLine_found b.stream (false, 0) [] b.buf b.pos _ hb.stream hnonzero hfound
    have hnext : b.rest.drop (line.length + 1) = (lines.flatMap fun line => line ++ [10]) ++ tail := by
      rw [hrest, List.drop_length_add_append]
      rfl
    rw [handedLines, extractOneLineFromBuffer, if_neg hb.size, if_neg hreadable.size, hline, List.nil_append,
      ih (fun l hl => hlines l (List.mem_cons_of_mem _ hl)) hreadable (hleft.trans hnext)]
    congr 1
    show b.rest.take line.length = line
    rw [hrest, List.take_left']
    rfl

/-- The same of a file that is read from its beginning. -/
theorem handedLines_reading_append {tail : Bytes} {state : Bool × Nat}
    (htail : Scan.scan nextInLine (false, 0) tail = .exhausted state) (hclear : ∀ c ∈ tail, c ≠ 0) {lines : List Bytes}
    (hlines : ∀ line ∈ lines, LineOk line) {reads : List Bytes}
    (hreads : IsReading ((lines.flatMap fun line => line ++ [10]) ++ tail) reads) :
    handedLines (readOneBuffer ⟨[], 0, reads⟩) = lines := by
  have hwhole := hreads.whole
  rcases reads with _ | ⟨read, reads⟩
  · -- an empty file has no line
    rcases lines with _ | ⟨line, lines⟩
    · rw [handedLines]
      rfl
    · simp at hwhole
  · have hsize := (hreads.sizes read List.mem_cons_self).1
    refine handedLines_eq htail hclear hlines ⟨Nat.ne_of_gt hsize, fun chunk hchunk => ?_⟩ hwhole
    exact List.ne_nil_of_length_pos (hreads.sizes chunk (List.mem_cons_of_mem _ hchunk)).1

/-- The lines of a file that consists of lines are handed over. -/
theorem handedLines_reading {lines : List Bytes} (hlines : ∀ line ∈ lines, LineOk line) {reads : List Bytes}
    (hreads : IsReading (lines.flatMap fun line => line ++ [10]) reads) : handedLines (readOneBuffer ⟨[], 0, reads⟩) = lines := by
  refine handedLines_reading_append (show Scan.scan nextInLine (false, 0) [] = .exhausted (false, 0) from rfl)
    (fun c hc => absurd hc List.not_mem_nil) hlines ?_
  rwa [List.append_nil]

end MetaLinesAux

end Sauvegarde
