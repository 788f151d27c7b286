import Mathlib.Data.Bool.AllAny
import Sauvegarde.Server.MetaLines

/-!
# The flat file comes back

What was written to the file of a host, a line for each record, is read back line by line and record by record, however the
reads cut the file.
-/

namespace Sauvegarde

/-- A string that may stand in a line as it is: no quote, no comma and no line end. -/
def PlainString (s : CString) : Prop := ∀ c ∈ s.bytes, c ≠ 34 ∧ c ≠ 44 ∧ c ≠ 10

/-- A record that may be stored: a plain owner and group, a name and a link, and hashs of the right length. -/
structure Storable (m : MetaData) : Prop where
  owner : ∃ s, m.owner = some s ∧ PlainString s
  group : ∃ s, m.group = some s ∧ PlainString s
  name : ∃ s, m.name = some s
  link : ∃ s, m.link = some s
  hashs : AllHashed m.hashDataList

namespace FlatFileAux

open MetaLinesAux

/-! ## The line of a record -/

/-- The fields after the first of a record with these strings. -/
def fieldsAfterFirst (m : MetaData) (owner group name link : CString) : List Bytes :=
  [Decimal.printInt m.inode.toNat, Decimal.printInt m.mode.toInt32.toInt, Decimal.printInt m.atime.toNat,
    Decimal.printInt m.ctime.toNat, Decimal.printInt m.mtime.toNat, Decimal.printInt m.size.toNat, quoted owner.bytes,
    quoted group.bytes, Decimal.printInt m.uid.toInt32.toInt, Decimal.printInt m.gid.toInt32.toInt,
    quoted (Base64.encode name.bytes), quoted (Base64.encode link.bytes)]

/-- The values a record that may be stored has. -/
structure Values (m : MetaData) (owner group name link : CString) (hs : List Hash) : Prop where
  hasOwner : m.owner = some owner
  ownerPlain : PlainString owner
  hasGroup : m.group = some group
  groupPlain : PlainString group
  hasName : m.name = some name
  hasLink : m.link = some link
  hashs : HashsAre m.hashDataList hs

/-- A record that may be stored has values. -/
theorem Storable.values {m : MetaData} (h : Storable m) : ∃ owner group name link hs, Values m owner group name link hs := by
  obtain ⟨⟨owner, howner, hownerPlain⟩, ⟨group, hgroup, hgroupPlain⟩, ⟨name, hname⟩, ⟨link, hlink⟩, hall⟩ := h
  obtain ⟨hs, hhs⟩ := hall.exists_hashs
  exact ⟨owner, group, name, link, hs, howner, hownerPlain, hgroup, hgroupPlain, hname, hlink, hhs⟩

variable {m : MetaData} {owner group name link : CString} {hs : List Hash}

/-- A record that has values may be stored. -/
theorem Values.storable (h : Values m owner group name link hs) : Storable m where
  owner := ⟨owner, h.hasOwner, h.ownerPlain⟩
  group := ⟨group, h.hasGroup, h.groupPlain⟩
  name := ⟨name, h.hasName⟩
  link := ⟨link, h.hasLink⟩
  hashs := h.hashs.allHashed

/-- The fields of a line in terms of the values. -/
theorem Values.otherFields_eq (h : Values m owner group name link hs) : otherFields m = fieldsAfterFirst m owner group name link := by
  simp only [otherFields, beforeOwner, afterGroup, h.hasOwner, h.hasGroup, h.hasName, h.hasLink, encodeToBase64_some, Option.getD_some,
    printString, base64Text, fieldsAfterFirst, List.cons_append, List.nil_append]

/-- A plain owner and group hold no comma. -/
theorem Values.noComma (h : Values m owner group name link hs) : NoComma m := by
  refine ⟨fun hmem => ?_, fun hmem => ?_⟩
  · rw [h.hasOwner] at hmem
    exact (h.ownerPlain 44 hmem).2.1 rfl
  · rw [h.hasGroup] at hmem
    exact (h.groupPlain 44 hmem).2.1 rfl

/-- A line is passed over, with at least 12 commas, and no character of it is zero. -/
theorem Storable.line {m : MetaData} (h : Storable m) : LineOk (smetaLine m) := by
  obtain ⟨owner, group, name, link, hs, hvalues⟩ := Storable.values h
  have howner : oddQuotes (printString m.owner) = false := by
    rw [hvalues.hasOwner]
    exact oddQuotes_of_not_mem fun hmem => (hvalues.ownerPlain 34 hmem).1 rfl
  have hgroup : oddQuotes (printString m.group) = false := by
    rw [hvalues.hasGroup]
    exact oddQuotes_of_not_mem fun hmem => (hvalues.groupPlain 34 hmem).1 rfl
  have hscan := hvalues.noComma.scan_smetaLine
  rw [howner, hgroup] at hscan
  exact ⟨⟨12 + m.hashDataList.length, Nat.le_add_right 12 _, hscan⟩, ne_zero_of_mem_smetaLine⟩

/-! ## Reading a line -/

/-- The pieces of a line: the fields, each after a blank but the first, and the text of the hashs if there are any. -/
theorem Values.pieces_eq (h : Values m owner group name link hs) :
    Split.pieces 44 13 (smetaLine m) =
      Decimal.printInt m.fileType.toUInt32.toInt32.toInt ::
        ((fieldsAfterFirst m owner group name link).map fun field => 32 :: field) ++
          ((hashsText hs).map fun text => 32 :: text).toList := by
  rw [h.noComma.pieces_eq, h.otherFields_eq, convertHashDataListToGchar_eq h.hashs]

/-- The record that is read from a line. -/
def readBack (m : MetaData) (hs : List Hash) : MetaData :=
  { newMetaData with
    inode := m.inode, fileType := m.fileType, mode := m.mode, atime := m.atime, ctime := m.ctime, mtime := m.mtime
    size := m.size, owner := m.owner, group := m.group, uid := m.uid, gid := m.gid, name := m.name, link := m.link
    hashDataList := hs.map fun g => newHashDataAsIs none 0 (some g.bytes) COMPRESS_NONE_TYPE 0 }

/-- The hashs are read back from the last piece, or from its absence. -/
theorem makeHashDataListFromString_last (hs : List Hash) :
    makeHashDataListFromString ((((hashsText hs).map fun text => 32 :: text).map CString.ofBytes)) =
      hs.map fun g => newHashDataAsIs none 0 (some g.bytes) COMPRESS_NONE_TYPE 0 := by
  rcases hs with _ | ⟨g, hs⟩
  · rfl
  · have hzero : ∀ c ∈ 32 :: (quoted (Base64.encode g.bytes) ++ moreHashs hs), c ≠ 0 := by
      intro c hc
      rcases List.mem_cons.mp hc with rfl | hc
      · decide
      exact ne_zero_of_mem_hashs hc
    refine makeHashDataListFromString_eq isSpace_space g hs ?_
    rw [CString.bytes_ofBytes hzero]
    rfl

end FlatFileAux

/-- What a query asks for: a name the expression matches, a time, an owner and a group, by name and by number. -/
structure Selected (filters : Filters) (query : Query) (m : MetaData) : Prop where
  name : ∀ s, m.name = some s → filters.gRegexMatch s = true
  date : dateSelected filters query m.mtime = true
  owner : m.owner = some query.owner
  group : m.group = some query.group
  uid : m.uid = getUintFromString (some query.uid.bytes)
  gid : m.gid = getUintFromString (some query.gid.bytes)

namespace FlatFileAux

open MetaLinesAux

open Classical in
/-- A line gives back its record when that is selected. -/
theorem Values.extractFromLine_eq (h : Values m owner group name link hs) (filters : Filters) (query : Query) :
    extractFromLine filters query (smetaLine m) = if Selected filters query m then some (readBack m hs) else none := by
  have huint : ∀ n : UInt32, getUintFromString (some (32 :: Decimal.printInt n.toInt32.toInt)) = n := fun n =>
    getUintFromString_printInt n Decimal.isBlank_space
  have hulong : ∀ n : UInt64, getGuint64FromString (some (32 :: Decimal.printInt n.toNat)) = n := fun n =>
    getGuint64FromString_print n Decimal.isBlank_space
  have hfirst : getUintFromString (some (Decimal.printInt m.fileType.toUInt32.toInt32.toInt)) = m.fileType.toUInt32 :=
    getUintFromString_printInt _ (show ∀ c ∈ ([] : Bytes), Decimal.isBlank c = true by simp)
  have hplain : ∀ s : CString, getSubstringFromString (some (32 :: quoted s.bytes)) false = some s := fun s => by
    rw [show 32 :: quoted s.bytes = 32 :: 34 :: (s.bytes ++ [34]) from rfl, getSubstringFromString_quoted s.nulFree]
    simp
  have hdecoded : ∀ s : CString, getSubstringFromString (some (32 :: quoted (Base64.encode s.bytes))) true = some s :=
    fun s => by
      rw [show 32 :: quoted (Base64.encode s.bytes) = 32 :: 34 :: (Base64.encode s.bytes ++ [34]) from rfl,
        getSubstringFromString_quoted fun c hc => (base64_char (Base64.inAlphabet_of_mem_encode hc)).1]
      simp [Base64.decode_encode]
  have hlast : (((hashsText hs).map fun text => 32 :: text).toList)[0]? = (hashsText hs).map fun text => 32 :: text := by
    cases hashsText hs <;> rfl
  simp only [extractFromLine, if_pos (length_smetaLine m), h.pieces_eq, fieldsAfterFirst, List.map_cons, List.map_nil,
    List.cons_append, List.nil_append, List.getElem?_cons_zero, List.getElem?_cons_succ, hlast,
    makeHashDataListFromString_last, huint, hulong, hfirst, hplain, hdecoded, Option.bind_some,
    UInt8.toUInt8_toUInt32, Option.some.injEq]
  by_cases hselected : Selected filters query m
  · have howner : owner = query.owner := Option.some.inj (h.hasOwner.symm.trans hselected.owner)
    have hgroup : group = query.group := Option.some.inj (h.hasGroup.symm.trans hselected.group)
    rw [if_pos hselected, if_pos (hselected.name name h.hasName), if_pos hselected.date,
      if_pos ⟨howner, hgroup, hselected.uid, hselected.gid⟩, readBack, h.hasOwner, h.hasGroup, h.hasName, h.hasLink]
  · rw [if_neg hselected]
    split_ifs with hname hdate hids
    · obtain ⟨howner, hgroup, huid, hgid⟩ := hids
      refine absurd ⟨fun s hs => ?_, hdate, h.hasOwner.trans (congrArg some howner),
        h.hasGroup.trans (congrArg some hgroup), huid, hgid⟩ hselected
      rwa [← Option.some.inj (h.hasName.symm.trans hs)]
    · rfl
    · rfl
    · rfl

/-- The file after records were stored in it. -/
theorem foldl_fileStoreSmeta (smetas : List ServerMetaData) (lines : List Bytes) : ∀ file : Bytes,
    (∀ smeta ∈ smetas, smeta.hostname ≠ none) →
      (smetas.map fun smeta => smeta.metaData.map smetaLine) = lines.map some →
      smetas.foldl fileStoreSmeta file = file ++ lines.flatMap fun line => line ++ [10] := by
  induction smetas generalizing lines with
  | nil =>
    intro file _ hlines
    have hnil : lines = [] := by simpa using hlines
    simp [hnil]
  | cons smeta smetas ih =>
    intro file hhost hlines
    rcases lines with _ | ⟨line, lines⟩
    · simp at hlines
    simp only [List.map_cons, List.cons.injEq] at hlines
    obtain ⟨m, hm, rfl⟩ := Option.map_eq_some_iff.mp hlines.1
    obtain ⟨host, hsome⟩ := Option.ne_none_iff_exists'.mp (hhost smeta List.mem_cons_self)
    have hfile : fileStoreSmeta file smeta = file ++ smetaLine m ++ [10] := by
      simp only [fileStoreSmeta, hsome, hm]
    rw [List.foldl_cons, hfile, ih lines _ (fun s hs => hhost s (List.mem_cons_of_mem _ hs)) hlines.2, List.flatMap_cons]
    simp

/-- The lines handed over of a file that records were stored in, each of which keeps to its line: one for each record, in their
order. -/
theorem handedLines_stored {smetas : List ServerMetaData}
    (hstored : ∀ smeta ∈ smetas, smeta.hostname ≠ none ∧ ∃ m, smeta.metaData = some m ∧ LineOk (smetaLine m)) {reads : List Bytes}
    (hreads : IsReading (smetas.foldl fileStoreSmeta []) reads) :
    (handedLines (readOneBuffer ⟨[], 0, reads⟩)).map some = smetas.map fun smeta => smeta.metaData.map smetaLine := by
  obtain ⟨lines, hlines, hgood⟩ : ∃ lines : List Bytes,
      (smetas.map fun smeta => smeta.metaData.map smetaLine) = lines.map some ∧ ∀ line ∈ lines, LineOk line := by
    refine ⟨smetas.map fun smeta => (smeta.metaData.map smetaLine).getD [], ?_, fun line hline => ?_⟩
    · rw [List.map_map]
      refine List.map_congr_left fun smeta hsmeta => ?_
      obtain ⟨_, m, hm, _⟩ := hstored smeta hsmeta
      rw [Function.comp_apply, hm, Option.map_some, Option.getD_some]
    · obtain ⟨smeta, hsmeta, rfl⟩ := List.mem_map.mp hline
      obtain ⟨_, m, hm, hok⟩ := hstored smeta hsmeta
      rwa [hm, Option.map_some, Option.getD_some]
  have hfile := foldl_fileStoreSmeta smetas lines [] (fun smeta hsmeta => (hstored smeta hsmeta).1) hlines
  rw [hlines]
  rw [hfile, List.nil_append] at hreads
  exact congrArg _ (MetaLinesAux.handedLines_reading hgood hreads)

end FlatFileAux

open FlatFileAux

/-- However the reads cut a file that records were stored in: the lines handed over are those of the records, one for each and
in their order, and each line gives back the record it was written for when that is selected, and nothing when it is not. -/
theorem flatFile_comesBack {smetas : List ServerMetaData}
    (hstored : ∀ smeta ∈ smetas, smeta.hostname ≠ none ∧ ∃ m, smeta.metaData = some m ∧ Storable m) {reads : List Bytes}
    (hreads : IsReading (smetas.foldl fileStoreSmeta []) reads) :
    ((handedLines (readOneBuffer ⟨[], 0, reads⟩)).map some = smetas.map fun smeta => smeta.metaData.map smetaLine) ∧
    ∀ smeta ∈ smetas, ∀ m ∈ smeta.metaData, ∀ filters query,
      (Selected filters query m → ∃ m', extractFromLine filters query (smetaLine m) = some m' ∧ m.Same m') ∧
      (¬ Selected filters query m → extractFromLine filters query (smetaLine m) = none) := by
  constructor
  · refine handedLines_stored (fun smeta hsmeta => ?_) hreads
    obtain ⟨hhost, m, hm, hstorable⟩ := hstored smeta hsmeta
    exact ⟨hhost, m, hm, Storable.line hstorable⟩
  · intro smeta hsmeta m hm filters query
    obtain ⟨_, m', hm', hstorable⟩ := hstored smeta hsmeta
    obtain rfl : m = m' := Option.some.inj (hm.symm.trans hm')
    obtain ⟨owner, group, name, link, hs, hvalues⟩ := Storable.values hstorable
    rw [hvalues.extractFromLine_eq]
    refine ⟨fun hselected => ⟨readBack m hs, if_pos hselected, ?_⟩, fun hselected => if_neg hselected⟩
    exact {
      fileType := rfl, mode := rfl, atime := rfl, ctime := rfl, mtime := rfl, size := rfl, inode := rfl, owner := rfl
      group := rfl, uid := rfl, gid := rfl, name := rfl, link := rfl
      hashs := by
        rw [show m.hashDataList.map HashData.hash = _ from hvalues.hashs, readBack, List.map_map]
        rfl }

/-- A record whose name holds quotes, a comma and a line end, with two hashs. -/
def oddRecord : MetaData :=
  { newMetaData with
    mode := 4294967295
    owner := some (CString.lit "root")
    group := some (CString.lit "root")
    uid := 0
    gid := 0
    name := some (CString.lit "/tmp/\"a\",\nb")
    link := some (CString.lit "")
    hashDataList := List.replicate 2 (newHashDataAsIs none 0 (some (List.replicate 32 7)) COMPRESS_NONE_TYPE 0) }

/-- It may be stored. -/
theorem storable_oddRecord : Storable oddRecord where
  owner := ⟨_, rfl, List.all_iff_forall_prop.mp (by decide)⟩
  group := ⟨_, rfl, List.all_iff_forall_prop.mp (by decide)⟩
  name := ⟨_, rfl⟩
  link := ⟨_, rfl⟩
  hashs := fun hd hhd => ⟨⟨List.replicate 32 7, rfl⟩, by
    rw [(List.mem_replicate.mp hhd).2]
    rfl⟩

/-- What the client of root asks for, whatever the name and the time. -/
def rootQuery : Query := ⟨CString.lit "0", CString.lit "0", CString.lit "root", CString.lit "root", none, none, none⟩

/-- Filters that every name and time passes. -/
def passFilters : Filters := ⟨fun _ => true, fun _ _ => true, fun _ _ => 0⟩

/-- A record with hashs and one without, read byte by byte, are handed over as two lines, and the first comes back. -/
theorem oddRecord_comesBack :
    let smetas : List ServerMetaData := [⟨some (CString.lit "host"), true, some oddRecord⟩,
      ⟨some (CString.lit "host"), false, some { oddRecord with hashDataList := [] }⟩]
    (handedLines (readOneBuffer ⟨[], 0, (smetas.foldl fileStoreSmeta []).map fun c => [c]⟩)).map some =
      [some (smetaLine oddRecord), some (smetaLine { oddRecord with hashDataList := [] })] ∧
    ∃ m', extractFromLine passFilters rootQuery (smetaLine oddRecord) = some m' ∧ oddRecord.Same m' := by
  intro smetas
  have hstored : ∀ smeta ∈ smetas, smeta.hostname ≠ none ∧ ∃ m, smeta.metaData = some m ∧ Storable m := by
    intro smeta hsmeta
    rcases List.mem_cons.mp hsmeta with rfl | hsmeta
    · exact ⟨by simp, _, rfl, storable_oddRecord⟩
    · rw [List.mem_singleton.mp hsmeta]
      exact ⟨by simp, _, rfl, { storable_oddRecord with hashs := fun hd hhd => absurd hhd List.not_mem_nil }⟩
  obtain ⟨hlines, hback⟩ := flatFile_comesBack hstored (isReading_bytes _)
  refine ⟨hlines, (hback _ List.mem_cons_self oddRecord rfl passFilters rootQuery).1 ?_⟩
  exact ⟨fun _ _ => rfl, rfl, rfl, rfl, by decide, by decide⟩

end Sauvegarde
