import Sauvegarde.Server.MetaLines

/-!
# One request, one record

What a record that is appended to the file of a host does to what is read from it. The name, the link and the hashs are encoded;
the owner and the group stand in the line as they are.
-/

namespace Sauvegarde

/-- A line is read as a record with the owner and the group of this one. -/
def CarriesOwner (line : Bytes) (m : MetaData) : Prop :=
  (∃ filters query, (extractFromLine filters query line).isSome = true) ∧
    ∀ filters query m', extractFromLine filters query line = some m' → m'.owner = m.owner ∧ m'.group = m.group

/-- After the request the file is well-formed, and reading it gives what was read before and one record more, for every query.
The list that is read has the last record first. -/
structure AddsOneRecord (file : Bytes) (before after : List Bytes) (m : MetaData) : Prop where
  wellFormed : WellFormedFile file
  record : ∃ line, CarriesOwner line m ∧ ∀ filters query, getFileListFromRegexAndQuery filters query after =
    (extractFromLine filters query line).toList ++ getFileListFromRegexAndQuery filters query before

/-- An owner and a group that keep a line together: both are there, without commas, and with an even number of quotes each, or an
odd number each when there are hashs behind them. -/
def OwnerKeepsLine (m : MetaData) : Prop :=
  ∃ owner group, m.owner = some owner ∧ m.group = some group ∧ (44 : UInt8) ∉ owner.bytes ∧ (44 : UInt8) ∉ group.bytes ∧
    oddQuotes owner.bytes = oddQuotes group.bytes ∧ (oddQuotes owner.bytes = true → m.hashDataList ≠ [])

namespace OneRecordAux

open MetaLinesAux

/-- The pieces before the last have no separator in them. -/
theorem not_mem_of_pieces {sep : UInt8} (n : Nat) : ∀ {text piece : Bytes} {i : Nat}, i < n →
    (Split.pieces sep n text)[i]? = some piece → sep ∉ piece := by
  induction n with
  | zero => exact fun h => absurd h (Nat.not_lt_zero _)
  | succ n ih =>
    intro text piece i hi hpiece hmem
    have hfirst : ∀ c ∈ text.takeWhile (· ≠ sep), c ≠ sep := fun c hc => by simpa using List.mem_takeWhile_imp hc
    unfold Split.pieces at hpiece
    split at hpiece
    · rename_i hnone
      rcases i with _ | i
      · rw [List.getElem?_cons_zero, Option.some.injEq] at hpiece
        rw [← hpiece, ← List.takeWhile_append_dropWhile (p := (· ≠ sep)) (l := text), hnone, List.append_nil] at hmem
        exact hfirst sep hmem rfl
      · simp at hpiece
    · rcases i with _ | i
      · rw [List.getElem?_cons_zero, Option.some.injEq] at hpiece
        exact hfirst sep (hpiece ▸ hmem) rfl
      · rw [List.getElem?_cons_succ] at hpiece
        exact ih (Nat.lt_of_succ_lt_succ hi) hpiece hmem

/-- What is taken out of a piece is a part of it. -/
theorem mem_of_mem_getSubstringFromString {piece : Bytes} {s : CString} {c : UInt8}
    (h : getSubstringFromString (some piece) false = some s) (hc : c ∈ s.bytes) : c ∈ piece := by
  simp only [getSubstringFromString, Option.map_some, Bool.false_eq_true, if_false, Option.some.injEq] at h
  rw [← h] at hc
  exact List.mem_of_mem_drop (List.mem_of_mem_take ((List.takeWhile_sublist _).subset ((List.takeWhile_sublist _).subset hc)))

/-- A line that is read as a record: the record has the owner and the group that stand in it, which are those asked for. -/
theorem extractFromLine_some {filters : Filters} {query : Query} {line : Bytes} {m : MetaData}
    (h : extractFromLine filters query line = some m) :
    m.owner = some query.owner ∧ getSubstringFromString ((Split.pieces 44 13 line)[7]?) false = some query.owner ∧
      m.group = some query.group ∧ getSubstringFromString ((Split.pieces 44 13 line)[8]?) false = some query.group := by
  rw [extractFromLine] at h
  by_cases hlength : 16 < line.length
  · rw [if_pos hlength] at h
    obtain ⟨filename, _, h⟩ := Option.bind_eq_some_iff.mp h
    simp only at h
    split_ifs at h with _ _ hids
    obtain ⟨howner, hgroup, _⟩ := hids
    rw [← Option.some.inj h]
    exact ⟨howner, howner, hgroup, hgroup⟩
  · rw [if_neg hlength] at h
    exact absurd h.symm (Option.some_ne_none _)

/-- There are no commas in the owner and the group that stand in a line. -/
theorem not_mem_of_getSubstringFromString {line : Bytes} {i : Nat} (hi : i < 13) {s : CString}
    (hs : getSubstringFromString ((Split.pieces 44 13 line)[i]?) false = some s) : (44 : UInt8) ∉ s.bytes := by
  intro hmem
  rcases hpiece : (Split.pieces 44 13 line)[i]? with _ | piece
  · rw [hpiece] at hs
    exact absurd hs.symm (Option.some_ne_none _)
  · rw [hpiece] at hs
    exact not_mem_of_pieces 13 hi hpiece (mem_of_mem_getSubstringFromString hs hmem)

/-- A query that asks for a record. -/
def queryFor (m : MetaData) (owner group : CString) : Query :=
  ⟨CString.ofBytes (Decimal.printInt m.uid.toInt32.toInt), CString.ofBytes (Decimal.printInt m.gid.toInt32.toInt), owner, group,
    none, none, none⟩

/-- Filters that let every name and time pass. -/
def anyName : Filters := ⟨fun _ => true, fun _ _ => true, fun _ _ => 0⟩

/-- The line of a record whose owner and group hold no comma is read as a record with them. -/
theorem carriesOwner_smetaLine {m : MetaData} {owner group : CString} (howner : m.owner = some owner)
    (hgroup : m.group = some group) (hnoComma : NoComma m) : CarriesOwner (smetaLine m) m := by
  have hpieces := hnoComma.pieces_eq
  rw [otherFields, beforeOwner, howner, hgroup, afterGroup] at hpieces
  have hplain : ∀ s : CString, getSubstringFromString (some (32 :: quoted s.bytes)) false = some s := fun s => by
    rw [show 32 :: quoted s.bytes = 32 :: 34 :: (s.bytes ++ [34]) from rfl, getSubstringFromString_quoted s.nulFree]
    simp
  have huint : ∀ n : UInt32, getUintFromString (some (32 :: Decimal.printInt n.toInt32.toInt)) = n := fun n =>
    getUintFromString_printInt n Decimal.isBlank_space
  have hown : getSubstringFromString ((Split.pieces 44 13 (smetaLine m))[7]?) false = some owner := by
    rw [hpieces]
    exact hplain owner
  have hgrp : getSubstringFromString ((Split.pieces 44 13 (smetaLine m))[8]?) false = some group := by
    rw [hpieces]
    exact hplain group
  constructor
  · refine ⟨anyName, queryFor m owner group, ?_⟩
    have hasked : ∀ n : UInt32, getUintFromString (some (CString.ofBytes (Decimal.printInt n.toInt32.toInt)).bytes) = n := by
      intro n
      rw [CString.bytes_ofBytes fun c hc hzero => (plainField_printInt _).nul (hzero ▸ hc)]
      exact getUintFromString_printInt n fun c hc => absurd hc List.not_mem_nil
    have hname : ∃ filename, getSubstringFromString ((Split.pieces 44 13 (smetaLine m))[11]?) true = some filename := by
      rw [hpieces]
      exact ⟨_, rfl⟩
    have huid : getUintFromString ((Split.pieces 44 13 (smetaLine m))[9]?) = m.uid := by
      rw [hpieces]
      exact huint m.uid
    have hgid : getUintFromString ((Split.pieces 44 13 (smetaLine m))[10]?) = m.gid := by
      rw [hpieces]
      exact huint m.gid
    obtain ⟨filename, hfilename⟩ := hname
    have hdate : ∀ mtime, dateSelected anyName (queryFor m owner group) mtime = true := fun _ => rfl
    rw [extractFromLine, if_pos (length_smetaLine m)]
    simp only [hfilename, Option.bind_some]
    rw [if_pos (show anyName.gRegexMatch filename = true from rfl), if_pos (hdate _),
      if_pos ⟨hown, hgrp, huid.trans (hasked m.uid).symm, hgid.trans (hasked m.gid).symm⟩]
    rfl
  · intro filters query m' h
    obtain ⟨hm'owner, howner', hm'group, hgroup'⟩ := extractFromLine_some h
    rw [hm'owner, hm'group, ← howner', ← hgroup', hown, hgrp, howner, hgroup]
    exact ⟨rfl, rfl⟩

/-- A line that is well-formed is read as one more. -/
theorem AddsOneRecord.of_lineOk {file : Bytes} (hfile : WellFormedFile file) {before after : List Bytes}
    (hbefore : IsReading file before) {m : MetaData} (hafter : IsReading (file ++ smetaLine m ++ [10]) after)
    (hline : LineOk (smetaLine m)) (hcarries : CarriesOwner (smetaLine m) m) :
    AddsOneRecord (file ++ smetaLine m ++ [10]) before after m := by
  obtain ⟨lines, hlines, rfl⟩ := hfile
  have hmore : ∀ line ∈ lines ++ [smetaLine m], LineOk line := fun line hmem =>
    (List.mem_append.mp hmem).elim (hlines line) fun h => List.mem_singleton.mp h ▸ hline
  have hwhole : (lines.flatMap fun line => line ++ [10]) ++ smetaLine m ++ [10] =
      (lines ++ [smetaLine m]).flatMap fun line => line ++ [10] := by simp
  refine ⟨⟨_, hmore, hwhole⟩, smetaLine m, hcarries, fun filters query => ?_⟩
  rw [hwhole] at hafter
  rw [getFileListFromRegexAndQuery_eq, getFileListFromRegexAndQuery_eq, readRecords, readRecords,
    handedLines_reading hlines hbefore, handedLines_reading hmore hafter, List.filterMap_append, List.reverse_append,
    List.filterMap_cons, List.filterMap_nil]
  rcases extractFromLine filters query (smetaLine m) with _ | m' <;> rfl

/-- Behind an owner and a group without commas that do not keep the line together, the line has no end. -/
theorem scan_line_of_not_ownerKeepsLine {m : MetaData} {owner group : CString} (howner : m.owner = some owner)
    (hgroup : m.group = some group) (hnoComma : NoComma m) (hnot : ¬ OwnerKeepsLine m) :
    ∃ state, Scan.scan nextInLine (false, 0) (smetaLine m ++ [10]) = .exhausted state := by
  have hscan := hnoComma.scan_smetaLine
  rw [howner, hgroup] at hscan
  have hcommaOwner : (44 : UInt8) ∉ owner.bytes := by
    have hcomma := hnoComma.owner
    rwa [howner] at hcomma
  have hcommaGroup : (44 : UInt8) ∉ group.bytes := by
    have hcomma := hnoComma.group
    rwa [hgroup] at hcomma
  change Scan.scan nextInLine (false, 0) (smetaLine m) = .exhausted (if oddQuotes owner.bytes ^^ oddQuotes group.bytes then
    (true, if oddQuotes owner.bytes then 7 else 8)
    else (false, (if oddQuotes owner.bytes then 11 else 12) + m.hashDataList.length)) at hscan
  by_cases hquotes : oddQuotes owner.bytes = oddQuotes group.bytes
  · -- an odd number of quotes each, and no hash: one comma too few is counted
    have hodd : oddQuotes owner.bytes = true ∧ m.hashDataList = [] := by
      by_contra hno
      exact hnot ⟨owner, group, howner, hgroup, hcommaOwner, hcommaGroup, hquotes, fun hodd hnil => hno ⟨hodd, hnil⟩⟩
    rw [← hquotes, Bool.xor_self, hodd.1, hodd.2] at hscan
    have hend : Scan.scan nextInLine (false, 11) [10] = .exhausted (false, 11) := by decide
    exact ⟨_, Scan.scan_append_exhausted hscan hend⟩
  · -- an odd number of quotes in all: the line ends within a string
    have hodd : (oddQuotes owner.bytes ^^ oddQuotes group.bytes) = true := by simpa using hquotes
    rw [if_pos hodd] at hscan
    exact ⟨_, Scan.scan_append_exhausted hscan rfl⟩

/-- A line that has no end is not read, and nothing carries the owner and the group. -/
theorem not_addsOneRecord_of_exhausted {file : Bytes} (hfile : WellFormedFile file) {before after : List Bytes}
    (hbefore : IsReading file before) {m : MetaData} (hafter : IsReading (file ++ smetaLine m ++ [10]) after)
    {state : Bool × Nat} (hscan : Scan.scan nextInLine (false, 0) (smetaLine m ++ [10]) = .exhausted state) :
    ¬ AddsOneRecord (file ++ smetaLine m ++ [10]) before after m := by
  rintro ⟨_, line, ⟨⟨filters, query, hrecord⟩, _⟩, hread⟩
  obtain ⟨lines, hlines, rfl⟩ := hfile
  have hclear : ∀ c ∈ smetaLine m ++ [10], c ≠ 0 := fun c hc =>
    (List.mem_append.mp hc).elim (ne_zero_of_mem_smetaLine c) fun h => List.mem_singleton.mp h ▸ (by decide)
  rw [List.append_assoc] at hafter
  have hsame := hread filters query
  rw [getFileListFromRegexAndQuery_eq, getFileListFromRegexAndQuery_eq, readRecords, readRecords,
    handedLines_reading hlines hbefore, handedLines_reading_append hscan hclear hlines hafter] at hsame
  obtain ⟨m', hm'⟩ := Option.isSome_iff_exists.mp hrecord
  have hlength := congrArg List.length hsame
  rw [hm', Option.toList_some, List.length_append, List.length_singleton] at hlength
  omega

/-- The record is one more exactly when its owner and group keep its line together. -/
theorem addsOneRecord_iff_ownerKeepsLine {file : Bytes} (hfile : WellFormedFile file) {before after : List Bytes}
    (hbefore : IsReading file before) {m : MetaData} (hafter : IsReading (file ++ smetaLine m ++ [10]) after) :
    AddsOneRecord (file ++ smetaLine m ++ [10]) before after m ↔ OwnerKeepsLine m := by
  constructor
  · intro hadds
    obtain ⟨_, line, ⟨⟨filters, query, hrecord⟩, hcarries⟩, _⟩ := id hadds
    obtain ⟨m', hm'⟩ := Option.isSome_iff_exists.mp hrecord
    obtain ⟨howner, howner', hgroup, hgroup'⟩ := extractFromLine_some hm'
    obtain ⟨hsameOwner, hsameGroup⟩ := hcarries filters query m' hm'
    have hown : m.owner = some query.owner := hsameOwner.symm.trans howner
    have hgrp : m.group = some query.group := hsameGroup.symm.trans hgroup
    have hnoComma : NoComma m := by
      refine ⟨?_, ?_⟩
      · rw [hown]
        exact not_mem_of_getSubstringFromString (by decide) howner'
      · rw [hgrp]
        exact not_mem_of_getSubstringFromString (by decide) hgroup'
    by_contra hnot
    obtain ⟨state, hscan⟩ := scan_line_of_not_ownerKeepsLine hown hgrp hnoComma hnot
    exact not_addsOneRecord_of_exhausted hfile hbefore hafter hscan hadds
  · rintro ⟨owner, group, howner, hgroup, hcommaOwner, hcommaGroup, hquotes, hhashs⟩
    have hnoComma : NoComma m := ⟨by rwa [howner], by rwa [hgroup]⟩
    refine AddsOneRecord.of_lineOk hfile hbefore hafter ⟨?_, ne_zero_of_mem_smetaLine⟩
      (carriesOwner_smetaLine howner hgroup hnoComma)
    have hscan := hnoComma.scan_smetaLine
    rw [howner, hgroup] at hscan
    change Scan.scan nextInLine (false, 0) (smetaLine m) = .exhausted (if oddQuotes owner.bytes ^^ oddQuotes group.bytes then
      (true, if oddQuotes owner.bytes then 7 else 8)
      else (false, (if oddQuotes owner.bytes then 11 else 12) + m.hashDataList.length)) at hscan
    rw [← hquotes, Bool.xor_self] at hscan
    refine ⟨_, ?_, hscan⟩
    rcases hodd : oddQuotes owner.bytes
    · exact Nat.le_add_right 12 _
    · have := List.length_pos_iff.mpr (hhashs hodd)
      simp only [if_true]
      omega

end OneRecordAux

/-- Reading the file of a host back after a request gives what was read before, unchanged, and one record with the owner and the
group of the request, exactly when the owner and the group keep the line together. -/
theorem addsOneRecord_iff {file : Bytes} (hfile : WellFormedFile file) {smeta : ServerMetaData} (hhost : smeta.hostname ≠ none)
    {m : MetaData} (hm : smeta.metaData = some m) {before after : List Bytes} (hbefore : IsReading file before)
    (hafter : IsReading (fileStoreSmeta file smeta) after) :
    AddsOneRecord (fileStoreSmeta file smeta) before after m ↔ OwnerKeepsLine m := by
  obtain ⟨host, hsome⟩ := Option.ne_none_iff_exists'.mp hhost
  have hstore : fileStoreSmeta file smeta = file ++ smetaLine m ++ [10] := by simp only [fileStoreSmeta, hsome, hm]
  rw [hstore] at hafter ⊢
  exact OneRecordAux.addsOneRecord_iff_ownerKeepsLine hfile hbefore hafter

/-- A record of a file of this owner, without hashs. -/
def recordOf (owner : String) : MetaData :=
  { newMetaData with
    owner := some (CString.lit owner)
    group := some (CString.lit "users")
    name := some (CString.lit "/tmp/a")
    link := some (CString.lit "") }

/-- The request for such a record. -/
def requestOf (owner : String) : ServerMetaData := ⟨some (CString.lit "host"), false, some (recordOf owner)⟩

/-- A file that is empty consists of lines. -/
theorem wellFormedFile_nil : WellFormedFile [] := ⟨[], fun _ h => absurd h List.not_mem_nil, rfl⟩

/-- The record of an owner with a line end in the name is one more. -/
theorem lineEndInOwner_addsOneRecord : AddsOneRecord (fileStoreSmeta [] (requestOf "a\nb")) []
    ((fileStoreSmeta [] (requestOf "a\nb")).map fun c => [c]) (recordOf "a\nb") :=
  (addsOneRecord_iff wellFormedFile_nil (Option.some_ne_none _) rfl (isReading_bytes []) (isReading_bytes _)).mpr
    ⟨CString.lit "a\nb", CString.lit "users", rfl, rfl, by decide, by decide, by decide, by decide⟩

/-- The record of an owner with one quote in the name is not. -/
theorem quoteInOwner_hidesRecord : WellFormedFile [] ∧ IsReading [] [] ∧
    IsReading (fileStoreSmeta [] (requestOf "a\"")) ((fileStoreSmeta [] (requestOf "a\"")).map fun c => [c]) ∧
    ¬ AddsOneRecord (fileStoreSmeta [] (requestOf "a\"")) [] ((fileStoreSmeta [] (requestOf "a\"")).map fun c => [c])
      (recordOf "a\"") := by
  refine ⟨wellFormedFile_nil, isReading_bytes [], isReading_bytes _, fun hadds => ?_⟩
  have hafter := isReading_bytes (fileStoreSmeta [] (requestOf "a\""))
  obtain ⟨owner, group, howner, hgroup, _, _, hquotes, _⟩ :=
    (OneRecordAux.addsOneRecord_iff_ownerKeepsLine wellFormedFile_nil (isReading_bytes []) hafter).mp hadds
  rw [← Option.some.inj howner, ← Option.some.inj hgroup] at hquotes
  exact absurd hquotes (by decide)

end Sauvegarde
