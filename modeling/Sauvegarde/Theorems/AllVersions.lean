import Sauvegarde.Extern.Microhttpd
import Sauvegarde.Lib.Utf8
import Sauvegarde.Restore.AllVersions
import Sauvegarde.Theorems.MetaBackends

/-!
# All versions of one file

Which records the server selects for the name of a file that is pasted into a regular expression, whatever the case. What an
expression matches is GLib's.
-/

namespace Sauvegarde

/-! ## Names as expressions -/

/-- The characters that mean something in an expression, but for the dot: `\ ^ $ [ | ( ) ? * + {`. -/
def metacharacters : Bytes := [92, 94, 36, 91, 124, 40, 41, 63, 42, 43, 123]

/-- A name of which every character stands for itself in an expression, or is a dot: UTF-8 without the other characters that mean
something and without controls. -/
def PlainName (name : CString) : Prop :=
  Utf8.valid name.bytes = true ∧ ∀ c ∈ name.bytes, 32 ≤ c ∧ c ∉ metacharacters

instance : DecidablePred PlainName := fun _ => inferInstanceAs (Decidable (_ ∧ _))

/-- What ends a line: line feed, carriage return, both, vertical tab, form feed, next line, and the separators of lines and
paragraphs. -/
def lineEnds : List Bytes := [[10], [13], [13, 10], [11], [12], [0xC2, 0x85], [0xE2, 0x80, 0xA8], [0xE2, 0x80, 0xA9]]

/-- The pieces of a name follow each other in a text, whatever their case, with one character between two, which ends no line. -/
def piecesFollow (caseFold : Bytes → Bytes) : List Bytes → Bytes → Bool
  | [], _ => false
  | piece :: pieces, text =>
    if pieces = [] then caseFold text = caseFold piece
    else (List.range (text.length + 1)).any fun n => caseFold (text.take n) = caseFold piece &&
      (Utf8.uncons (text.drop n)).any fun (character, rest) => character ∉ lineEnds && piecesFollow caseFold pieces rest

/-- A text is a name but for the case of its letters, for its dots, each of which stands for any character, and for a line end behind
it. -/
def SameButCase (caseFold : Bytes → Bytes) (text name : Bytes) : Prop :=
  ∃ ending ∈ [] :: lineEnds, ∃ front, text = front ++ ending ∧ piecesFollow caseFold (name.splitOn 46) front = true

/-- Where there is no dot in the name, it is the name but for case and a line end. -/
theorem sameButCase_iff_of_no_dot {caseFold : Bytes → Bytes} {text name : Bytes} (hdot : (46 : UInt8) ∉ name) :
    SameButCase caseFold text name ↔ ∃ ending ∈ [] :: lineEnds, ∃ front, text = front ++ ending ∧ caseFold front = caseFold name := by
  have hsplit : name.splitOn 46 = [name] := by
    rw [List.splitOn_eq_splitOnP]
    exact List.splitOnP_eq_singleton fun c hc => by simpa using fun heq : c = 46 => hdot (heq ▸ hc)
  unfold SameButCase
  simp only [hsplit, piecesFollow, if_true, decide_eq_true_eq]

/-- Pieces follow each other in the text in which dots stand between them. -/
theorem piecesFollow_intercalate (caseFold : Bytes → Bytes) {pieces : List Bytes} (hne : pieces ≠ []) :
    piecesFollow caseFold pieces ([46].intercalate pieces) = true := by
  induction pieces with
  | nil => exact absurd rfl hne
  | cons piece pieces ih =>
    rcases pieces with _ | ⟨next, pieces⟩
    · simp [piecesFollow]
    · have hrest := ih (List.cons_ne_nil _ _)
      have hdot : ([46] : Bytes) ∉ lineEnds := by decide
      rw [List.intercalate_cons_cons, piecesFollow, if_neg (List.cons_ne_nil _ _), List.any_eq_true]
      refine ⟨piece.length, List.mem_range.mpr (by simp), ?_⟩
      rw [List.append_assoc, List.take_left, List.drop_left, List.singleton_append, Utf8.uncons_ascii (by decide)]
      simp [hdot, hrest]

theorem sameButCase_self (caseFold : Bytes → Bytes) (name : Bytes) : SameButCase caseFold name name := by
  have hpieces := piecesFollow_intercalate caseFold (List.splitOn_ne_nil 46 name)
  rw [List.intercalate_splitOn] at hpieces
  exact ⟨[], List.mem_cons_self, name, (List.append_nil _).symm, hpieces⟩

/-- How GLib matches plain names in texts that are UTF-8, whatever the case: a dot stands for any character that ends no line and
every other character for itself, and the sign for the end also matches before a line end that is the last. -/
def MatchesPlainNames (regexMatch : CString → CString → Bool) (caseFold : Bytes → Bytes) : Prop :=
  ∀ name text : CString, PlainName name → Utf8.valid text.bytes = true →
    (regexMatch (allVersionsPattern (some name)) text = true ↔ SameButCase caseFold text.bytes name.bytes)

/-- A text is taken for a name: it is the same but for case when the name is plain, and otherwise when the expression that is made of
the name matches. -/
def TakenFor (regexMatch : CString → CString → Bool) (caseFold : Bytes → Bytes) (name text : CString) : Prop :=
  (PlainName name ∧ Utf8.valid text.bytes = true → SameButCase caseFold text.bytes name.bytes) ∧
    (¬ (PlainName name ∧ Utf8.valid text.bytes = true) → regexMatch (allVersionsPattern (some name)) text = true)

/-- A plain name is taken for itself. -/
theorem takenFor_self (regexMatch : CString → CString → Bool) (caseFold : Bytes → Bytes) {name : CString} (h : PlainName name) :
    TakenFor regexMatch caseFold name name :=
  ⟨fun _ => sameButCase_self caseFold name.bytes, fun hnot => absurd ⟨h, h.1⟩ hnot⟩

/-- What is taken for a name is what the expression matches. -/
theorem takenFor_iff {regexMatch : CString → CString → Bool} {caseFold : Bytes → Bytes}
    (hplain : MatchesPlainNames regexMatch caseFold) (name text : CString) :
    TakenFor regexMatch caseFold name text ↔ regexMatch (allVersionsPattern (some name)) text = true := by
  by_cases h : PlainName name ∧ Utf8.valid text.bytes = true
  · rw [hplain name text h.1 h.2]
    exact ⟨fun htaken => htaken.1 h, fun hsame => ⟨fun _ => hsame, fun hnot => absurd h hnot⟩⟩
  · exact ⟨fun htaken => htaken.2 h, fun hmatch => ⟨fun hboth => absurd hboth h, fun _ => hmatch⟩⟩

/-! ## The two queries -/

/-- The query that the backend gets for the options of a user. -/
def userQuery (user : UserInfos) (opt : RestoreOptions) : Query :=
  ⟨user.uid, user.gid, user.owner, user.group, opt.date, opt.afterdate, opt.beforedate⟩

/-- The records of a host that the options of a user select. -/
def selectedRecords (regexMatch : CString → CString → Bool) (localTime : LocalTime) (user : UserInfos) (opt : RestoreOptions)
    (reads : List Bytes) : List MetaData :=
  readRecords (gLibFilters regexMatch localTime (some opt.filename)) (userQuery user opt) reads

/-- The records of a host that are the user's. -/
def userRecords (user : UserInfos) (reads : List Bytes) : List MetaData :=
  readRecords passFilters ⟨user.uid, user.gid, user.owner, user.group, none, none, none⟩ reads

/-- The answer of the server to the options of a user. -/
def answerToUser (regexMatch : CString → CString → Bool) (localTime : LocalTime) (collateKeyForFilename : CString → CString)
    (user : UserInfos) (opt : RestoreOptions) (reads : List Bytes) : Option Json :=
  fileGetListOfFiles collateKeyForFilename (gLibFilters regexMatch localTime (some opt.filename)) (userQuery user opt)
    user.hostname opt.latest (some reads)

/-- The last file of an answer has a name. -/
def IsLastName (collateKeyForFilename : CString → CString) (answer : Option Json) (name : CString) : Prop :=
  ∃ metaData, restoreLastFile collateKeyForFilename answer = some metaData ∧ metaData.name = some name

/-- The query that follows an answer selects the records of the user that have the name, and no others. -/
def SelectsVersions (regexMatch : CString → CString → Bool) (localTime : LocalTime) (collateKeyForFilename : CString → CString)
    (user : UserInfos) (answer : Option Json) (reads : List Bytes) (name : CString) : Prop :=
  ∃ second, versionsQuery collateKeyForFilename user answer = some (getUserInfos user second) ∧
    selectedRecords regexMatch localTime user second reads = (userRecords user reads).filter fun m => m.name = some name

namespace AllVersionsAux

/-- The name and the time select among the records of the user. -/
theorem extractFromLine_eq_filter (filters : Filters) (query : Query) (line : Bytes) :
    extractFromLine filters query line =
      (extractFromLine passFilters { query with date := none, afterdate := none, beforedate := none } line).filter fun m =>
        m.name.any filters.gRegexMatch && dateSelected filters query m.mtime := by
  unfold extractFromLine
  by_cases hlength : 16 < line.length
  · rw [if_pos hlength, if_pos hlength]
    rcases hname : getSubstringFromString ((Split.pieces 44 13 line)[11]?) true with _ | filename
    · simp only [hname, Option.bind_none, Option.filter_none]
    · have hpass : passFilters.gRegexMatch filename = true := rfl
      have hundated : ∀ mtime, dateSelected passFilters { query with date := none, afterdate := none, beforedate := none } mtime =
          true := fun _ => rfl
      simp only [hname, Option.bind_some, hpass, hundated, if_true]
      split_ifs with hmatch hdate hids hids hids
      · rw [Option.filter_some, Option.any_some, hmatch, hdate, Bool.and_true, if_pos rfl]
      · rw [Option.filter_none]
      · rw [Option.filter_some, Option.any_some, Bool.eq_false_of_not_eq_true hdate, Bool.and_false, if_neg Bool.false_ne_true]
      · rw [Option.filter_none]
      · rw [Option.filter_some, Option.any_some, Bool.eq_false_of_not_eq_true hmatch, Bool.false_and, if_neg Bool.false_ne_true]
      · rw [Option.filter_none]
  · rw [if_neg hlength, if_neg hlength, Option.filter_none]

/-- The records that are selected are the user's that have such a name and such a time. -/
theorem readRecords_eq_filter (filters : Filters) (query : Query) (reads : List Bytes) :
    readRecords filters query reads =
      (readRecords passFilters { query with date := none, afterdate := none, beforedate := none } reads).filter fun m =>
        m.name.any filters.gRegexMatch && dateSelected filters query m.mtime := by
  unfold readRecords
  rw [List.filter_filterMap]
  exact List.filterMap_congr fun line _ => extractFromLine_eq_filter filters query line

variable {regexMatch : CString → CString → Bool} {localTime : LocalTime} {user : UserInfos} {reads : List Bytes} {name : CString}

/-- What the options of a user select is the user's. -/
theorem mem_userRecords {opt : RestoreOptions} {m : MetaData} (h : m ∈ selectedRecords regexMatch localTime user opt reads) :
    m ∈ userRecords user reads := by
  rw [selectedRecords, readRecords_eq_filter] at h
  exact List.mem_of_mem_filter h

/-- The second query asks for every time. -/
theorem selectedRecords_versionsOptions : selectedRecords regexMatch localTime user (versionsOptions name) reads =
    (userRecords user reads).filter fun m => m.name.any (regexMatch (allVersionsPattern (some name))) := by
  rw [selectedRecords, readRecords_eq_filter]
  refine List.filter_congr fun m _ => ?_
  have hundated : dateSelected (gLibFilters regexMatch localTime (some (versionsOptions name).filename))
      (userQuery user (versionsOptions name)) m.mtime = true := rfl
  rw [hundated, Bool.and_true]
  rfl

/-- Two conditions select the same of a list when they agree on its elements. -/
theorem filter_eq_filter_iff {α : Type} {p q : α → Bool} {l : List α} :
    l.filter p = l.filter q ↔ ∀ a ∈ l, (p a = true ↔ q a = true) := by
  constructor
  · intro h a ha
    have hboth : a ∈ l.filter p ↔ a ∈ l.filter q := by rw [h]
    rwa [List.mem_filter, List.mem_filter, and_iff_right ha, and_iff_right ha] at hboth
  · intro h
    exact List.filter_congr fun a ha => Bool.eq_iff_iff.mpr (h a ha)

variable {collateKeyForFilename : CString → CString} {answer : Option Json}

/-- The query that follows is that of the last name. -/
theorem selectsVersions_iff_selectedRecords (hlast : IsLastName collateKeyForFilename answer name) :
    SelectsVersions regexMatch localTime collateKeyForFilename user answer reads name ↔
      selectedRecords regexMatch localTime user (versionsOptions name) reads =
        (userRecords user reads).filter fun m => m.name = some name := by
  obtain ⟨metaData, hrestored, hname⟩ := hlast
  rw [SelectsVersions, versionsQuery_eq hrestored hname user]
  constructor
  · rintro ⟨second, hsecond, hselected⟩
    rwa [← getUserInfos_injective user (Option.some.inj hsecond)] at hselected
  · intro hselected
    exact ⟨_, rfl, hselected⟩

/-- The second query is right when its expression matches the last name alone among those of the user. -/
theorem selectsVersions_iff (hlast : IsLastName collateKeyForFilename answer name) :
    SelectsVersions regexMatch localTime collateKeyForFilename user answer reads name ↔
      ∀ m ∈ userRecords user reads, ∀ other, m.name = some other →
        (regexMatch (allVersionsPattern (some name)) other = true ↔ other = name) := by
  rw [selectsVersions_iff_selectedRecords hlast, selectedRecords_versionsOptions, filter_eq_filter_iff]
  refine forall_congr' fun m => forall_congr' fun hm => ?_
  rcases m.name with _ | other
  · simp
  · simp

/-- A file of the client's list has the name of a record that was selected. -/
theorem exists_of_restoreLastFile {filters : Filters} {query : Query}
    {hostname : CString} {latest : Bool} {metaData : MetaData}
    (h : restoreLastFile collateKeyForFilename
      (fileGetListOfFiles collateKeyForFilename filters query hostname latest (some reads)) = some metaData) :
    ∃ m ∈ readRecords filters query reads, m.name = metaData.name := by
  obtain ⟨smeta, hlast, hmetaData⟩ := Option.bind_eq_some_iff.mp h
  have hmem := List.mem_of_getLast? hlast
  generalize hanswer : fileGetListOfFiles collateKeyForFilename filters query hostname latest (some reads) = answer at hmem
  unfold fileGetListOfFiles at hanswer
  simp only [Json.dumps] at hanswer
  split at hanswer
  · subst hanswer
    simp only [getFilesFromServer, Option.map_some, Option.bind_some, Json.loads, gListSort,
      NewestAux.extractSmetaGslist_answer, List.mem_insertionSort, List.mem_map, List.mem_reverse] at hmem
    obtain ⟨m, hm, rfl⟩ := hmem
    obtain ⟨m', hm', hname, -⟩ := NewestAux.arrived_spec hostname m
    rw [hm'] at hmetaData
    obtain rfl := Option.some.inj hmetaData
    exact ⟨m, NewestAux.mem_of_mem_fileList _ _ _ _ _ hm, hname.symm⟩
  · subst hanswer
    exact absurd hmem List.not_mem_nil

end AllVersionsAux

open AllVersionsAux

/-- The second query selects the versions of the file exactly when the name is taken for itself, as a plain name always is, and no
other name of the user's records is taken for it. -/
theorem allVersions_iff {regexMatch : CString → CString → Bool} {caseFold : Bytes → Bytes}
    (hplain : MatchesPlainNames regexMatch caseFold) {localTime : LocalTime} {collateKeyForFilename : CString → CString}
    {user : UserInfos} {opt : RestoreOptions} {reads : List Bytes} {name : CString}
    (hlast : IsLastName collateKeyForFilename (answerToUser regexMatch localTime collateKeyForFilename user opt reads) name) :
    SelectsVersions regexMatch localTime collateKeyForFilename user
        (answerToUser regexMatch localTime collateKeyForFilename user opt reads) reads name ↔
      TakenFor regexMatch caseFold name name ∧ ∀ m ∈ userRecords user reads, ∀ other, m.name = some other →
        TakenFor regexMatch caseFold name other → other = name := by
  rw [selectsVersions_iff hlast]
  obtain ⟨metaData, hrestored, hname⟩ := hlast
  obtain ⟨m, hm, hsame⟩ := exists_of_restoreLastFile hrestored
  have hown : m.name = some name := hsame.trans hname
  constructor
  · intro h
    refine ⟨(takenFor_iff hplain name name).mpr ((h m (mem_userRecords hm) name hown).mpr rfl), ?_⟩
    intro m hm other hother htaken
    exact (h m hm other hother).mp ((takenFor_iff hplain name other).mp htaken)
  · rintro ⟨hself, halone⟩ m hm other hother
    constructor
    · intro hmatch
      exact halone m hm other hother ((takenFor_iff hplain name other).mpr hmatch)
    · rintro rfl
      exact (takenFor_iff hplain other other).mp hself

/-- Where the last name is plain and the names of the user are UTF-8, the second query is right exactly when no other name is the same
but for its dots, case, and a line end. -/
theorem allVersions_of_plainName {regexMatch : CString → CString → Bool} {caseFold : Bytes → Bytes}
    (hplain : MatchesPlainNames regexMatch caseFold) {localTime : LocalTime} {collateKeyForFilename : CString → CString}
    {user : UserInfos} {opt : RestoreOptions} {reads : List Bytes} {name : CString}
    (hlast : IsLastName collateKeyForFilename (answerToUser regexMatch localTime collateKeyForFilename user opt reads) name)
    (hname : PlainName name) (hutf8 : ∀ m ∈ userRecords user reads, ∀ other, m.name = some other → Utf8.valid other.bytes = true) :
    SelectsVersions regexMatch localTime collateKeyForFilename user
        (answerToUser regexMatch localTime collateKeyForFilename user opt reads) reads name ↔
      ∀ m ∈ userRecords user reads, ∀ other, m.name = some other → SameButCase caseFold other.bytes name.bytes → other = name := by
  rw [selectsVersions_iff hlast]
  refine forall_congr' fun m => forall_congr' fun hm => forall_congr' fun other => forall_congr' fun hother => ?_
  rw [hplain name other hname (hutf8 m hm other hother)]
  refine ⟨fun h => h.mp, fun h => ⟨h, ?_⟩⟩
  rintro rfl
  exact sameButCase_self caseFold other.bytes

/-- Where there is no dot in the name, it is right exactly when no other name is the same but for case and a line end behind it. -/
theorem allVersions_of_dotlessName {regexMatch : CString → CString → Bool} {caseFold : Bytes → Bytes}
    (hplain : MatchesPlainNames regexMatch caseFold) {localTime : LocalTime} {collateKeyForFilename : CString → CString}
    {user : UserInfos} {opt : RestoreOptions} {reads : List Bytes} {name : CString}
    (hlast : IsLastName collateKeyForFilename (answerToUser regexMatch localTime collateKeyForFilename user opt reads) name)
    (hname : PlainName name) (hdot : (46 : UInt8) ∉ name.bytes)
    (hutf8 : ∀ m ∈ userRecords user reads, ∀ other, m.name = some other → Utf8.valid other.bytes = true) :
    SelectsVersions regexMatch localTime collateKeyForFilename user
        (answerToUser regexMatch localTime collateKeyForFilename user opt reads) reads name ↔
      ∀ m ∈ userRecords user reads, ∀ other, m.name = some other → ∀ ending ∈ [] :: lineEnds, ∀ front,
        other.bytes = front ++ ending → caseFold front = caseFold name.bytes → other = name := by
  rw [allVersions_of_plainName hplain hlast hname hutf8]
  refine forall_congr' fun m => forall_congr' fun _ => forall_congr' fun other => forall_congr' fun _ => ?_
  rw [sameButCase_iff_of_no_dot hdot]
  constructor
  · exact fun h ending hending front htext hfold => h ⟨ending, hending, front, htext, hfold⟩
  · rintro h ⟨ending, hending, front, htext, hfold⟩
    exact h ending hending front htext hfold

/-! ## Two files of root -/

/-- A matcher of plain names that knows the case of ASCII. -/
def asciiMatch (pattern text : CString) : Bool :=
  ([] :: lineEnds).any fun ending =>
    ending.isSuffixOf text.bytes && piecesFollow (List.map lowerCase) ((pattern.bytes.drop 1).dropLast.splitOn 46)
      (text.bytes.take (text.bytes.length - ending.length))

/-- It matches as GLib does. -/
theorem matchesPlainNames_asciiMatch : MatchesPlainNames asciiMatch (List.map lowerCase) := by
  intro name text _ _
  have hname : ((allVersionsPattern (some name)).bytes.drop 1).dropLast = name.bytes := by
    rw [bytes_allVersionsPattern, List.drop_succ_cons, List.drop_zero, List.dropLast_concat]
  rw [asciiMatch, List.any_eq_true, SameButCase, hname]
  refine exists_congr fun ending => and_congr_right fun _ => ?_
  rw [Bool.and_eq_true, List.isSuffixOf_iff_suffix]
  constructor
  · rintro ⟨⟨front, hfront⟩, hcase⟩
    refine ⟨front, hfront.symm, ?_⟩
    rwa [← hfront, List.length_append, Nat.add_sub_cancel, List.take_left] at hcase
  · rintro ⟨front, hfront, hcase⟩
    refine ⟨⟨front, hfront.symm⟩, ?_⟩
    rwa [hfront, List.length_append, Nat.add_sub_cancel, List.take_left]

/-- The user of `rootQuery`. -/
def rootUser : UserInfos := ⟨CString.lit "host", CString.lit "0", CString.lit "0", CString.lit "root", CString.lit "root"⟩

/-- A file of root. -/
def rootNamed (name : CString) : MetaData := { versionOf 1 with name := some name }

/-- The file of a host that files of root were stored in, read byte by byte. -/
def rootReads (names : List CString) : List Bytes :=
  ((names.map fun name => (⟨some (CString.lit "host"), true, some (rootNamed name)⟩ : ServerMetaData)).foldl fileStoreSmeta
    []).map fun c => [c]

namespace AllVersionsAux

theorem values_rootNamed (name : CString) :
    FlatFileAux.Values (rootNamed name) (CString.lit "root") (CString.lit "root") name (CString.lit "") [] where
  hasOwner := rfl
  ownerPlain := (values_versionOf 1).ownerPlain
  hasGroup := rfl
  groupPlain := (values_versionOf 1).groupPlain
  hasName := rfl
  hasLink := rfl
  hashs := rfl

/-- Of the files of root those come back whose names match. -/
theorem readRecords_rootReads (filters : Filters) (names : List CString) :
    readRecords filters rootQuery (rootReads names) = (names.filter filters.gRegexMatch).map rootNamed := by
  have hlines : ∀ smeta ∈ names.map fun name => (⟨some (CString.lit "host"), true, some (rootNamed name)⟩ : ServerMetaData),
      smeta.hostname ≠ none ∧ ∃ m, smeta.metaData = some m ∧ LineOk (smetaLine m) := by
    intro smeta hsmeta
    obtain ⟨name, -, rfl⟩ := List.mem_map.mp hsmeta
    exact ⟨Option.some_ne_none _, _, rfl, FlatFileAux.Storable.line (values_rootNamed name).storable⟩
  have hback : ∀ name, extractFromLine filters rootQuery (smetaLine (rootNamed name)) =
      if filters.gRegexMatch name then some (rootNamed name) else none := by
    intro name
    rw [(values_rootNamed name).extractFromLine_eq]
    by_cases hmatch : filters.gRegexMatch name = true
    · rw [if_pos hmatch]
      refine if_pos ⟨fun s hs => ?_, rfl, rfl, rfl, rfl, rfl⟩
      rwa [← Option.some.inj hs]
    · rw [if_neg hmatch]
      exact if_neg fun hselected => hmatch (hselected.name name rfl)
  rw [rootReads, NewestAux.readRecords_stored _ _ hlines (isReading_bytes _), List.filterMap_map]
  rw [← List.filterMap_eq_map, List.filterMap_filter]
  exact List.filterMap_congr fun name _ => hback name

/-- All files of root are the user's. -/
theorem userRecords_rootReads (names : List CString) : userRecords rootUser (rootReads names) = names.map rootNamed := by
  refine (readRecords_rootReads passFilters names).trans (congrArg (List.map rootNamed) ?_)
  exact List.filter_eq_self.mpr fun _ _ => rfl

/-- The last of the files of root is one that has the greatest name of those that match its own. -/
theorem isLastName_rootReads {names : List CString} {name : CString}
    (hjson : ∀ n ∈ names, convertMetaDataToJsonString (rootNamed n) (some (CString.lit "host")) false ≠ none)
    (hlast : StableSort.IsLastGreatest (NotBehind id)
      ((names.filter (asciiMatch (allVersionsPattern (some name)))).map rootNamed) (rootNamed name)) :
    IsLastName id (answerToUser asciiMatch noLocalTime id rootUser (versionsOptions name) (rootReads names)) name := by
  have hread : readRecords (gLibFilters asciiMatch noLocalTime (some (versionsOptions name).filename))
      (userQuery rootUser (versionsOptions name)) (rootReads names) =
        (names.filter (asciiMatch (allVersionsPattern (some name)))).map rootNamed := readRecords_rootReads _ names
  obtain ⟨m', hm', hname, -⟩ := NewestAux.arrived_spec (CString.lit "host") (rootNamed name)
  refine ⟨m', ?_, hname⟩
  rw [← hm']
  refine NewestAux.restoreLastFile_eq _ _ _ _ _ ?_ ?_
  · intro m hm
    rw [hread] at hm
    obtain ⟨n, hn, rfl⟩ := List.mem_map.mp hm
    exact hjson n (List.mem_of_mem_filter hn)
  · rwa [hread]

end AllVersionsAux

/-- The answer to root asking for a file by its name among two. -/
def twoFilesAnswer (name other : CString) : Option Json :=
  answerToUser asciiMatch noLocalTime id rootUser (versionsOptions name) (rootReads [name, other])

/-- Two files of root with names of their own: the versions of one are selected. -/
theorem otherName_notSelected :
    SelectsVersions asciiMatch noLocalTime id rootUser (twoFilesAnswer (CString.lit "/etc/motd") (CString.lit "/etc/issue"))
      (rootReads [CString.lit "/etc/motd", CString.lit "/etc/issue"]) (CString.lit "/etc/motd") := by
  refine (allVersions_iff matchesPlainNames_asciiMatch (isLastName_rootReads ?_ ?_)).mpr ?_
  · intro n hn
    rcases List.mem_pair.mp hn with rfl | rfl <;> decide
  · have hone : [CString.lit "/etc/motd", CString.lit "/etc/issue"].filter
        (asciiMatch (allVersionsPattern (some (CString.lit "/etc/motd")))) = [CString.lit "/etc/motd"] := by
      decide +kernel
    rw [hone]
    exact ⟨[], [], rfl, fun y hy => absurd hy List.not_mem_nil, fun y hy => absurd hy List.not_mem_nil⟩
  · have hchars : PlainName (CString.lit "/etc/motd") := by decide +kernel
    refine ⟨takenFor_self asciiMatch (List.map lowerCase) hchars, ?_⟩
    rw [userRecords_rootReads]
    intro m hm other hother htaken
    rcases List.mem_pair.mp hm with rfl | rfl
    · exact (Option.some.inj hother).symm
    · obtain rfl := Option.some.inj hother
      have hmatch := (takenFor_iff matchesPlainNames_asciiMatch _ _).mp htaken
      exact absurd hmatch (by decide +kernel)

/-- Two files of root whose names are the same but for case: both are selected as versions of one. -/
theorem otherCase_selected :
    let answer := twoFilesAnswer (CString.lit "/etc/motd") (CString.lit "/etc/Motd")
    MatchesPlainNames asciiMatch (List.map lowerCase) ∧ IsLastName id answer (CString.lit "/etc/motd") ∧
      ¬ SelectsVersions asciiMatch noLocalTime id rootUser answer (rootReads [CString.lit "/etc/motd", CString.lit "/etc/Motd"])
        (CString.lit "/etc/motd") := by
  intro answer
  have hlast : IsLastName id answer (CString.lit "/etc/motd") := by
    refine isLastName_rootReads ?_ ?_
    · intro n hn
      rcases List.mem_pair.mp hn with rfl | rfl <;> decide
    · have hboth : [CString.lit "/etc/motd", CString.lit "/etc/Motd"].filter
          (asciiMatch (allVersionsPattern (some (CString.lit "/etc/motd")))) =
            [CString.lit "/etc/motd", CString.lit "/etc/Motd"] := by
        decide +kernel
      rw [hboth]
      refine ⟨[], [rootNamed (CString.lit "/etc/Motd")], rfl, fun y hy => absurd hy List.not_mem_nil, ?_⟩
      intro y hy
      rw [List.mem_singleton.mp hy]
      decide +kernel
  refine ⟨matchesPlainNames_asciiMatch, hlast, ?_⟩
  rw [selectsVersions_iff hlast]
  intro h
  have hmem : rootNamed (CString.lit "/etc/Motd") ∈
      userRecords rootUser (rootReads [CString.lit "/etc/motd", CString.lit "/etc/Motd"]) := by
    rw [userRecords_rootReads]
    exact List.mem_map_of_mem (List.mem_cons_of_mem _ List.mem_cons_self)
  have hsame := (h _ hmem _ rfl).mp (by decide +kernel)
  exact absurd hsame (by decide)

end Sauvegarde
