import Sauvegarde.Server.MongodbSearch
import Sauvegarde.Theorems.Mongodb
import Sauvegarde.Theorems.Newest

/-!
# The two backends of meta data

What the file backend and the MongoDB backend answer to the same query when the same records were stored in both. The hashs of a
file are left out of the answers: they are not what a query selects by.
-/

namespace Sauvegarde

/-- What is listed of a file, but for its hashs. -/
def withoutHashs (m : MetaData) : MetaData := { m with hashDataList := [], inCache := false, blocksize := 0 }

/-- The records that are stored: those of a host that have meta data. -/
def storedRecords (smetas : List ServerMetaData) : List MetaData :=
  smetas.filterMap fun smeta => smeta.hostname.bind fun _ => smeta.metaData

/-- The collection of a host after records were stored in it, each with an identifier of its own. -/
def storedCollection (stored : List (Bytes × ServerMetaData)) : List Document :=
  stored.foldl (fun collection element => mongodbStoreSmeta element.1 collection element.2) []

/-- The record with the same line in which nothing is `NULL`. -/
def asWritten (m : MetaData) : MetaData :=
  { m with
    owner := some (m.owner.getD (CString.lit "(null)"))
    group := some (m.group.getD (CString.lit "(null)"))
    name := some (m.name.getD (CString.lit ""))
    link := some (m.link.getD (CString.lit "")) }

/-- A record that may be written to a line: a plain owner and group if there are any, and hashs of the right length. -/
structure Writable (m : MetaData) : Prop where
  owner : ∀ s, m.owner = some s → PlainString s
  group : ∀ s, m.group = some s → PlainString s
  hashs : AllHashed m.hashDataList

section

variable (regexMatch : CString → CString → Bool) (localTime : LocalTime) (filename : Option CString) (query : Query)

/-- The records that the file backend selects: by the date, by the times, by owner and group and by their numbers. -/
def fileSelects (m : MetaData) : Bool :=
  (filename.any fun pattern => regexMatch pattern (m.name.getD (CString.lit ""))) &&
    dateSelected (gLibFilters regexMatch localTime filename) query m.mtime &&
    m.owner.getD (CString.lit "(null)") = query.owner && m.group.getD (CString.lit "(null)") = query.group &&
    m.uid = getUintFromString (some query.uid.bytes) && m.gid = getUintFromString (some query.gid.bytes)

/-- The records that the MongoDB backend selects: by one of the times, and by expressions for owner and group. -/
def mongodbSelects (m : MetaData) : Bool :=
  (filename.all fun pattern => m.name.any fun s => regexMatch pattern s) &&
    (match query.afterdate, query.beforedate with
      | some date, _ => m.mtime ≠ 0 && (dateUnix localTime date).toInt64 ≤ m.mtime.toInt64
      | none, some date => m.mtime ≠ 0 && m.mtime.toInt64 ≤ (dateUnix localTime date).toInt64
      | none, none => true) &&
    (m.owner.any fun s => regexMatch query.owner s) && (m.group.any fun s => regexMatch query.group s)

/-! ## What a query asks for -/

/-- A file of the user who asks: its name is one that the pattern matches, and its owner, its group and their numbers are those of
the query. -/
def OfUser (m : MetaData) : Prop :=
  (∃ pattern ∈ filename, regexMatch pattern (m.name.getD (CString.lit "")) = true) ∧
    m.owner.getD (CString.lit "(null)") = query.owner ∧ m.group.getD (CString.lit "(null)") = query.group ∧
    m.uid = getUintFromString (some query.uid.bytes) ∧ m.gid = getUintFromString (some query.gid.bytes)

/-- A file that the texts of the query match as patterns: its name, if there is a pattern for it, its owner and its group. -/
def Matched (m : MetaData) : Prop :=
  (∀ pattern ∈ filename, ∃ name ∈ m.name, regexMatch pattern name = true) ∧
    (∃ owner ∈ m.owner, regexMatch query.owner owner = true) ∧ ∃ group ∈ m.group, regexMatch query.group group = true

/-- A time that is asked for: its text begins with the date of the query, and it is not before the one of its times and before the
other. -/
def InTimes (mtime : UInt64) : Prop :=
  (∀ date ∈ query.date, ∃ text ∈ formatMtime localTime mtime, date.bytes <+: text.bytes) ∧
    (∀ date ∈ query.afterdate, 0 ≤ compareMtimeToGcharDate localTime mtime (some date)) ∧
    ∀ date ∈ query.beforedate, compareMtimeToGcharDate localTime mtime (some date) < 0

/-- A time that is not before the one of the times of the query or, without that, not behind the other, each cut to 32 bits: such a
time is not zero. -/
def InOneTime (mtime : UInt64) : Prop :=
  (∀ date ∈ query.afterdate, mtime ≠ 0 ∧ (dateUnix localTime date).toInt64 ≤ mtime.toInt64) ∧
    (query.afterdate = none → ∀ date ∈ query.beforedate, mtime ≠ 0 ∧ mtime.toInt64 ≤ (dateUnix localTime date).toInt64)

/-- What decides the same about a file when its owner and its group are asked for by patterns, by one time, and without their
numbers. -/
structure DecidedAlike (m : MetaData) : Prop where
  /-- Only the files whose names a pattern matches are asked for. -/
  pattern : Matched regexMatch filename query m → InOneTime localTime query m.mtime → filename ≠ none
  /-- The texts for the owner and the group match only themselves. -/
  names : Matched regexMatch filename query m → InOneTime localTime query m.mtime →
    m.owner = some query.owner ∧ m.group = some query.group
  /-- The numbers of the owner and the group are those of their names. -/
  numbers : Matched regexMatch filename query m → InOneTime localTime query m.mtime →
    m.uid = getUintFromString (some query.uid.bytes) ∧ m.gid = getUintFromString (some query.gid.bytes)
  /-- The one time says as much as the date and both times. -/
  times : Matched regexMatch filename query m → InOneTime localTime query m.mtime → InTimes localTime query m.mtime
  /-- The file has its texts, and those of the query match themselves. -/
  itself : OfUser regexMatch filename query m → InTimes localTime query m.mtime → Matched regexMatch filename query m ∧ m.link ≠ none
  /-- Its time is neither zero nor is the time of the query one that cannot be cut. -/
  inside : OfUser regexMatch filename query m → InTimes localTime query m.mtime → InOneTime localTime query m.mtime

/-- A file that one of the two ways asks for. -/
def AskedFor (m : MetaData) : Prop :=
  OfUser regexMatch filename query m ∧ InTimes localTime query m.mtime ∨
    Matched regexMatch filename query m ∧ InOneTime localTime query m.mtime

instance : DecidablePred (OfUser regexMatch filename query) := fun _ => inferInstanceAs (Decidable (_ ∧ _))

instance : DecidablePred (Matched regexMatch filename query) := fun _ => inferInstanceAs (Decidable (_ ∧ _))

instance : DecidablePred (InTimes localTime query) := fun _ => inferInstanceAs (Decidable (_ ∧ _))

instance : DecidablePred (InOneTime localTime query) := fun _ => inferInstanceAs (Decidable (_ ∧ _))

instance : DecidablePred (AskedFor regexMatch localTime filename query) := fun _ => inferInstanceAs (Decidable (_ ∨ _))

/-- The same is decided about each of the records or, for the latest versions, about the newest of those of each name that are asked
for; and each record may be written to a line. -/
structure AgreeOn (collateKeyForFilename : CString → CString) (latest : Bool) (records : List MetaData) : Prop where
  writable : ∀ m ∈ records, Writable m
  decided : ∀ m ∈ records,
    (latest = true → IsNewest collateKeyForFilename (records.filter fun m => AskedFor regexMatch localTime filename query m) m) →
      DecidedAlike regexMatch localTime filename query m

/-- No record that is written as another one differs from it. -/
def LinesTellApart (records : List MetaData) : Prop :=
  ∀ m ∈ records, ∀ m' ∈ records, withoutHashs (asWritten m) = withoutHashs m' → withoutHashs m = withoutHashs m'

/-- The backends answer alike: the lists are the same when the hashs of the files are left out. -/
def AnswerAlike (collateKeyForFilename : CString → CString) (latest : Bool) (stored : List (Bytes × ServerMetaData))
    (reads : List Bytes) : Prop :=
  (fileList collateKeyForFilename (gLibFilters regexMatch localTime filename) query latest reads).map withoutHashs =
    (mongodbFileList regexMatch collateKeyForFilename localTime filename query latest (storedCollection stored)).map withoutHashs

namespace MetaBackendsAux

variable {regexMatch localTime filename query}

/-! ## What is asked for -/

theorem dateSelected_iff {mtime : UInt64} :
    dateSelected (gLibFilters regexMatch localTime filename) query mtime = true ↔ InTimes localTime query mtime := by
  have hafter : ∀ date : CString, compareAfterBeforeDate (gLibFilters regexMatch localTime filename) mtime (some date) true = true ↔
      0 ≤ compareMtimeToGcharDate localTime mtime (some date) := fun date => by
    simp [compareAfterBeforeDate, gLibFilters]
  have hbefore : ∀ date : CString, compareAfterBeforeDate (gLibFilters regexMatch localTime filename) mtime (some date) false = true ↔
      compareMtimeToGcharDate localTime mtime (some date) < 0 := fun date => by
    simp [compareAfterBeforeDate, gLibFilters]
  have hdate : compareMtimeToDate (gLibFilters regexMatch localTime filename) mtime query.date = true ↔
      ∀ date ∈ query.date, ∃ text ∈ formatMtime localTime mtime, date.bytes <+: text.bytes := by
    rcases query.date with _ | date
    · simp [compareMtimeToDate]
    · simp [compareMtimeToDate, gLibFilters, Option.any_eq_true]
  unfold dateSelected InTimes
  rw [Bool.and_eq_true, Bool.and_eq_true, hdate, and_assoc]
  refine and_congr_right fun _ => and_congr ?_ ?_
  · rcases query.afterdate with _ | date
    · simp
    · simp [hafter]
  · rcases query.beforedate with _ | date
    · simp
    · simp [hbefore]

theorem fileSelects_iff_ofUser {m : MetaData} : fileSelects regexMatch localTime filename query m = true ↔
    OfUser regexMatch filename query m ∧ InTimes localTime query m.mtime := by
  unfold fileSelects OfUser
  simp only [Bool.and_eq_true, decide_eq_true_eq, Option.any_eq_true, dateSelected_iff]
  tauto

theorem mongodbSelects_iff_matched {m : MetaData} : mongodbSelects regexMatch localTime filename query m = true ↔
    Matched regexMatch filename query m ∧ InOneTime localTime query m.mtime := by
  have hname : (filename.all fun pattern => m.name.any fun s => regexMatch pattern s) = true ↔
      ∀ pattern ∈ filename, ∃ name ∈ m.name, regexMatch pattern name = true := by
    rcases filename with _ | pattern
    · simp
    · simp [Option.any_eq_true]
  unfold mongodbSelects Matched InOneTime
  simp only [Bool.and_eq_true, Option.any_eq_true, hname]
  rcases query.afterdate with _ | afterdate
  · rcases query.beforedate with _ | beforedate
    · simp [and_assoc]
    · simp only [Bool.and_eq_true, decide_eq_true_eq]
      simp
      tauto
  · simp
    tauto

/-- A file that the backends select alike, and that has a link when they do, is decided alike. -/
theorem decidedAlike_iff {m : MetaData} : DecidedAlike regexMatch localTime filename query m ↔
    fileSelects regexMatch localTime filename query m = mongodbSelects regexMatch localTime filename query m ∧
      (fileSelects regexMatch localTime filename query m = true → m.link ≠ none) := by
  rw [Bool.eq_iff_iff, fileSelects_iff_ofUser, mongodbSelects_iff_matched]
  constructor
  · intro h
    refine ⟨⟨fun hfile => ⟨(h.itself hfile.1 hfile.2).1, h.inside hfile.1 hfile.2⟩, fun hmongodb => ?_⟩,
      fun hfile => (h.itself hfile.1 hfile.2).2⟩
    obtain ⟨howner, hgroup⟩ := h.names hmongodb.1 hmongodb.2
    obtain ⟨pattern, hpattern⟩ := Option.ne_none_iff_exists'.mp (h.pattern hmongodb.1 hmongodb.2)
    obtain ⟨name, hname, hmatch⟩ := hmongodb.1.1 pattern hpattern
    refine ⟨⟨⟨pattern, hpattern, ?_⟩, ?_, ?_, h.numbers hmongodb.1 hmongodb.2⟩, h.times hmongodb.1 hmongodb.2⟩
    · rw [hname, Option.getD_some]
      exact hmatch
    · rw [howner, Option.getD_some]
    · rw [hgroup, Option.getD_some]
  · rintro ⟨hsame, hlink⟩
    -- what matches is of the user, and what is of the user has the texts that match
    have hnames : Matched regexMatch filename query m → InOneTime localTime query m.mtime →
        m.owner = some query.owner ∧ m.group = some query.group := fun hmatched htime => by
      obtain ⟨⟨-, howner, hgroup, -⟩, -⟩ := hsame.mpr ⟨hmatched, htime⟩
      obtain ⟨-, ⟨owner, hsome, -⟩, group, hsome', -⟩ := hmatched
      rw [hsome, Option.getD_some] at howner
      rw [hsome', Option.getD_some] at hgroup
      exact ⟨by rw [hsome, howner], by rw [hsome', hgroup]⟩
    exact {
      pattern := fun hmatched htime => by
        obtain ⟨⟨⟨pattern, hpattern, -⟩, -⟩, -⟩ := hsame.mpr ⟨hmatched, htime⟩
        rw [hpattern]
        exact Option.some_ne_none pattern
      names := hnames
      numbers := fun hmatched htime => (hsame.mpr ⟨hmatched, htime⟩).1.2.2.2
      times := fun hmatched htime => (hsame.mpr ⟨hmatched, htime⟩).2
      itself := fun huser htime => ⟨(hsame.mp ⟨huser, htime⟩).1, hlink ⟨huser, htime⟩⟩
      inside := fun huser htime => (hsame.mp ⟨huser, htime⟩).2 }

/-! ## The file backend -/

/-- The line is the same. -/
theorem smetaLine_asWritten (m : MetaData) : smetaLine (asWritten m) = smetaLine m := by
  have hprint : ∀ s : Option CString, printString (some (s.getD (CString.lit "(null)"))) = printString s := fun s => by
    cases s <;> rfl
  have hencode : ∀ s : Option CString, (encodeToBase64 (some (s.getD (CString.lit "")))).getD (CString.lit "") =
      (encodeToBase64 s).getD (CString.lit "") := fun s => by
    cases s <;> rfl
  simp only [smetaLine, smetaFields, asWritten, hprint, hencode]

theorem storable_asWritten {m : MetaData} (h : Writable m) : Storable (asWritten m) where
  owner := by
    refine ⟨_, rfl, ?_⟩
    cases howner : m.owner with
    | none => exact List.all_iff_forall_prop.mp (by decide)
    | some s => exact h.owner s howner
  group := by
    refine ⟨_, rfl, ?_⟩
    cases hgroup : m.group with
    | none => exact List.all_iff_forall_prop.mp (by decide)
    | some s => exact h.group s hgroup
  name := ⟨_, rfl⟩
  link := ⟨_, rfl⟩
  hashs := h.hashs

theorem fileSelects_iff {m : MetaData} : fileSelects regexMatch localTime filename query m = true ↔
    Selected (gLibFilters regexMatch localTime filename) query (asWritten m) := by
  unfold fileSelects
  simp only [Bool.and_eq_true, decide_eq_true_eq]
  constructor
  · rintro ⟨⟨⟨⟨⟨hname, hdate⟩, howner⟩, hgroup⟩, huid⟩, hgid⟩
    refine ⟨fun s hs => ?_, hdate, congrArg some howner, congrArg some hgroup, huid, hgid⟩
    rw [← Option.some.inj hs]
    exact hname
  · rintro ⟨hname, hdate, howner, hgroup, huid, hgid⟩
    exact ⟨⟨⟨⟨⟨hname _ rfl, hdate⟩, Option.some.inj howner⟩, Option.some.inj hgroup⟩, huid⟩, hgid⟩

/-- What comes back from the line of a record, but for its hashs. -/
theorem map_extractFromLine {m : MetaData} (h : Writable m) :
    (extractFromLine (gLibFilters regexMatch localTime filename) query (smetaLine m)).map withoutHashs =
      if fileSelects regexMatch localTime filename query m then some (withoutHashs (asWritten m)) else none := by
  obtain ⟨owner, group, name, link, hs, hvalues⟩ := FlatFileAux.Storable.values (storable_asWritten h)
  rw [← smetaLine_asWritten, hvalues.extractFromLine_eq]
  by_cases hselects : fileSelects regexMatch localTime filename query m
  · rw [if_pos hselects, if_pos (fileSelects_iff.mp hselects)]
    rfl
  · rw [if_neg hselects, if_neg fun hselected => hselects (fileSelects_iff.mpr hselected), Option.map_none]

/-- Only what is stored changes the file. -/
theorem foldl_fileStoreSmeta_filter (smetas : List ServerMetaData) (file : Bytes) :
    (smetas.filter fun smeta => smeta.hostname.isSome && smeta.metaData.isSome).foldl fileStoreSmeta file =
      smetas.foldl fileStoreSmeta file := by
  induction smetas generalizing file with
  | nil => rfl
  | cons smeta smetas ih =>
    rcases smeta with ⟨_ | hostname, dataSent, _ | m⟩ <;> simpa [fileStoreSmeta] using ih _

/-- The records that the file backend reads, but for their hashs. -/
theorem map_readRecords {smetas : List ServerMetaData} {reads : List Bytes}
    (hwritable : ∀ m ∈ storedRecords smetas, Writable m) (hreads : IsReading (smetas.foldl fileStoreSmeta []) reads) :
    (readRecords (gLibFilters regexMatch localTime filename) query reads).map withoutHashs =
      ((storedRecords smetas).filter (fileSelects regexMatch localTime filename query)).map
        fun m => withoutHashs (asWritten m) := by
  rw [← foldl_fileStoreSmeta_filter] at hreads
  have hlines : ∀ smeta ∈ smetas.filter (fun smeta => smeta.hostname.isSome && smeta.metaData.isSome),
      smeta.hostname ≠ none ∧ ∃ m, smeta.metaData = some m ∧ LineOk (smetaLine m) := fun smeta hsmeta => by
    obtain ⟨hsmeta, hsome⟩ := List.mem_filter.mp hsmeta
    rw [Bool.and_eq_true, Option.isSome_iff_exists, Option.isSome_iff_exists] at hsome
    obtain ⟨⟨hostname, hhostname⟩, m, hm⟩ := hsome
    have hrecord : m ∈ storedRecords smetas :=
      List.mem_filterMap.mpr ⟨smeta, hsmeta, by rw [hhostname, Option.bind_some, hm]⟩
    refine ⟨by simp [hhostname], m, hm, ?_⟩
    rw [← smetaLine_asWritten]
    exact FlatFileAux.Storable.line (storable_asWritten (hwritable m hrecord))
  have hrecords : (smetas.filter fun smeta => smeta.hostname.isSome && smeta.metaData.isSome).filterMap (fun smeta =>
      smeta.metaData.bind fun m => extractFromLine (gLibFilters regexMatch localTime filename) query (smetaLine m)) =
      (storedRecords smetas).filterMap fun m =>
        extractFromLine (gLibFilters regexMatch localTime filename) query (smetaLine m) := by
    unfold storedRecords
    rw [List.filterMap_filter, List.filterMap_filterMap]
    refine congrArg (fun f => smetas.filterMap f) (funext fun smeta => ?_)
    rcases smeta with ⟨_ | hostname, dataSent, _ | m⟩ <;> rfl
  rw [NewestAux.readRecords_stored _ _ hlines hreads, hrecords, List.map_filterMap, ← List.filterMap_eq_map,
    List.filterMap_filter]
  exact List.filterMap_congr fun m hm => map_extractFromLine (hwritable m hm)

/-! ## The MongoDB backend -/

/-- The property of the time that is asked for. -/
def timeProperty (localTime : LocalTime) (query : Query) : Option SearchProperty :=
  match query.afterdate, query.beforedate with
  | some date, _ => some (SearchProperty.greaterThanEqual (dateUnix localTime date))
  | none, some date => some (SearchProperty.lessThanEqual (dateUnix localTime date))
  | none, none => none

/-- Of the two times of a query the one before which files are asked for is lost when both are there. -/
theorem lastValues_initSearchPropertyBson : lastValues (initSearchPropertyBson localTime filename query) =
    (filename.map fun pattern => (LABEL_NAME, SearchProperty.regex pattern)).toList ++
      ((timeProperty localTime query).map fun property => (LABEL_MTIME, property)).toList ++
      [(LABEL_OWNER, SearchProperty.regex query.owner), (LABEL_GROUP, SearchProperty.regex query.group)] := by
  rcases query with ⟨uid, gid, owner, group, date, _ | afterdate, _ | beforedate⟩ <;> cases filename <;>
    simp [initSearchPropertyBson, timeProperty, appendRegex, lastValues, LABEL_NAME, LABEL_OWNER, LABEL_GROUP, LABEL_MTIME]

/-- A document is found when the backend selects its record. -/
theorem isFound_initMetaBson (oid : Bytes) (hostname : Option CString) (dataSent : Bool) (m : MetaData) :
    isFound regexMatch (initSearchPropertyBson localTime filename query) (initMetaBson oid ⟨hostname, dataSent, some m⟩) =
      mongodbSelects regexMatch localTime filename query m := by
  have hget := MongodbAux.holds_initMetaBson oid hostname dataSent m
  have hname := (hget LABEL_NAME).trans (show _ = m.name.map Bson.utf8 by simp [LABEL_NAME])
  have howner := (hget LABEL_OWNER).trans (show _ = m.owner.map Bson.utf8 by simp [LABEL_OWNER])
  have hgroup := (hget LABEL_GROUP).trans (show _ = m.group.map Bson.utf8 by simp [LABEL_GROUP])
  have hmtime := (hget LABEL_MTIME).trans
    (show _ = if m.mtime = 0 then none else some (Bson.int64 m.mtime.toInt64) by simp [LABEL_MTIME])
  have hregex : ∀ (pattern : CString) (value : Option CString),
      (SearchProperty.regex pattern).holds regexMatch (value.map Bson.utf8) = value.any fun s => regexMatch pattern s :=
    fun pattern value => by cases value <;> rfl
  have hafter : ∀ n : Int32, (SearchProperty.greaterThanEqual n).holds regexMatch
      (if m.mtime = 0 then none else some (Bson.int64 m.mtime.toInt64)) =
        (m.mtime ≠ 0 && n.toInt64 ≤ m.mtime.toInt64) := fun n => by
    by_cases hzero : m.mtime = 0 <;> simp [hzero, SearchProperty.holds]
  have hbefore : ∀ n : Int32, (SearchProperty.lessThanEqual n).holds regexMatch
      (if m.mtime = 0 then none else some (Bson.int64 m.mtime.toInt64)) =
        (m.mtime ≠ 0 && m.mtime.toInt64 ≤ n.toInt64) := fun n => by
    by_cases hzero : m.mtime = 0 <;> simp [hzero, SearchProperty.holds]
  unfold isFound
  rw [lastValues_initSearchPropertyBson, List.all_append, List.all_append]
  rcases query with ⟨uid, gid, owner, group, date, _ | afterdate, _ | beforedate⟩ <;> cases filename <;>
    simp [mongodbSelects, timeProperty, hname, howner, hgroup, hmtime, hregex, hafter, hbefore, Bool.and_assoc]

/-- What comes back from a document, but for its hashs. -/
theorem withoutHashs_initMetaDataFromBson (oid : Bytes) (hostname : Option CString) (dataSent : Bool) {m : MetaData}
    (h : Writable m) :
    withoutHashs (initMetaDataFromBson initMetaData (initMetaBson oid ⟨hostname, dataSent, some m⟩)) = withoutHashs m := by
  obtain ⟨hs, hhs⟩ := h.hashs.exists_hashs
  rw [MongodbAux.initMetaDataFromBson_initMetaBson oid hostname dataSent hhs]
  rfl

/-- The records that the MongoDB backend finds, but for their hashs, the last first. -/
theorem map_found {stored : List (Bytes × ServerMetaData)} (hwritable : ∀ m ∈ storedRecords (stored.map Prod.snd), Writable m) :
    (((storedCollection stored).filter (isFound regexMatch (initSearchPropertyBson localTime filename query))).foldl
      (fun fileList doc => initMetaDataFromBson initMetaData doc :: fileList) []).map withoutHashs =
    (((storedRecords (stored.map Prod.snd)).filter (mongodbSelects regexMatch localTime filename query)).map
      withoutHashs).reverse := by
  induction stored using List.reverseRecOn with
  | nil => rfl
  | append_singleton stored element ih =>
    have hsplit : storedRecords ((stored ++ [element]).map Prod.snd) = storedRecords (stored.map Prod.snd) ++
        (element.2.hostname.bind fun _ => element.2.metaData).toList := by
      simp only [storedRecords, List.map_append, List.filterMap_append, List.map_cons, List.map_nil, List.filterMap_cons,
        List.filterMap_nil]
      cases element.2.hostname.bind fun _ => element.2.metaData <;> rfl
    have hinsert : storedCollection (stored ++ [element]) = mongodbStoreSmeta element.1 (storedCollection stored) element.2 := by
      unfold storedCollection
      rw [List.foldl_append, List.foldl_cons, List.foldl_nil]
    rw [hsplit] at hwritable ⊢
    have hih := ih fun m hm => hwritable m (List.mem_append_left _ hm)
    rcases element with ⟨oid, _ | hostname, dataSent, _ | m⟩ <;> rw [hinsert]
    · simpa [mongodbStoreSmeta] using hih
    · simpa [mongodbStoreSmeta] using hih
    · simpa [mongodbStoreSmeta] using hih
    · have hm := withoutHashs_initMetaDataFromBson oid (some hostname) dataSent (hwritable m (by simp))
      have hdocument : mongodbStoreSmeta oid (storedCollection stored) ⟨some hostname, dataSent, some m⟩ =
          storedCollection stored ++ [initMetaBson oid ⟨some hostname, dataSent, some m⟩] := rfl
      rw [hdocument, List.filter_append, List.foldl_append, List.filter_append, List.filter_cons, isFound_initMetaBson]
      cases hselects : mongodbSelects regexMatch localTime filename query m with
      | false => simpa [hselects] using hih
      | true =>
        simp only [if_true, List.filter_nil, List.foldl_cons, List.foldl_nil, List.map_cons, hm, hih]
        simp [hselects]

/-! ## The lists -/

variable {collateKeyForFilename : CString → CString}

/-- What keeps the name and the time may be done before a list is sorted and older versions are left out. -/
theorem map_withoutHashs (latest : Bool) (list : List MetaData) :
    (if latest then keepLatestsMetaDataInList collateKeyForFilename (gListSort (compareMetaData collateKeyForFilename) list)
      else gListSort (compareMetaData collateKeyForFilename) list).map withoutHashs =
    if latest then
      keepLatestsMetaDataInList collateKeyForFilename
        (gListSort (compareMetaData collateKeyForFilename) (list.map withoutHashs))
    else gListSort (compareMetaData collateKeyForFilename) (list.map withoutHashs) := by
  rw [← map_gListSort (f := withoutHashs) (fun _ => rfl) fun _ => rfl]
  cases latest with
  | false => rfl
  | true => exact map_keepLatests (f := withoutHashs) (fun _ => rfl) (fun _ => rfl) _

variable {stored : List (Bytes × ServerMetaData)} {reads : List Bytes}

/-- The answers in terms of the records that are selected. -/
theorem answerAlike_iff_lists (latest : Bool) (hwritable : ∀ m ∈ storedRecords (stored.map Prod.snd), Writable m)
    (hreads : IsReading ((stored.map Prod.snd).foldl fileStoreSmeta []) reads) :
    let records := storedRecords (stored.map Prod.snd)
    let fileRecords := (records.filter (fileSelects regexMatch localTime filename query)).map fun m => withoutHashs (asWritten m)
    let mongodbRecords := (records.filter (mongodbSelects regexMatch localTime filename query)).map withoutHashs
    AnswerAlike regexMatch localTime filename query collateKeyForFilename latest stored reads ↔
      (if latest then
        keepLatestsMetaDataInList collateKeyForFilename
          (gListSort (compareMetaData collateKeyForFilename) fileRecords.reverse) =
        keepLatestsMetaDataInList collateKeyForFilename
          (gListSort (compareMetaData collateKeyForFilename) mongodbRecords.reverse)
      else gListSort (compareMetaData collateKeyForFilename) fileRecords.reverse =
        gListSort (compareMetaData collateKeyForFilename) mongodbRecords.reverse) := by
  intro records fileRecords mongodbRecords
  unfold AnswerAlike fileList mongodbFileList
  rw [map_withoutHashs, map_withoutHashs, map_found hwritable, getFileListFromRegexAndQuery_eq, List.map_reverse,
    map_readRecords hwritable hreads]
  cases latest <;> rfl

/-- Records of which the MongoDB backend selects as many as the file backend, and none that the other does not. -/
theorem selects_of_length_eq {p q : MetaData → Bool} {records : List MetaData} (hpq : ∀ m ∈ records, q m = true → p m = true)
    (hlength : (records.filter p).length = (records.filter q).length) : ∀ m ∈ records, p m = true → q m = true := by
  have hboth : (records.filter p).filter q = records.filter q := by
    rw [List.filter_filter]
    exact List.filter_congr fun m hm => by
      cases hq : q m with
      | false => simp
      | true => simp [hpq m hm hq]
  have hall := List.filter_sublist.eq_of_length (by rw [hboth, hlength] : ((records.filter p).filter q).length = _)
  exact fun m hm hp => List.filter_eq_self.mp hall m (List.mem_filter.mpr ⟨hm, hp⟩)

/-- A record of which everything is there is the one that is written. -/
theorem asWritten_eq {m : MetaData} (howner : m.owner.isSome) (hgroup : m.group.isSome) (hname : m.name.isSome)
    (hlink : m.link.isSome) : asWritten m = m := by
  obtain ⟨owner, howner⟩ := Option.isSome_iff_exists.mp howner
  obtain ⟨group, hgroup⟩ := Option.isSome_iff_exists.mp hgroup
  obtain ⟨name, hname⟩ := Option.isSome_iff_exists.mp hname
  obtain ⟨link, hlink⟩ := Option.isSome_iff_exists.mp hlink
  simp only [asWritten, howner, hgroup, hname, hlink, Option.getD_some]
  rw [← howner, ← hgroup, ← hname, ← hlink]

/-- A record that both backends select and that has a link is the one that is written. -/
theorem asWritten_eq_of_selects {m : MetaData} (hfile : fileSelects regexMatch localTime filename query m = true)
    (hmongodb : mongodbSelects regexMatch localTime filename query m = true) (hlink : m.link ≠ none) : asWritten m = m := by
  simp only [fileSelects, mongodbSelects, Bool.and_eq_true, Option.any_eq_true] at hfile hmongodb
  obtain ⟨⟨⟨⟨⟨⟨pattern, hpattern, -⟩, -⟩, -⟩, -⟩, -⟩, -⟩ := hfile
  obtain ⟨⟨⟨hname, -⟩, owner, howner, -⟩, group, hgroup, -⟩ := hmongodb
  rw [hpattern, Option.all_some, Option.any_eq_true] at hname
  obtain ⟨name, hname, -⟩ := hname
  exact asWritten_eq (by simp [howner]) (by simp [hgroup]) (by simp [hname]) (Option.isSome_iff_ne_none.mpr hlink)

/-- When both backends answer the same records, what MongoDB selects comes back from the file as some record, so nothing of it is
`NULL`. -/
theorem fileSelects_of_perm {records : List MetaData}
    (hperm : ((records.filter (fileSelects regexMatch localTime filename query)).map fun m => withoutHashs (asWritten m)).Perm
      ((records.filter (mongodbSelects regexMatch localTime filename query)).map withoutHashs)) {m : MetaData} (hm : m ∈ records)
    (hmongodb : mongodbSelects regexMatch localTime filename query m = true) :
    fileSelects regexMatch localTime filename query m = true ∧ m.link ≠ none := by
  have hmem := hperm.mem_iff.mpr (List.mem_map_of_mem (List.mem_filter.mpr ⟨hm, hmongodb⟩))
  obtain ⟨m', hm', heq⟩ := List.mem_map.mp hmem
  have hfields : ∀ {α : Type} (field : MetaData → α), field (withoutHashs (asWritten m')) = field (withoutHashs m) :=
    fun field => congrArg field heq
  have howner : some (m'.owner.getD (CString.lit "(null)")) = m.owner := hfields MetaData.owner
  have hgroup : some (m'.group.getD (CString.lit "(null)")) = m.group := hfields MetaData.group
  have hname : some (m'.name.getD (CString.lit "")) = m.name := hfields MetaData.name
  have hlink : some (m'.link.getD (CString.lit "")) = m.link := hfields MetaData.link
  have hfile := (List.mem_filter.mp hm').2
  refine ⟨?_, by rw [← hlink]; exact Option.some_ne_none _⟩
  unfold fileSelects at hfile ⊢
  rw [← howner, ← hgroup, ← hname, ← show m'.mtime = m.mtime from hfields MetaData.mtime,
    ← show m'.uid = m.uid from hfields MetaData.uid, ← show m'.gid = m.gid from hfields MetaData.gid]
  exact hfile

/-- Lists that are the same when they were turned over and sorted have the same elements. -/
theorem perm_of_gListSort_eq {list list' : List MetaData}
    (h : gListSort (compareMetaData collateKeyForFilename) list.reverse =
      gListSort (compareMetaData collateKeyForFilename) list'.reverse) : list.Perm list' := by
  rw [gListSort_compareMetaData, gListSort_compareMetaData] at h
  have hsorted := ((List.perm_insertionSort _ _).symm.trans (List.Perm.of_eq h)).trans (List.perm_insertionSort _ _)
  exact ((List.reverse_perm _).symm.trans hsorted).trans (List.reverse_perm _)

/-- The lists of all versions are the same when the same records are selected and each has a link. -/
theorem allVersions_alike_iff (records : List MetaData) :
    gListSort (compareMetaData collateKeyForFilename) ((records.filter (fileSelects regexMatch localTime filename query)).map
        fun m => withoutHashs (asWritten m)).reverse =
      gListSort (compareMetaData collateKeyForFilename)
        ((records.filter (mongodbSelects regexMatch localTime filename query)).map withoutHashs).reverse ↔
    ∀ m ∈ records, fileSelects regexMatch localTime filename query m = mongodbSelects regexMatch localTime filename query m ∧
      (fileSelects regexMatch localTime filename query m = true → m.link ≠ none) := by
  constructor
  · intro hsame
    have hperm := perm_of_gListSort_eq hsame
    have hselected : ∀ m ∈ records, mongodbSelects regexMatch localTime filename query m = true →
        fileSelects regexMatch localTime filename query m = true ∧ m.link ≠ none := fun _ => fileSelects_of_perm hperm
    have hmore := selects_of_length_eq (fun m hm hmongodb => (hselected m hm hmongodb).1) (by simpa using hperm.length_eq)
    intro m hm
    refine ⟨Bool.eq_iff_iff.mpr ⟨hmore m hm, fun hmongodb => (hselected m hm hmongodb).1⟩, fun hfile => ?_⟩
    exact (hselected m hm (hmore m hm hfile)).2
  · intro hall
    have hrecords : (records.filter (fileSelects regexMatch localTime filename query)).map
        (fun m => withoutHashs (asWritten m)) =
        (records.filter (mongodbSelects regexMatch localTime filename query)).map withoutHashs := by
      rw [List.filter_congr fun m hm => (hall m hm).1]
      refine List.map_congr_left fun m hm => ?_
      obtain ⟨hm, hmongodb⟩ := List.mem_filter.mp hm
      have hfile := (hall m hm).1.trans hmongodb
      rw [asWritten_eq_of_selects hfile hmongodb ((hall m hm).2 hfile)]
    rw [hrecords]

/-- The lists of the latest versions are the same when the newest versions of what is selected are. -/
theorem latest_alike_iff (records records' : List MetaData) :
    keepLatestsMetaDataInList collateKeyForFilename (gListSort (compareMetaData collateKeyForFilename) records.reverse) =
      keepLatestsMetaDataInList collateKeyForFilename (gListSort (compareMetaData collateKeyForFilename) records'.reverse) ↔
    ∀ m, IsNewest collateKeyForFilename records m ↔ IsNewest collateKeyForFilename records' m := by
  constructor
  · intro hsame m
    rw [← mem_keepLatests_iff, ← mem_keepLatests_iff, hsame]
  · intro hall
    have hsorted : ∀ list : List MetaData,
        (gListSort (compareMetaData collateKeyForFilename) list).Pairwise (NotBehind collateKeyForFilename) := fun list => by
      rw [gListSort_compareMetaData]
      exact List.pairwise_insertionSort _ _
    refine keepLatests_ext (hsorted _) (hsorted _) fun m => ?_
    rw [mem_keepLatests_iff, mem_keepLatests_iff, hall]

/-! ## The newest of what is asked for -/

theorem askedFor_iff {m : MetaData} : AskedFor regexMatch localTime filename query m ↔
    fileSelects regexMatch localTime filename query m = true ∨ mongodbSelects regexMatch localTime filename query m = true := by
  rw [fileSelects_iff_ofUser, mongodbSelects_iff_matched]
  rfl

/-- A file that is asked for and decided alike is selected by both backends, and is the one that is written. -/
theorem DecidedAlike.both {m : MetaData} (h : DecidedAlike regexMatch localTime filename query m)
    (hasked : AskedFor regexMatch localTime filename query m) :
    fileSelects regexMatch localTime filename query m = true ∧ mongodbSelects regexMatch localTime filename query m = true ∧
      asWritten m = m := by
  obtain ⟨hsame, hlink⟩ := decidedAlike_iff.mp h
  have hfile : fileSelects regexMatch localTime filename query m = true := (askedFor_iff.mp hasked).elim id hsame.trans
  have hmongodb := hsame.symm.trans hfile
  exact ⟨hfile, hmongodb, asWritten_eq_of_selects hfile hmongodb (hlink hfile)⟩

/-- The key of the name of a record does not change when it is written. -/
theorem nameKey_asWritten (hcollate : collateKeyForFilename (CString.lit "") = CString.lit "") (m : MetaData) :
    nameKey collateKeyForFilename (withoutHashs (asWritten m)) = nameKey collateKeyForFilename m := by
  show (((some (m.name.getD (CString.lit ""))).map collateKeyForFilename).getD (CString.lit "")).bytes = _
  unfold nameKey
  rcases m.name with _ | name
  · exact congrArg CString.bytes hcollate
  · rfl

/-- The newest version that is asked for is the newest of a selection that it is in. -/
theorem isNewest_selected {records : List MetaData} {w : MetaData}
    (h : IsNewest collateKeyForFilename (records.filter fun m => AskedFor regexMatch localTime filename query m) w)
    {p : MetaData → Bool} (hp : ∀ m, p m = true → AskedFor regexMatch localTime filename query m) (hw : p w = true) :
    IsNewest collateKeyForFilename (records.filter p) w := by
  have hselected : (records.filter fun m => AskedFor regexMatch localTime filename query m).filter p = records.filter p := by
    rw [List.filter_filter]
    refine List.filter_congr fun m _ => ?_
    rcases hm : p m
    · exact Bool.false_and _
    · rw [Bool.true_and, decide_eq_true (hp m hm)]
  exact hselected ▸ h.filter hw

/-- What decides about a record are fields that are answered. -/
theorem selects_of_withoutHashs {m w : MetaData} (h : withoutHashs m = withoutHashs w) :
    fileSelects regexMatch localTime filename query m = fileSelects regexMatch localTime filename query w ∧
      mongodbSelects regexMatch localTime filename query m = mongodbSelects regexMatch localTime filename query w :=
  ⟨show fileSelects regexMatch localTime filename query (withoutHashs m) = _ from h ▸ rfl,
    show mongodbSelects regexMatch localTime filename query (withoutHashs m) = _ from h ▸ rfl⟩

section

variable (hcollate : collateKeyForFilename (CString.lit "") = CString.lit "") {records : List MetaData}

include hcollate

/-- What the newest version that is asked for is answered as by the file backend, and by the MongoDB backend. -/
theorem isNewest_answered {w : MetaData}
    (h : IsNewest collateKeyForFilename (records.filter fun m => AskedFor regexMatch localTime filename query m) w) :
    (fileSelects regexMatch localTime filename query w = true →
      IsNewest collateKeyForFilename ((records.filter (fileSelects regexMatch localTime filename query)).map
        fun m => withoutHashs (asWritten m)) (withoutHashs (asWritten w))) ∧
    (mongodbSelects regexMatch localTime filename query w = true →
      IsNewest collateKeyForFilename ((records.filter (mongodbSelects regexMatch localTime filename query)).map
        withoutHashs) (withoutHashs w)) := by
  constructor
  · intro hfile
    exact IsNewest.map (nameKey_asWritten hcollate) (fun _ => rfl)
      (isNewest_selected h (fun m hm => askedFor_iff.mpr (Or.inl hm)) hfile)
  · intro hmongodb
    exact @IsNewest.map collateKeyForFilename withoutHashs (fun _ => rfl) (fun _ => rfl) _ _
      (isNewest_selected h (fun m hm => askedFor_iff.mpr (Or.inr hm)) hmongodb)

/-- Where the newest versions that are asked for are decided alike, they are the newest ones of both selections. -/
theorem newest_alike_of_decided
    (hdecided : ∀ m, IsNewest collateKeyForFilename (records.filter fun m => AskedFor regexMatch localTime filename query m) m →
      DecidedAlike regexMatch localTime filename query m) (x : MetaData) :
    IsNewest collateKeyForFilename ((records.filter (fileSelects regexMatch localTime filename query)).map
        fun m => withoutHashs (asWritten m)) x ↔
      IsNewest collateKeyForFilename ((records.filter (mongodbSelects regexMatch localTime filename query)).map withoutHashs) x := by
  have hnewest : ∀ a ∈ records, AskedFor regexMatch localTime filename query a → ∃ w,
      nameKey collateKeyForFilename w = nameKey collateKeyForFilename a ∧
      IsNewest collateKeyForFilename ((records.filter (fileSelects regexMatch localTime filename query)).map
        fun m => withoutHashs (asWritten m)) (withoutHashs w) ∧
      IsNewest collateKeyForFilename ((records.filter (mongodbSelects regexMatch localTime filename query)).map withoutHashs)
        (withoutHashs w) := by
    intro a ha hasked
    have hmem : a ∈ records.filter fun m => AskedFor regexMatch localTime filename query m :=
      List.mem_filter.mpr ⟨ha, decide_eq_true hasked⟩
    obtain ⟨w, hw, hkey⟩ := @exists_isNewest collateKeyForFilename _ a hmem
    obtain ⟨hfile, hmongodb, hwritten⟩ := DecidedAlike.both (hdecided w hw) (of_decide_eq_true (List.mem_filter.mp hw.mem).2)
    obtain ⟨hanswered, hanswered'⟩ := isNewest_answered hcollate hw
    refine ⟨w, hkey, ?_, hanswered' hmongodb⟩
    have hthere := hanswered hfile
    rwa [hwritten] at hthere
  constructor
  · intro hx
    obtain ⟨a, ha, rfl⟩ := List.mem_map.mp hx.mem
    obtain ⟨ha, hfile⟩ := List.mem_filter.mp ha
    obtain ⟨w, hkey, hthere, hthere'⟩ := hnewest a ha (askedFor_iff.mpr (Or.inl hfile))
    have hsame : withoutHashs (asWritten a) = withoutHashs w :=
      hx.unique hthere ((nameKey_asWritten hcollate a).trans hkey.symm)
    rwa [hsame]
  · intro hx
    obtain ⟨a, ha, rfl⟩ := List.mem_map.mp hx.mem
    obtain ⟨ha, hmongodb⟩ := List.mem_filter.mp ha
    obtain ⟨w, hkey, hthere, hthere'⟩ := hnewest a ha (askedFor_iff.mpr (Or.inr hmongodb))
    have hsame : withoutHashs a = withoutHashs w := hx.unique hthere' hkey.symm
    rwa [hsame]

/-- Where the newest ones of both selections are the same, the newest versions that are asked for are decided alike. -/
theorem decided_of_newest_alike (hlines : LinesTellApart records)
    (hsame : ∀ x, IsNewest collateKeyForFilename ((records.filter (fileSelects regexMatch localTime filename query)).map
        fun m => withoutHashs (asWritten m)) x ↔
      IsNewest collateKeyForFilename ((records.filter (mongodbSelects regexMatch localTime filename query)).map withoutHashs) x)
    {w : MetaData}
    (hw : IsNewest collateKeyForFilename (records.filter fun m => AskedFor regexMatch localTime filename query m) w) :
    DecidedAlike regexMatch localTime filename query w := by
  obtain ⟨hanswered, hanswered'⟩ := isNewest_answered hcollate hw
  obtain ⟨hrecord, hasked⟩ := List.mem_filter.mp hw.mem
  have hlink : ∀ m, withoutHashs (asWritten m) = withoutHashs w → w.link ≠ none := fun m h => by
    have hwritten : some (m.link.getD (CString.lit "")) = w.link := congrArg MetaData.link h
    rw [← hwritten]
    exact Option.some_ne_none _
  -- the same record, but for its hashs, is selected by the other backend
  refine decidedAlike_iff.mpr ?_
  rcases askedFor_iff.mp (of_decide_eq_true hasked) with hfile | hmongodb
  · obtain ⟨m, hm, hanswer⟩ := List.mem_map.mp ((hsame _).mp (hanswered hfile)).mem
    obtain ⟨hm, hmongodb⟩ := List.mem_filter.mp hm
    have hrecords := hlines w hrecord m hm hanswer.symm
    exact ⟨hfile.trans ((selects_of_withoutHashs hrecords).2.trans hmongodb).symm,
      fun _ => hlink w (hanswer.symm.trans hrecords.symm)⟩
  · obtain ⟨m, hm, hanswer⟩ := List.mem_map.mp ((hsame _).mpr (hanswered' hmongodb)).mem
    obtain ⟨hm, hfile⟩ := List.mem_filter.mp hm
    have hrecords := hlines m hm w hrecord hanswer
    exact ⟨((selects_of_withoutHashs hrecords).1.symm.trans hfile).trans hmongodb.symm, fun _ => hlink m hanswer⟩

end

end MetaBackendsAux

open MetaBackendsAux

/-- The two backends answer a query alike when each record may be written to a line and the same is decided about it, for the latest
versions about the newest record of each name that is asked for: the texts of the query for the owner and the group match only
themselves, their numbers are those of their names, and the one time that MongoDB compares with, cut to 32 bits and included, says as
much as the date and both times. They answer alike only then, when the records may be written and, for the latest versions, none is
written as another one. -/
theorem answerAlike_iff (collateKeyForFilename : CString → CString)
    (hcollate : collateKeyForFilename (CString.lit "") = CString.lit "") {stored : List (Bytes × ServerMetaData)}
    {reads : List Bytes} (hreads : IsReading ((stored.map Prod.snd).foldl fileStoreSmeta []) reads) (latest : Bool) :
    let records := storedRecords (stored.map Prod.snd)
    (AgreeOn regexMatch localTime filename query collateKeyForFilename latest records →
      AnswerAlike regexMatch localTime filename query collateKeyForFilename latest stored reads) ∧
    (AnswerAlike regexMatch localTime filename query collateKeyForFilename latest stored reads →
      (∀ m ∈ records, Writable m) → (latest = true → LinesTellApart records) →
        AgreeOn regexMatch localTime filename query collateKeyForFilename latest records) := by
  intro records
  rcases latest with _ | _
  · constructor
    · intro hagree
      refine (answerAlike_iff_lists false hagree.writable hreads).mpr ((allVersions_alike_iff _).mpr fun m hm => ?_)
      exact decidedAlike_iff.mp (hagree.decided m hm fun hlatest => absurd hlatest Bool.false_ne_true)
    · intro halike hwritable _
      have hall := (allVersions_alike_iff _).mp ((answerAlike_iff_lists false hwritable hreads).mp halike)
      exact ⟨hwritable, fun m hm _ => decidedAlike_iff.mpr (hall m hm)⟩
  · constructor
    · intro hagree
      refine (answerAlike_iff_lists true hagree.writable hreads).mpr ((latest_alike_iff _ _).mpr ?_)
      exact newest_alike_of_decided hcollate fun m hm => hagree.decided m (List.mem_of_mem_filter hm.mem) fun _ => hm
    · intro halike hwritable hlines
      have hsame := (latest_alike_iff _ _).mp ((answerAlike_iff_lists true hwritable hreads).mp halike)
      exact ⟨hwritable, fun m _ hnewest => decided_of_newest_alike hcollate (hlines rfl) hsame (hnewest rfl)⟩

/-- Without dates the same is decided about a record that has its texts when the owner and the group that are asked for match its own
as patterns only when they are these, and their numbers are those of their names. -/
theorem decidedAlike_of_plain (hpattern : filename ≠ none)
    (hdates : query.date = none ∧ query.afterdate = none ∧ query.beforedate = none) {m : MetaData}
    (htexts : m.name ≠ none ∧ m.owner ≠ none ∧ m.group ≠ none ∧ m.link ≠ none)
    (howner : ∀ owner ∈ m.owner, regexMatch query.owner owner = true ↔ owner = query.owner)
    (hgroup : ∀ group ∈ m.group, regexMatch query.group group = true ↔ group = query.group)
    (hnumbers : m.owner = some query.owner → m.group = some query.group →
      m.uid = getUintFromString (some query.uid.bytes) ∧ m.gid = getUintFromString (some query.gid.bytes)) :
    DecidedAlike regexMatch localTime filename query m := by
  obtain ⟨hdate, hafter, hbefore⟩ := hdates
  obtain ⟨hname, hownerSome, hgroupSome, hlink⟩ := htexts
  obtain ⟨name, hname⟩ := Option.ne_none_iff_exists'.mp hname
  obtain ⟨owner, hownerSome⟩ := Option.ne_none_iff_exists'.mp hownerSome
  obtain ⟨group, hgroupSome⟩ := Option.ne_none_iff_exists'.mp hgroupSome
  have hinTimes : InTimes localTime query m.mtime := by
    simp [InTimes, hdate, hafter, hbefore]
  have hinOneTime : InOneTime localTime query m.mtime := by
    simp [InOneTime, hafter, hbefore]
  have hnames : Matched regexMatch filename query m → m.owner = some query.owner ∧ m.group = some query.group := by
    rintro ⟨-, ⟨owner', howner', hmatch⟩, group', hgroup', hmatch'⟩
    exact ⟨(howner owner' howner').mp hmatch ▸ howner', (hgroup group' hgroup').mp hmatch' ▸ hgroup'⟩
  exact {
    pattern := fun _ _ => hpattern
    names := fun hmatched _ => hnames hmatched
    numbers := fun hmatched _ => hnumbers (hnames hmatched).1 (hnames hmatched).2
    times := fun _ _ => hinTimes
    itself := by
      rintro ⟨⟨pattern, hpattern, hmatch⟩, hqueryOwner, hqueryGroup, -⟩ -
      rw [hname, Option.getD_some] at hmatch
      rw [hownerSome, Option.getD_some] at hqueryOwner
      rw [hgroupSome, Option.getD_some] at hqueryGroup
      refine ⟨⟨fun pattern' hpattern' => ⟨name, hname, ?_⟩, ⟨owner, hownerSome, (howner owner hownerSome).mpr hqueryOwner⟩,
        group, hgroupSome, (hgroup group hgroupSome).mpr hqueryGroup⟩, hlink⟩
      rwa [← Option.some.inj (hpattern.symm.trans hpattern')]
    inside := fun _ _ => hinOneTime }

end

/-- An expression without special characters matches where it stands in a text. -/
def plainMatch (pattern text : CString) : Bool := pattern.bytes <:+: text.bytes

/-- A time zone in which the dates of a query are not looked at. -/
def noLocalTime : LocalTime := ⟨fun _ _ _ _ _ _ => none, fun _ => true, fun _ => CString.lit ""⟩

/-- The records of a file of root may be written. -/
theorem writable_versionOf (size : UInt64) : Writable (versionOf size) where
  owner := fun _ hs => Option.some.inj hs ▸ (values_versionOf size).ownerPlain
  group := fun _ hs => Option.some.inj hs ▸ (values_versionOf size).groupPlain
  hashs := fun _ hhd => absurd hhd List.not_mem_nil

/-- Root is answered alike when it asks for a file by its name and has two versions of it, for both or the latest. -/
theorem rootFiles_answerAlike :
    let stored : List (Bytes × ServerMetaData) := [([1], ⟨some (CString.lit "host"), true, some (versionOf 1)⟩),
      ([2], ⟨some (CString.lit "host"), true, some (versionOf 2)⟩)]
    ∀ latest, AnswerAlike plainMatch noLocalTime (some (CString.lit "motd")) rootQuery id latest stored
      (((stored.map Prod.snd).foldl fileStoreSmeta []).map fun c => [c]) := by
  intro stored latest
  have hrecords : ∀ m ∈ storedRecords (stored.map Prod.snd), ∃ size, m = versionOf size := by
    intro m hm
    rcases List.mem_pair.mp (show m ∈ [versionOf 1, versionOf 2] from hm) with rfl | rfl
    · exact ⟨1, rfl⟩
    · exact ⟨2, rfl⟩
  refine (answerAlike_iff plainMatch noLocalTime (some (CString.lit "motd")) rootQuery id rfl (isReading_bytes _) latest).1
    ⟨fun m hm => ?_, fun m hm _ => ?_⟩
  · obtain ⟨size, rfl⟩ := hrecords m hm
    exact writable_versionOf size
  · obtain ⟨size, rfl⟩ := hrecords m hm
    have hroot : ∀ s ∈ some (CString.lit "root"), plainMatch (CString.lit "root") s = true ↔ s = CString.lit "root" := by
      intro s hs
      rw [← Option.some.inj hs]
      exact ⟨fun _ => rfl, fun _ => by decide⟩
    have hnumbers : (0 : UInt32) = getUintFromString (some rootQuery.uid.bytes) ∧
        (0 : UInt32) = getUintFromString (some rootQuery.gid.bytes) := by decide
    exact decidedAlike_of_plain plainMatch noLocalTime (some (CString.lit "motd")) rootQuery (Option.some_ne_none _) ⟨rfl, rfl, rfl⟩
      ⟨Option.some_ne_none _, Option.some_ne_none _, Option.some_ne_none _, Option.some_ne_none _⟩ hroot hroot
      fun _ _ => hnumbers

/-- Bob asks for his files and is answered with a file of bobby when the records are in MongoDB: `bob` matches in `bobby`, and the
number of the user is not looked at. -/
theorem bobby_answersBob :
    let record : MetaData := { versionOf 1 with
      owner := some (CString.lit "bobby"), group := some (CString.lit "users"), uid := 1001, gid := 100 }
    let query : Query := ⟨CString.lit "1000", CString.lit "100", CString.lit "bob", CString.lit "users", none, none, none⟩
    let stored : List (Bytes × ServerMetaData) := [([1], ⟨some (CString.lit "host"), true, some record⟩)]
    ¬AnswerAlike plainMatch noLocalTime (some (CString.lit "motd")) query id false stored
      (((stored.map Prod.snd).foldl fileStoreSmeta []).map fun c => [c]) := by
  intro record query stored halike
  have hrecords : storedRecords (stored.map Prod.snd) = [record] := rfl
  have hwritable : ∀ m ∈ storedRecords (stored.map Prod.snd), Writable m := fun m hm => by
    rw [hrecords, List.mem_singleton] at hm
    rw [hm]
    exact {
      owner := fun _ hs => Option.some.inj hs ▸ List.all_iff_forall_prop.mp (by decide)
      group := fun _ hs => Option.some.inj hs ▸ List.all_iff_forall_prop.mp (by decide)
      hashs := fun _ hhd => absurd hhd List.not_mem_nil }
  have hlists := (MetaBackendsAux.answerAlike_iff_lists false hwritable (isReading_bytes _)).mp halike
  have hall := (MetaBackendsAux.allVersions_alike_iff _).mp hlists
  have hselects := (hall record (by rw [hrecords]; exact List.mem_cons_self)).1
  exact absurd hselects (by decide +kernel)

end Sauvegarde
