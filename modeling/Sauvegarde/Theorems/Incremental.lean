import Sauvegarde.Client.Cache
import Sauvegarde.Theorems.Cached

/-!
# The cache over runs

The client saves files and is stopped and started again, at any moment and as often as one likes. A version of a file is entered in the
cache at the end of its saving, and from then on nothing is sent for it.
-/

namespace Sauvegarde

/-- The version that an operation enters in the cache. -/
def ClientOp.enters : ClientOp → Option FileKey
  | .dbSaveMetaData metaData _ => some (bindValuesToGetFileId metaData)
  | _ => none

/-- What the saving of `version` may do: requests are made before the version is entered, and it is entered once. The ghost state is
whether it was entered. -/
def onceRules (version : FileKey) : Prog.Rules ClientOp ClientRes Bool where
  ok := fun _ _ => True
  pre := fun entered op => (op.sends = true ∨ op.enters ≠ none → entered = false) ∧ ∀ v ∈ op.enters, v = version
  next := fun entered op _ => entered || op.enters.isSome

/-- No request for a version and no second entry come after its entry. -/
def SentOnce (trace : List CachingEvent) : Prop :=
  trace.Pairwise fun e later => ∀ version, e = .entered version → later ≠ .sent version ∧ later ≠ .entered version

namespace IncrementalAux

open CachedAux

variable {sha256 : Bytes → Hash} {z : Zlib} {version : FileKey}

/-! ## One file -/

/-- The program enters no version. -/
abbrev EntersNothing {α : Type} (p : ClientProg α) : Prop := p.Calls fun op => op.enters = none

theorem entersNothing_postUrl (url : String) (readbuffer : Option Json) (held : List HashData) :
    EntersNothing (ClientProg.postUrl url readbuffer held) := ⟨rfl, fun _ => trivial⟩

theorem entersNothing_dbSaveBuffer (url : String) (buffer : Option Json) (held : List HashData) :
    EntersNothing (ClientProg.dbSaveBuffer url buffer held) := ⟨rfl, fun _ => trivial⟩

theorem entersNothing_crash {α : Type} : EntersNothing (ClientProg.crash : ClientProg α) := ⟨rfl, fun answer => answer.elim⟩

theorem entersNothing_insertArrayInRootAndSend (array : List Json) (held : List HashData) :
    EntersNothing (insertArrayInRootAndSend array held) := by
  refine (entersNothing_postUrl _ _ _).bind fun answer => ?_
  cases answer with
  | none => exact entersNothing_dbSaveBuffer _ _ _
  | some _ => trivial

/-- The loop of `send_all_data_to_server`. -/
theorem entersNothing_sendAllLoop (limit : Int64) (hashList : List HashData) :
    ∀ hashDataList array bytes, EntersNothing (sendAllLoop limit hashDataList array bytes hashList) := by
  induction hashList with
  | nil =>
    intro hashDataList array bytes
    unfold sendAllLoop
    split_ifs
    · exact (entersNothing_insertArrayInRootAndSend _ _).bind fun _ => trivial
    · trivial
  | cons hashData hashList ih =>
    intro hashDataList array bytes
    unfold sendAllLoop
    cases findHashInList hashDataList hashData.hash with
    | none => exact entersNothing_crash
    | some found =>
      simp only
      split_ifs
      · exact (entersNothing_insertArrayInRootAndSend _ _).bind fun _ => ih _ _ _
      · exact ih _ _ _

theorem entersNothing_sendAllDataToServer (main : MainStruct) (hashDataList : List HashData) (answer : Option Json) :
    EntersNothing (sendAllDataToServer main hashDataList answer) := by
  unfold sendAllDataToServer
  cases answer.bind Json.loads with
  | none => trivial
  | some root =>
    simp only
    split_ifs
    · exact entersNothing_sendAllLoop _ _ _ _ _
    · trivial

/-- The loop of `send_data_to_server`. -/
theorem entersNothing_sendLoop (hashList : List HashData) : ∀ hashDataList, EntersNothing (sendLoop hashDataList hashList) := by
  induction hashList with
  | nil => exact fun _ => trivial
  | cons hashData hashList ih =>
    intro hashDataList
    unfold sendLoop
    cases findHashInList hashDataList hashData.hash with
    | none => exact entersNothing_crash
    | some found =>
      refine (entersNothing_postUrl _ _ _).bind fun answer => ?_
      cases answer with
      | none => exact (entersNothing_dbSaveBuffer _ _ _).bind fun _ => ih _
      | some _ => exact ih _

theorem entersNothing_sendDataToServer (hashDataList : List HashData) (answer : Option Json) :
    EntersNothing (sendDataToServer hashDataList answer) := by
  unfold sendDataToServer
  cases answer.bind Json.loads with
  | none => trivial
  | some root =>
    simp only
    split_ifs
    · exact entersNothing_sendLoop _ _
    · trivial

theorem entersNothing_sendHashArrayToServer (hashDataList : List HashData) : EntersNothing (sendHashArrayToServer hashDataList) := by
  unfold sendHashArrayToServer
  split_ifs
  · refine (entersNothing_postUrl _ _ _).bind fun answer => ?_
    cases answer <;> trivial
  · trivial

/-- A program that enters nothing may do everything while the version is not entered. -/
theorem EntersNothing.wp {α : Type} {p : ClientProg α} (h : EntersNothing p) :
    p.wp (onceRules version) (fun _ entered => entered = false) false := by
  refine Prog.Calls.wp h fun op hop => ⟨⟨fun _ => rfl, fun v hv => ?_⟩, fun r => ?_⟩
  · rw [hop] at hv
    cases hv
  · show (false || op.enters.isSome) = false
    rw [hop]
    rfl

/-- `send_meta_data_to_server` has an answer, be it made up. -/
theorem wp_sendMetaDataToServer_once {main : MainStruct} {metaData : MetaData} (hhashed : AllHashed metaData.hashDataList)
    (dataSent : Bool) :
    (sendMetaDataToServer main metaData dataSent).wp (onceRules version) (fun answer entered => answer ≠ none ∧ entered = false)
      false := by
  obtain ⟨hs, hhs⟩ := hhashed.exists_hashs
  have hpre : ∀ op : ClientOp, op.enters = none → (onceRules version).pre false op := fun op hop =>
    ⟨fun _ => rfl, fun v hv => by rw [hop] at hv; cases hv⟩
  refine ⟨hpre _ rfl, fun reply _ => ?_⟩
  rcases reply with _ | buffer
  · refine ⟨hpre _ rfl, fun _ _ => ⟨?_, rfl⟩⟩
    rw [dumps_hashListRoot hhs]
    exact Option.some_ne_none _
  · exact ⟨Option.some_ne_none _, rfl⟩

/-- The version is entered when everything was sent for it. -/
theorem wp_dbSaveMetaData_once {metaData : MetaData} (hversion : bindValuesToGetFileId metaData = version) (onlyMeta : Bool) :
    (ClientProg.dbSaveMetaData metaData onlyMeta).wp (onceRules version) (fun _ entered => entered = true) false := by
  refine ⟨⟨fun _ => rfl, fun v hv => ?_⟩, fun _ _ => rfl⟩
  rw [← hversion]
  exact (Option.some.inj hv).symm

theorem allHashed_hashDataOfBuffer (cmptype : Int16) (buffer : Bytes) :
    ∃ h : Hash, (hashDataOfBuffer sha256 z cmptype buffer).hash = some h.bytes :=
  ⟨sha256 buffer, hash_hashDataOfBuffer sha256 cmptype buffer⟩

/-- The list of a small file. -/
theorem allHashed_calculateHashDataListForFile (source : FileSource) (cmptype : Int16) :
    AllHashed (calculateHashDataListForFile sha256 z source cmptype) := by
  rw [calculateHashDataListForFile_eq]
  split_ifs
  · intro hd hhd
    obtain ⟨buffer, _, rfl⟩ := List.mem_map.mp hhd
    exact allHashed_hashDataOfBuffer cmptype buffer
  · exact fun hd hhd => absurd hhd List.not_mem_nil

/-- `process_small_file_not_in_cache`. -/
theorem wp_processSmallFileNotInCache_once {main : MainStruct} {metaData : MetaData} {source : FileSource}
    (hnoHashs : metaData.hashDataList = []) (hversion : bindValuesToGetFileId metaData = version) :
    (processSmallFileNotInCache sha256 z main metaData source).wp (onceRules version) (fun _ entered => entered = true) false := by
  have hhashed : AllHashed (if metaData.fileType = G_FILE_TYPE_REGULAR then
      calculateHashDataListForFile sha256 z source main.cmptype else metaData.hashDataList) := by
    split_ifs
    · exact allHashed_calculateHashDataListForFile source main.cmptype
    · rw [hnoHashs]
      exact fun hd hhd => absurd hhd List.not_mem_nil
  unfold processSmallFileNotInCache
  refine Prog.wp_seq (wp_sendMetaDataToServer_once hhashed false) ?_
  rintro answer entered ⟨-, rfl⟩
  have hfinish : ∀ (list : List HashData) (entered : Bool), entered = false →
      (ClientProg.dbSaveMetaData { metaData with hashDataList := list } true).wp (onceRules version)
        (fun _ entered => entered = true) entered := by
    rintro list entered rfl
    exact wp_dbSaveMetaData_once hversion true
  simp only [Prog.bind_eq]
  split
  · exact Prog.wp_seq (EntersNothing.wp (entersNothing_sendDataToServer _ _)) hfinish
  · exact Prog.wp_seq (EntersNothing.wp (entersNothing_sendAllDataToServer _ _ _)) hfinish

/-- `lets_send_all_that_now`. -/
theorem wp_letsSendAllThatNow_once {main : MainStruct} {list savedList : List HashData} (hlist : AllHashed list)
    (hsaved : AllHashed savedList) :
    (letsSendAllThatNow main list savedList).wp (onceRules version) (fun saved entered => AllHashed saved ∧ entered = false)
      false := by
  obtain ⟨hs, hhs⟩ := hlist.exists_hashs
  unfold letsSendAllThatNow
  refine Prog.wp_seq (EntersNothing.wp (entersNothing_sendHashArrayToServer list)) ?_
  rintro answer entered rfl
  refine Prog.wp_seq (EntersNothing.wp (entersNothing_sendAllDataToServer main list answer)) ?_
  rintro _ entered rfl
  refine ⟨fun hd hhd => ?_, rfl⟩
  rcases List.mem_append.mp hhd with hcopied | hold
  · exact (hashsAre_copyOnlyHash hhs).allHashed hd hcopied
  · exact hsaved hd hold

/-- The loop of `process_big_file_not_in_cache`. -/
theorem wp_processBlocks_once {main : MainStruct} (reads : List Bytes) : ∀ {list savedList : List HashData} {readBytes : UInt64},
    AllHashed list → AllHashed savedList →
      (processBlocks sha256 z main reads list savedList readBytes).wp (onceRules version)
        (fun result entered => AllHashed result.1 ∧ AllHashed result.2.1 ∧ entered = false) false := by
  induction reads with
  | nil => exact fun hlist hsaved => ⟨hlist, hsaved, rfl⟩
  | cons buffer reads ih =>
    intro list savedList readBytes hlist hsaved
    have hcons : AllHashed (hashDataOfBuffer sha256 z main.cmptype buffer :: list) := fun hd hhd => by
      rcases List.mem_cons.mp hhd with rfl | hhd
      · exact allHashed_hashDataOfBuffer main.cmptype buffer
      · exact hlist hd hhd
    simp only [processBlocks]
    split
    · refine Prog.wp_seq (wp_letsSendAllThatNow_once hcons hsaved) ?_
      rintro saved entered ⟨hsaved', rfl⟩
      exact ih (fun hd hhd => absurd hhd List.not_mem_nil) hsaved'
    · exact ih hcons hsaved

/-- The part of `process_big_file_not_in_cache` that reads the file. -/
theorem wp_processStream_once (main : MainStruct) (source : FileSource) :
    (processStream sha256 z main source).wp (onceRules version) (fun saved entered => AllHashed saved ∧ entered = false) false := by
  have hnil : AllHashed [] := fun hd hhd => absurd hhd List.not_mem_nil
  have hreverse : ∀ list : List HashData, AllHashed list → AllHashed list.reverse := fun list hlist hd hhd =>
    hlist hd (List.mem_reverse.mp hhd)
  unfold processStream
  split
  · refine Prog.wp_seq (wp_processBlocks_once source.reads hnil hnil) ?_
    rintro ⟨list, savedList, readBytes⟩ entered ⟨hlist, hsaved, rfl⟩
    dsimp only at hlist hsaved ⊢
    split
    · exact ⟨hsaved, rfl⟩
    · split
      · refine Prog.wp_seq (wp_letsSendAllThatNow_once hlist hsaved) ?_
        rintro saved entered ⟨hsaved', rfl⟩
        exact ⟨hreverse saved hsaved', rfl⟩
      · exact ⟨hreverse savedList hsaved, rfl⟩
  · exact ⟨hnil, rfl⟩

/-- `process_big_file_not_in_cache`. -/
theorem wp_processBigFileNotInCache_once {main : MainStruct} {metaData : MetaData} {source : FileSource}
    (hversion : bindValuesToGetFileId metaData = version) :
    (processBigFileNotInCache sha256 z main metaData source).wp (onceRules version) (fun _ entered => entered = true) false := by
  unfold processBigFileNotInCache
  refine Prog.wp_seq (wp_processStream_once main source) ?_
  rintro saved entered ⟨hhashed, rfl⟩
  refine Prog.wp_seq (wp_sendMetaDataToServer_once hhashed true) ?_
  rintro answer entered ⟨hanswer, rfl⟩
  cases answer with
  | none => exact absurd rfl hanswer
  | some buffer => exact wp_dbSaveMetaData_once hversion true

/-- `save_one_file` of a file that is not in the cache: its version is entered at the end. -/
theorem wp_saveOneFile_once {file : FileToSave} (hexcluded : file.excluded = false)
    (hversion : bindValuesToGetFileId file.metaData = version) :
    (saveOneFile sha256 z file).wp (onceRules version) (fun _ entered => entered = true) file.metaData.inCache := by
  have hprocess : (processFile sha256 z file.main file.metaData file.source).wp (onceRules version)
      (fun _ entered => entered = true) file.metaData.inCache := by
    unfold processFile
    split
    · rename_i hout
      rw [hout]
      split
      · exact wp_processSmallFileNotInCache_once file.noHashs hversion
      · exact wp_processBigFileNotInCache_once hversion
    · rename_i hin
      exact Bool.eq_true_of_not_eq_false hin
  unfold saveOneFile
  rw [if_pos hexcluded]
  refine Prog.wp_seq hprocess ?_
  rintro _ entered rfl
  split
  · refine ⟨⟨fun h => ?_, fun v hv => absurd hv (Option.not_mem_none v)⟩, fun _ _ => rfl⟩
    rcases h with h | h
    · cases h
    · exact absurd rfl h
  · rfl

/-! ## Steps -/

/-- The versions that were entered, one after the other. -/
def enteredVersions (trace : List CachingEvent) : List FileKey :=
  trace.filterMap fun e => match e with
    | .entered version => some version
    | _ => none

theorem mem_enteredVersions {trace : List CachingEvent} {version : FileKey} :
    version ∈ enteredVersions trace ↔ .entered version ∈ trace := by
  refine List.mem_filterMap.trans ⟨?_, fun h => ⟨_, h, rfl⟩⟩
  rintro ⟨e, he, heq⟩
  cases e <;> simp only [reduceCtorEq, Option.some.injEq] at heq
  exact heq ▸ he

/-- What an operation of the thread does: it makes a request for the version that is being saved, or it enters a version, or neither. -/
theorem answerOp_spec {s s' : CachingClient} {reply : Option Json} {cacheTime : UInt64} {events : List CachingEvent}
    (h : answerOp s reply cacheTime = some (s', events)) :
    ∃ (op : ClientOp) (k : ClientRes op → ClientProg Unit) (r : ClientRes op),
      s.thread = .call op k ∧ s'.thread = k r ∧ s'.current = s.current ∧
        s'.files.rows.map FileRow.key = s.files.rows.map FileRow.key ++ op.enters.toList ∧
        (events = [.sent s.current] ∧ op.sends = true ∧ op.enters = none ∨
          (∃ version, events = [.entered version] ∧ op.enters = some version) ∨ events = [] ∧ op.enters = none) := by
  unfold answerOp at h
  split at h
  · cases h
  · rename_i url readbuffer held k hthread
    cases h
    exact ⟨.postUrl url readbuffer held, k, reply, hthread, rfl, rfl, (List.append_nil _).symm, .inl ⟨rfl, rfl, rfl⟩⟩
  · rename_i url buffer held k hthread
    cases h
    exact ⟨.dbSaveBuffer url buffer held, k, (), hthread, rfl, rfl, (List.append_nil _).symm, .inl ⟨rfl, rfl, rfl⟩⟩
  · rename_i metaData onlyMeta k hthread
    cases h
    exact ⟨.dbSaveMetaData metaData onlyMeta, k, (), hthread, rfl, rfl, FilesTable.keys_dbSaveMetaData _ _ _ _,
      .inr (.inl ⟨_, rfl, rfl⟩)⟩
  · rename_i directory k hthread
    cases h
    exact ⟨.dirQueuePush directory, k, (), hthread, rfl, rfl, (List.append_nil _).symm, .inr (.inr ⟨rfl, rfl⟩)⟩
  · cases h

/-- What holds after every run: the versions of the table are those that were entered, each once; the thread goes on as the saving of
its version does, and a version whose saving began is entered, or was stopped, or is the one that is being saved. -/
structure Entries (trace : List CachingEvent) (s : CachingClient) : Prop where
  keys : s.files.rows.map FileRow.key = enteredVersions trace
  nodup : (enteredVersions trace).Nodup
  once : SentOnce trace
  thread : s.thread.wp (onceRules s.current) (fun _ _ => True) (decide (s.current ∈ enteredVersions trace))
  begun : ∀ version, .begun version ∈ trace → .entered version ∈ trace ∨ .stopped version ∈ trace ∨
    version = s.current ∧
      s.thread.wp (onceRules version) (fun _ entered => entered = true) (decide (version ∈ enteredVersions trace))

theorem entries_started (opt : Options) : Entries [] (CachingClient.started opt) where
  keys := rfl
  nodup := List.nodup_nil
  once := List.Pairwise.nil
  thread := trivial
  begun := fun _ h => absurd h List.not_mem_nil

/-- When the thread is at an end, every version whose saving began is entered or was stopped. -/
theorem Entries.settled {trace : List CachingEvent} {s : CachingClient} (h : Entries trace s) (hthread : s.thread = .ret ())
    {version : FileKey} (hbegun : .begun version ∈ trace) : .entered version ∈ trace ∨ .stopped version ∈ trace := by
  rcases h.begun version hbegun with hentered | hstopped | ⟨rfl, hwp⟩
  · exact .inl hentered
  · exact .inr hstopped
  · rw [hthread, Prog.wp_ret, decide_eq_true_iff, mem_enteredVersions] at hwp
    exact .inl hwp

/-- An event that is no entry and no request keeps what was said of them. -/
theorem sentOnce_append_quiet {trace : List CachingEvent} (h : SentOnce trace) {e : CachingEvent}
    (hquiet : ∀ version, e ≠ .sent version ∧ e ≠ .entered version) : SentOnce (trace ++ [e]) := by
  refine List.pairwise_append.mpr ⟨h, List.pairwise_singleton _ _, fun a _ b hb version _ => ?_⟩
  rw [List.mem_singleton.mp hb]
  exact hquiet version

/-- A request for a version, or its entry, comes before any entry of it. -/
theorem sentOnce_append_current {trace : List CachingEvent} (h : SentOnce trace) (hnew : .entered version ∉ trace) {e : CachingEvent}
    (he : e = .sent version ∨ e = .entered version) : SentOnce (trace ++ [e]) := by
  refine List.pairwise_append.mpr ⟨h, List.pairwise_singleton _ _, fun a ha b hb other hother => ?_⟩
  rw [List.mem_singleton.mp hb]
  have hne : other ≠ version := fun heq => hnew (heq ▸ hother ▸ ha)
  rcases he with rfl | rfl
  · exact ⟨fun heq => hne (CachingEvent.sent.inj heq).symm, CachingEvent.noConfusion⟩
  · exact ⟨CachingEvent.noConfusion, fun heq => hne (CachingEvent.entered.inj heq).symm⟩

@[simp] theorem enteredVersions_append (trace trace' : List CachingEvent) :
    enteredVersions (trace ++ trace') = enteredVersions trace ++ enteredVersions trace' := List.filterMap_append

/-- An operation is answered. -/
theorem Entries.answer {trace events : List CachingEvent} {s s' : CachingClient} (h : Entries trace s) {reply : Option Json}
    {cacheTime : UInt64} (hanswer : answerOp s reply cacheTime = some (s', events)) : Entries (trace ++ events) s' := by
  obtain ⟨op, k, r, hthread, hthread', hcurrent, hkeys, hevents⟩ := answerOp_spec hanswer
  have hentered : enteredVersions events = op.enters.toList := by
    rcases hevents with ⟨rfl, _, hop⟩ | ⟨v, rfl, hop⟩ | ⟨rfl, hop⟩ <;> rw [hop] <;> rfl
  obtain ⟨⟨hnew, hversion⟩, hrest⟩ : (onceRules s.current).pre (decide (s.current ∈ enteredVersions trace)) op ∧ _ := hthread ▸ h.thread
  -- the ghost state is what the trace says
  have hghost : (decide (s.current ∈ enteredVersions trace) || op.enters.isSome) =
      decide (s.current ∈ enteredVersions (trace ++ events)) := by
    rw [enteredVersions_append, hentered]
    cases henters : op.enters with
    | none => simp
    | some version => simp [hversion version henters]
  refine ⟨by rw [hkeys, h.keys, enteredVersions_append, hentered], ?_, ?_, ?_, ?_⟩
  · rw [enteredVersions_append, hentered]
    refine List.nodup_append.mpr ⟨h.nodup, by cases op.enters <;> simp, fun v hv w hw => ?_⟩
    have hw' : op.enters = some w := Option.mem_toList.mp hw
    have hout : s.current ∉ enteredVersions trace := of_decide_eq_false (hnew (.inr (hw' ▸ Option.some_ne_none w)))
    rw [hversion w hw']
    exact fun heq => hout (heq ▸ hv)
  · rcases hevents with ⟨rfl, hsends, _⟩ | ⟨v, rfl, hop⟩ | ⟨rfl, _⟩
    · have hout : s.current ∉ enteredVersions trace := of_decide_eq_false (hnew (.inl hsends))
      exact sentOnce_append_current h.once (fun hmem => hout (mem_enteredVersions.mpr hmem)) (.inl rfl)
    · have hout : s.current ∉ enteredVersions trace := of_decide_eq_false (hnew (.inr (hop ▸ Option.some_ne_none v)))
      rw [hversion v hop]
      exact sentOnce_append_current h.once (fun hmem => hout (mem_enteredVersions.mpr hmem)) (.inr rfl)
    · rw [List.append_nil]
      exact h.once
  · rw [hthread', hcurrent, ← hghost]
    exact hrest r trivial
  · intro v hv
    have hv' : .begun v ∈ trace := by
      rcases List.mem_append.mp hv with hv | hv
      · exact hv
      · rcases hevents with ⟨rfl, _⟩ | ⟨w, rfl, _⟩ | ⟨rfl, _⟩
        · exact absurd (List.mem_singleton.mp hv) CachingEvent.noConfusion
        · exact absurd (List.mem_singleton.mp hv) CachingEvent.noConfusion
        · exact absurd hv List.not_mem_nil
    rcases h.begun v hv' with hin | hstopped | ⟨rfl, hwp⟩
    · exact .inl (List.mem_append_left _ hin)
    · exact .inr (.inl (List.mem_append_left _ hstopped))
    · refine .inr (.inr ⟨hcurrent.symm, ?_⟩)
      rw [hthread] at hwp
      rw [hthread', ← hghost]
      exact hwp.2 r trivial

/-- An event that is no entry is added. -/
theorem enteredVersions_append_quiet (trace : List CachingEvent) {e : CachingEvent} (he : ∀ version, e ≠ .entered version) :
    enteredVersions (trace ++ [e]) = enteredVersions trace := by
  rw [enteredVersions_append]
  cases e with
  | entered version => exact absurd rfl (he version)
  | begun version => exact List.append_nil _
  | sent version => exact List.append_nil _
  | stopped version => exact List.append_nil _

section

variable {exclude : CString → Bool}

/-- The meta data of an event have the name of the file. -/
theorem name_getMetaDataFromFileinfo (exclude : CString → Bool) (opt : Options) (event : FileEvent) (inCache : Bool) :
    (getMetaDataFromFileinfo exclude opt event inCache).2.1.name ≠ none := by
  simp only [getMetaDataFromFileinfo]
  split_ifs <;> exact Option.some_ne_none _

/-- What the table answers is no part of the version. -/
theorem version_lookedUp (opt : Options) (files : FilesTable) (event : FileEvent) (source : FileSource) :
    bindValuesToGetFileId (lookedUp exclude opt files event source).metaData = versionOfEvent exclude opt event := by
  simp only [lookedUp, fileOfEvent, versionOfEvent, getMetaDataFromFileinfo]
  split_ifs <;> rfl

/-- The file of an event that is not excluded is in the cache exactly when its version was entered. -/
theorem inCache_lookedUp {trace : List CachingEvent} {s : CachingClient} (h : Entries trace s) (event : FileEvent) (source : FileSource)
    (hexcluded : (lookedUp exclude s.opt s.files event source).excluded = false) :
    (lookedUp exclude s.opt s.files event source).metaData.inCache =
      decide (versionOfEvent exclude s.opt event ∈ enteredVersions trace) := by
  have hnodup : (s.files.rows.map FileRow.key).Nodup := h.keys ▸ h.nodup
  have hiff := FilesTable.isFileInCache_iff hnodup (name_getMetaDataFromFileinfo exclude s.opt event false)
  rw [h.keys] at hiff
  have hin : (lookedUp exclude s.opt s.files event source).metaData.inCache =
      s.files.isFileInCache (getMetaDataFromFileinfo exclude s.opt event false).2.1 := by
    simp only [lookedUp, fileOfEvent, getMetaDataFromFileinfo] at hexcluded ⊢
    split_ifs at hexcluded ⊢
    rfl
  rw [hin, Bool.eq_iff_iff, decide_eq_true_iff]
  exact hiff

/-- An event is taken out of the queue, and its file is looked up. -/
theorem Entries.save {trace : List CachingEvent} {s : CachingClient} (h : Entries trace s) (hthread : s.thread = .ret ())
    (event : FileEvent) (source : FileSource) :
    Entries (trace ++ if (lookedUp exclude s.opt s.files event source).excluded then [] else [.begun (versionOfEvent exclude s.opt event)])
      ⟨(getMetaDataFromFileinfo exclude s.opt event false).1, s.files, versionOfEvent exclude s.opt event,
        saveOneFile sha256 z (lookedUp exclude s.opt s.files event source)⟩ := by
  have hsettled := fun v => @Entries.settled trace s h hthread v
  by_cases hexcluded : (lookedUp exclude s.opt s.files event source).excluded = true
  · -- nothing is done for a file that is excluded
    have hnothing : saveOneFile sha256 z (lookedUp exclude s.opt s.files event source) = .ret () := by
      rw [saveOneFile, if_neg (by rw [hexcluded]; decide)]
      rfl
    rw [if_pos hexcluded, List.append_nil]
    refine ⟨h.keys, h.nodup, h.once, ?_, fun v hv => ?_⟩
    · rw [hnothing]
      trivial
    · exact (hsettled v hv).imp_right .inl
  · have hout : (lookedUp exclude s.opt s.files event source).excluded = false := Bool.eq_false_of_not_eq_true hexcluded
    have hquiet : ∀ v, (CachingEvent.begun (versionOfEvent exclude s.opt event)) ≠ .sent v ∧
        CachingEvent.begun (versionOfEvent exclude s.opt event) ≠ .entered v :=
      fun v => ⟨CachingEvent.noConfusion, CachingEvent.noConfusion⟩
    have hentered := enteredVersions_append_quiet trace fun v => (hquiet v).2
    have hwp := @wp_saveOneFile_once sha256 z _ _ hout (version_lookedUp s.opt s.files event source)
    rw [inCache_lookedUp h event source hout, ← hentered] at hwp
    rw [if_neg hexcluded]
    refine ⟨by rw [hentered, h.keys], by rw [hentered]; exact h.nodup, sentOnce_append_quiet h.once hquiet, ?_, fun v hv => ?_⟩
    · exact Prog.wp_mono hwp fun _ _ _ => trivial
    · rcases List.mem_append.mp hv with hv | hv
      · rcases hsettled v hv with hin | hstopped
        · exact .inl (List.mem_append_left _ hin)
        · exact .inr (.inl (List.mem_append_left _ hstopped))
      · cases List.mem_singleton.mp hv
        exact .inr (.inr ⟨rfl, hwp⟩)

/-- The program is stopped while it saves a file, and is started again. -/
theorem Entries.stop {trace : List CachingEvent} {s : CachingClient} (h : Entries trace s) :
    Entries (trace ++ [.stopped s.current]) { s with thread := .ret () } := by
  have hquiet : ∀ v, CachingEvent.stopped s.current ≠ .sent v ∧ CachingEvent.stopped s.current ≠ .entered v :=
    fun v => ⟨CachingEvent.noConfusion, CachingEvent.noConfusion⟩
  have hentered := enteredVersions_append_quiet trace fun v => (hquiet v).2
  refine ⟨by rw [hentered, h.keys], by rw [hentered]; exact h.nodup, sentOnce_append_quiet h.once hquiet, trivial, fun v hv => ?_⟩
  rcases List.mem_append.mp hv with hv | hv
  · rcases h.begun v hv with hin | hstopped | ⟨rfl, -⟩
    · exact .inl (List.mem_append_left _ hin)
    · exact .inr (.inl (List.mem_append_left _ hstopped))
    · exact .inr (.inl (List.mem_append_right _ List.mem_cons_self))
  · exact absurd (List.mem_singleton.mp hv) CachingEvent.noConfusion

/-- A step of the thread. -/
theorem entries_step {trace events : List CachingEvent} {s s' : CachingClient} {op : CachingOp} (h : Entries trace s)
    (hstep : cachingStep exclude sha256 z s op = some (s', events)) : Entries (trace ++ events) s' := by
  cases op with
  | save event source =>
    simp only [cachingStep] at hstep
    split at hstep
    · cases hstep
    · rename_i hthread
      cases hstep
      exact h.save hthread event source
  | answer reply cacheTime => exact h.answer hstep
  | stop =>
    simp only [cachingStep] at hstep
    split at hstep
    · cases hstep
      exact h.stop
    · cases hstep
      rwa [List.append_nil]

/-- A run of the client. -/
theorem entries_execute {opt : Options} {ops : List CachingOp} {trace : List CachingEvent} {s : CachingClient}
    (h : Runs.execute (cachingStep exclude sha256 z) (CachingClient.started opt) ops = some (s, trace)) : Entries trace s := by
  have hrun : Entries ([] ++ trace) s := Runs.execute_invariant (fun _ _ _ _ _ hentries _ hstep => entries_step hentries hstep) ops
    (entries_started opt) (Runs.along_of_forall (fun _ _ => trivial) _) h
  rwa [List.nil_append] at hrun

end

end IncrementalAux

open IncrementalAux

/-- After every run of the client, whatever the server answers and however often the client is stopped: a file is found in the cache
exactly when its version was entered, nothing is sent for a version behind its entry, and when the thread is at an end every version
whose saving began was entered or was stopped. -/
theorem cache_remembersVersions (exclude : CString → Bool) (sha256 : Bytes → Hash) (z : Zlib) (opt : Options) {ops : List CachingOp}
    {trace : List CachingEvent} {s : CachingClient}
    (h : Runs.execute (cachingStep exclude sha256 z) (CachingClient.started opt) ops = some (s, trace)) :
    (∀ metaData : MetaData, metaData.name ≠ none →
      (s.files.isFileInCache metaData = true ↔ .entered (bindValuesToGetFileId metaData) ∈ trace)) ∧
    SentOnce trace ∧
    (s.thread = .ret () → ∀ version, .begun version ∈ trace → .entered version ∈ trace ∨ .stopped version ∈ trace) := by
  have hentries := entries_execute h
  refine ⟨fun metaData hname => ?_, hentries.once, fun hthread version hbegun => hentries.settled hthread hbegun⟩
  have hnodup : (s.files.rows.map FileRow.key).Nodup := hentries.keys ▸ hentries.nodup
  rw [FilesTable.isFileInCache_iff hnodup hname, hentries.keys, mem_enteredVersions]

/-- An event of a file that cannot be opened any more. -/
def notesEvent : FileEvent :=
  newFileEvent (CString.lit "/home") ⟨CString.lit "notes", G_FILE_TYPE_REGULAR, 7, none, none, 0, 0, 0, 0, 5, 0, 12, none⟩

/-- The client is stopped while it saves the file, saves it again, and finds it in the cache the third time. -/
def notesSaved : List CachingOp :=
  [.save notesEvent ⟨false, [], none, by decide⟩, .answer none 1, .stop, .save notesEvent ⟨false, [], none, by decide⟩, .answer none 2,
    .answer none 3, .answer none 4, .save notesEvent ⟨false, [], none, by decide⟩]

/-- Its version is sent and entered once more, and not a third time. -/
theorem notesSaved_once : ∃ s v,
    Runs.execute (cachingStep (fun _ => false) zeroDigest storingZlib) (CachingClient.started ⟨false, 16384, defaultMain⟩) notesSaved =
      some (s, [.begun v, .sent v, .stopped v, .begun v, .sent v, .sent v, .entered v, .begun v]) ∧
    SentOnce [.begun v, .sent v, .stopped v, .begun v, .sent v, .sent v, .entered v, .begun v] := by
  obtain ⟨s, v, h⟩ : ∃ s v, Runs.execute (cachingStep (fun _ => false) zeroDigest storingZlib)
      (CachingClient.started ⟨false, 16384, defaultMain⟩) notesSaved =
      some (s, [.begun v, .sent v, .stopped v, .begun v, .sent v, .sent v, .entered v, .begun v]) := ⟨_, _, rfl⟩
  exact ⟨s, v, h, (cache_remembersVersions (fun _ => false) zeroDigest storingZlib ⟨false, 16384, defaultMain⟩ h).2.1⟩

end Sauvegarde
