import Sauvegarde.Client.Selection
import Sauvegarde.Theorems.Wire

/-!
# What a client does with a file

One lemma for each function of the client: whatever the answers, every hash of a record that was sent is accounted for or carried by
the request under way, and at the end all of them are accounted for.
-/

namespace Sauvegarde

namespace SavingAux

/-- The hashs of the records that were sent are accounted for, or among `owed`. -/
def Carries (history : List ClientEvent) (owed : Set Hash) : Prop :=
  ∀ h ∈ recorded history, h ∈ accounted history ∨ h ∈ owed

/-- More happened, no record was sent, and these blocks are accounted for. -/
structure Progress (history history' : List ClientEvent) (blocks : Set Hash) : Prop where
  grows : ∃ new, history' = history ++ new ∧ ∀ e ∈ new, e.op.records = ∅
  blocks : ∀ h ∈ blocks, h ∈ accounted history'

/-- What is accounted for stays accounted for. -/
theorem Progress.mono {history history' : List ClientEvent} {blocks : Set Hash} (h : Progress history history' blocks) :
    ∀ g ∈ accounted history, g ∈ accounted history' := by
  intro g hg
  obtain ⟨new, rfl, _⟩ := h.grows
  rw [accounted_append]
  exact Or.inl hg

/-- No record was added. -/
theorem Progress.recorded_eq {history history' : List ClientEvent} {blocks : Set Hash}
    (h : Progress history history' blocks) : recorded history' = recorded history := by
  obtain ⟨new, rfl, hnew⟩ := h.grows
  ext g
  rw [recorded_append, Set.mem_union, or_iff_left]
  rintro ⟨e, he, smeta, hsmeta, _⟩
  rw [hnew e he] at hsmeta
  exact hsmeta

/-- No record was saved. -/
theorem Progress.recordSaved_iff {history history' : List ClientEvent} {blocks : Set Hash}
    (h : Progress history history' blocks) (hs : List Hash) : RecordSaved history' hs ↔ RecordSaved history hs := by
  obtain ⟨new, rfl, hnew⟩ := h.grows
  rw [recordSaved_append, or_iff_left]
  rintro ⟨e, he, _, smeta, hsmeta, _⟩
  rw [hnew e he] at hsmeta
  exact hsmeta

/-- Nothing happened. -/
theorem Progress.refl {history : List ClientEvent} {blocks : Set Hash} (h : ∀ g ∈ blocks, g ∈ accounted history) :
    Progress history history blocks :=
  ⟨⟨[], (List.append_nil history).symm, fun _ he => absurd he List.not_mem_nil⟩, h⟩

/-- One progress after the other. -/
theorem Progress.trans {history middle history' : List ClientEvent} {blocks blocks' : Set Hash}
    (h : Progress history middle blocks) (h' : Progress middle history' blocks') :
    Progress history history' (blocks ∪ blocks') := by
  refine ⟨?_, ?_⟩
  · obtain ⟨new, rfl, hnew⟩ := h.grows
    obtain ⟨new', rfl, hnew'⟩ := h'.grows
    refine ⟨new ++ new', List.append_assoc _ _ _, fun e he => ?_⟩
    rcases List.mem_append.mp he with he | he
    · exact hnew e he
    · exact hnew' e he
  · rintro g (hg | hg)
    · exact h'.mono g (h.blocks g hg)
    · exact h'.blocks g hg

/-- Fewer blocks are accounted for as well. -/
theorem Progress.subset {history history' : List ClientEvent} {blocks blocks' : Set Hash}
    (h : Progress history history' blocks) (hsub : ∀ g ∈ blocks', g ∈ blocks) : Progress history history' blocks' :=
  ⟨h.grows, fun g hg => h.blocks g (hsub g hg)⟩

/-- After a progress the hashs that were owed and are accounted for are owed no more. -/
theorem Carries.progress {history history' : List ClientEvent} {blocks owed owed' : Set Hash} (h : Carries history owed)
    (hprogress : Progress history history' blocks) (howed : ∀ g ∈ owed, g ∈ blocks ∨ g ∈ owed') : Carries history' owed' := by
  intro g hg
  rw [hprogress.recorded_eq] at hg
  rcases h g hg with hg | hg
  · exact Or.inl (hprogress.mono g hg)
  · exact (howed g hg).imp_left (hprogress.blocks g)

/-- When nothing is owed the hashs of the records are accounted for. -/
theorem Carries.settled {history : List ClientEvent} (h : Carries history ∅) {g : Hash} (hg : g ∈ recorded history) :
    g ∈ accounted history := (h g hg).resolve_right (Set.notMem_empty g)

/-! ## What the bodies carry -/

/-- The objects of the blocks of a list. -/
def blockArray (list : List HashData) : List Json := list.flatMap fun hd => (convertHashDataToJson hd).toList

/-- The objects of blocks are written, and the blocks come back from them. -/
theorem blockArray_eq {list : List HashData} (h : AllBlocks list) :
    (∀ v ∈ blockArray list, v.wellEncoded = true) ∧ (blockArray list).map convertJsonToHashData = list.map some := by
  induction list with
  | nil => exact ⟨fun v hv => absurd hv List.not_mem_nil, rfl⟩
  | cons hd list ih =>
    obtain ⟨g, bytes, hblock, _⟩ := h hd List.mem_cons_self
    obtain ⟨hwritten, hback⟩ := ih fun e he => h e (List.mem_cons_of_mem _ he)
    obtain ⟨root, hroot, hroot'⟩ := convertJsonToHashData_of_isBlock hblock
    have hdumps : root.dumps = some root := by
      have hstring := convertHashDataToString_eq hblock
      rwa [convertHashDataToString, hroot, Option.bind_some] at hstring
    have hcons : blockArray (hd :: list) = root :: blockArray list := by
      rw [blockArray, List.flatMap_cons, hroot]
      rfl
    rw [hcons]
    refine ⟨fun v hv => ?_, ?_⟩
    · rcases List.mem_cons.mp hv with rfl | hv
      · by_contra hne
        rw [Json.dumps, if_neg hne] at hdumps
        cases hdumps
      · exact hwritten v hv
    · rw [List.map_cons, List.map_cons, hback, hroot']

/-- The body of a single block brings that block. -/
theorem data_queue {hd : HashData} {h : Hash} {bytes : Bytes} (hblock : hd.IsBlock h bytes) :
    ∃ body, convertHashDataToString hd = some body ∧
      ∀ backend files, (processReceivedData backend files "/Data.json" body).dataQueue = [hd] := by
  obtain ⟨root, hroot, hback⟩ := convertJsonToHashData_of_isBlock hblock
  refine ⟨root, (convertHashDataToString_eq hblock).trans hroot, fun backend files => ?_⟩
  rw [processReceivedData_data, answerDataPostRequest, convertStringToHashData, Json.loads, Option.bind_some, hback]
  rfl

/-- The body of an array of blocks brings these blocks. -/
theorem dataArray_queue {list : List HashData} (h : AllBlocks list) :
    ∃ body, (dataArrayRoot (blockArray list)).dumps = some body ∧
      ∀ backend files, (processReceivedData backend files "/Data_Array.json" body).dataQueue = list := by
  obtain ⟨hwritten, hback⟩ := blockArray_eq h
  have harray : (Json.arr (blockArray list)).wellEncoded = true := by
    rw [Json.wellEncoded, Json.wellEncodedAll_iff]
    exact hwritten
  refine ⟨_, if_pos (wellEncoded_insert rfl (by simpa using harray) _), fun backend files => ?_⟩
  obtain ⟨_, _, hget⟩ := finds_empty.insert "data_array" rfl (some (Json.arr (blockArray list)))
  have hlist : (dataArrayRoot (blockArray list)).get "data_array" = some (Json.arr (blockArray list)) := hget _
  rw [processReceivedData_dataArray, answerDataArrayPostRequest, Json.loads, Option.map_some, Option.getD_some,
    extractHashDataFromArray, extractGlistFromArray_eq]
  change List.filterMap id (List.map convertJsonToHashData
    (Json.elements ((dataArrayRoot (blockArray list)).get "data_array"))) = list
  rw [hlist, Json.elements_arr, hback, List.filterMap_map]
  simp

/-- The hash of a single block is among those that its body carries. -/
theorem data_body {hd : HashData} {h : Hash} {bytes : Bytes} (hblock : hd.IsBlock h bytes) :
    ∃ body, convertHashDataToString hd = some body ∧ h ∈ blocksOf "/Data.json" body := by
  obtain ⟨body, hbody, hqueue⟩ := data_queue hblock
  refine ⟨body, hbody, none, fun _ => none, hd, ?_, hblock.hash, by simp [hblock.data]⟩
  rw [hqueue]
  exact List.mem_singleton_self hd

/-- So are the hashs of an array of blocks. -/
theorem dataArray_body {list : List HashData} (h : AllBlocks list) :
    ∃ body, (dataArrayRoot (blockArray list)).dumps = some body ∧
      ∀ g ∈ heldHashs list, g ∈ blocksOf "/Data_Array.json" body := by
  obtain ⟨body, hbody, hqueue⟩ := dataArray_queue h
  refine ⟨body, hbody, ?_⟩
  rintro g ⟨hd, hhd, hhash⟩
  refine ⟨none, fun _ => none, hd, ?_, hhash⟩
  rwa [hqueue]

/-- The two requests with blocks bring no records. -/
theorem recordsOf_data (body : Json) :
    recordsOf "/Data.json" body = ∅ ∧ recordsOf "/Data_Array.json" body = ∅ ∧ recordsOf "/Hash_Array.json" body = ∅ := by
  refine ⟨?_, ?_, ?_⟩ <;>
  · ext smeta
    refine ⟨?_, fun h => absurd h (Set.notMem_empty smeta)⟩
    rintro ⟨backend, files, hmem⟩
    exact absurd hmem List.not_mem_nil

/-! ## The loops -/

/-- At the end of the loop of `send_all_data_to_server` the array is sent, unless it is empty. -/
theorem sendAllLoop_nil {limit : Int64} {list sent : List HashData} {bytes : Int32} (hcounted : sent ≠ [] ↔ 0 < bytes.toInt) :
    sendAllLoop limit list (blockArray sent) bytes [] =
      if sent = [] then .ret list else (insertArrayInRootAndSend (blockArray sent) list).bind fun _ => .ret list := by
  have hbytes : 0 < bytes ↔ sent ≠ [] := Int32.lt_iff_toInt_lt.trans hcounted.symm
  unfold sendAllLoop
  by_cases hnil : sent = []
  · rw [if_neg (fun h => hbytes.mp h hnil), if_pos hnil]
    rfl
  · rw [if_pos (hbytes.mpr hnil), if_neg hnil]
    rfl

/-- In a turn of it the block that is found joins the array, which is sent when the counter has reached the limit. -/
theorem sendAllLoop_cons (limit : Int64) {list : List HashData} (sent : List HashData) {hashData found : HashData}
    (hashList : List HashData) {bytes : Int32} (hfound : findHashInList list hashData.hash = some found) (hbytes : 0 ≤ bytes.toInt)
    (hread : 0 ≤ found.read.toInt) (hfits : bytes.toInt + found.read.toInt < 2 ^ 31) :
    ∃ bytes' : Int32, bytes'.toInt = bytes.toInt + found.read.toInt ∧
      sendAllLoop limit list (blockArray sent) bytes (hashData :: hashList) =
        if limit.toInt ≤ bytes'.toInt then
          (insertArrayInRootAndSend (blockArray (sent ++ [found])) (removeLink list hashData.hash)).bind fun _ =>
            sendAllLoop limit (removeLink list hashData.hash) (blockArray []) 0 hashList
        else sendAllLoop limit (removeLink list hashData.hash) (blockArray (sent ++ [found])) bytes' hashList := by
  have harray : blockArray sent ++ (convertHashDataToJson found).toList = blockArray (sent ++ [found]) := by
    simp [blockArray]
  have hsum := toInt_counter hbytes hread hfits
  refine ⟨(bytes.toInt64 + found.read).toInt32, hsum, ?_⟩
  rw [sendAllLoop, hfound]
  simp only [harray, Int64.le_iff_toInt_le, Int32.toInt_toInt64]
  rfl

section

variable {backend : Option FileBackend} {cachedWhen : List ClientEvent → Prop}

/-! ## Posting and keeping -/

/-- A request that brings no record and asks for nothing may be sent or kept when it carries what is owed. -/
theorem allowed_of_carries {history : List ClientEvent} {op : ClientOp} {url : String} {body : Json}
    (hrequest : op.request = some (url, body)) (hrecords : op.records = ∅) (hasked : askedHashs url body = [])
    (hcarries : Carries history (blocksOf url body ∪ heldHashs op.held)) : Allowed cachedWhen history op where
  noCrash := by
    rintro rfl
    exact absurd hrequest.symm (Option.some_ne_none _)
  carried := by
    rintro h (hh | ⟨smeta, hsmeta, _⟩)
    · rcases hcarries h hh with hh | hh | hh
      · exact Or.inl hh
      · exact Or.inr (Or.inl ⟨url, body, hrequest, hh⟩)
      · exact Or.inr (Or.inr hh)
    · rw [hrecords] at hsmeta
      exact absurd hsmeta (Set.notMem_empty smeta)
  asked := by
    intro url' body' hrequest'
    obtain ⟨rfl, rfl⟩ := Prod.mk.inj (Option.some.inj (hrequest.symm.trans hrequest'))
    rw [hasked]
    exact fun hd hhd => absurd hhd List.not_mem_nil
  cached := by
    rintro metaData onlyMeta rfl
    exact absurd hrequest.symm (Option.some_ne_none _)

/-- An operation brings the records of its request. -/
theorem records_eq_empty {op : ClientOp} {url : String} {body : Json} (hrequest : op.request = some (url, body))
    (hrecords : recordsOf url body = ∅) : op.records = ∅ := by
  ext smeta
  refine ⟨?_, fun h => absurd h (Set.notMem_empty smeta)⟩
  rintro ⟨url', body', hrequest', hsmeta⟩
  obtain ⟨rfl, rfl⟩ := Prod.mk.inj (Option.some.inj (hrequest.symm.trans hrequest'))
  rwa [hrecords] at hsmeta

/-- An operation without records is a progress, whatever it is answered. -/
theorem progress_of_noRecords {op : ClientOp} (hrecords : op.records = ∅) (history : List ClientEvent) (answer : ClientRes op) :
    Progress history (history ++ [⟨op, answer⟩]) ∅ := by
  refine ⟨⟨_, rfl, fun e he => ?_⟩, fun g hg => absurd hg (Set.notMem_empty g)⟩
  rw [List.mem_singleton.mp he]
  exact hrecords

/-- What a post or `db_save_buffer` of such a request accounts for. -/
theorem progress_of_request {history : List ClientEvent} {op : ClientOp} {answer : ClientRes op} {url : String}
    {body : Json} (hrequest : op.request = some (url, body)) (hrecords : op.records = ∅)
    (haccepted : acceptedOrKept ⟨op, answer⟩) :
    Progress history (history ++ [⟨op, answer⟩]) (blocksOf url body) := by
  refine ⟨⟨[⟨op, answer⟩], rfl, ?_⟩, fun g hg => ?_⟩
  · intro e he
    rw [List.mem_singleton.mp he]
    exact hrecords
  · rw [accounted_append]
    exact Or.inr ((mem_accounted_singleton _ _).mpr ⟨url, body, hrequest, Or.inl ⟨haccepted, hg⟩⟩)

/-- A request with blocks and nothing else: it is posted, and kept when the post fails; then the program goes on. -/
theorem wp_postOrKeep {α : Type} {url : String} {body : Json} {held : List HashData} {k : ClientProg α}
    {Q : α → List ClientEvent → Prop} {history : List ClientEvent} (hrecords : recordsOf url body = ∅)
    (hasked : askedHashs url body = []) (hcarries : Carries history (blocksOf url body ∪ heldHashs held))
    (hk : ∀ history', Progress history history' (blocksOf url body) → k.wp (savingRules backend cachedWhen) Q history') :
    ((ClientProg.postUrl url (some body) held).bind fun answer =>
      match answer with
      | some _ => k
      | none => (ClientProg.dbSaveBuffer url (some body) held).bind fun _ => k).wp
        (savingRules backend cachedWhen) Q history := by
  have hnone : ∀ op : ClientOp, op.request = some (url, body) → op.records = ∅ := fun _ hop => records_eq_empty hop hrecords
  refine ⟨allowed_of_carries rfl (hnone _ rfl) hasked hcarries, ?_⟩
  rintro (_ | answer) _
  · -- the post failed: the history grew by an event that accounts for nothing
    have hfailed : Progress history (history ++ [⟨.postUrl url (some body) held, (none : Option Json)⟩]) ∅ :=
      progress_of_noRecords (hnone _ rfl) history _
    refine ⟨allowed_of_carries rfl (hnone _ rfl) hasked (hcarries.progress hfailed fun g hg => Or.inr hg), fun answer _ => ?_⟩
    have hkept := @progress_of_request (history ++ [⟨.postUrl url (some body) held, (none : Option Json)⟩])
      (.dbSaveBuffer url (some body) held) answer url body rfl (hnone _ rfl) trivial
    exact hk _ ((hfailed.trans hkept).subset fun g hg => Or.inr hg)
  · exact hk _ (progress_of_request rfl (hnone _ rfl) ⟨answer, rfl⟩)

/-! ## Sending blocks -/

/-- `insert_array_in_root_and_send`: the blocks of the array are accounted for. -/
theorem wp_insertArrayInRootAndSend {α : Type} {sent held : List HashData} {k : ClientProg α}
    {Q : α → List ClientEvent → Prop} {history : List ClientEvent} (hsent : AllBlocks sent)
    (hcarries : Carries history (heldHashs sent ∪ heldHashs held))
    (hk : ∀ history', Progress history history' (heldHashs sent) → k.wp (savingRules backend cachedWhen) Q history') :
    ((insertArrayInRootAndSend (blockArray sent) held).bind fun _ => k).wp (savingRules backend cachedWhen) Q history := by
  obtain ⟨body, hbody, hblocks⟩ := dataArray_body hsent
  have hcarries' : Carries history (blocksOf "/Data_Array.json" body ∪ heldHashs held) :=
    fun g hg => (hcarries g hg).imp_right (Or.imp_left (hblocks g))
  have hpost := @wp_postOrKeep backend cachedWhen α _ body held k Q history (recordsOf_data body).2.1 rfl hcarries'
    fun history' hprogress => hk history' (hprogress.subset hblocks)
  rw [insertArrayInRootAndSend, hbody]
  simp only [Prog.bind_eq, Prog.pure_eq, Prog.bind_assoc]
  rw [Prog.wp_bind] at hpost ⊢
  refine Prog.wp_mono hpost fun answer history' h => ?_
  cases answer with
  | none => exact h
  | some answer => exact h

/-- The loop of `send_all_data_to_server`: as long as the counter fits, every block that is picked is accounted for. -/
theorem wp_sendAllLoop {limit : Int64} {hashList : List HashData} :
    ∀ {list sent picked : List HashData} {bytes : Int32} {history : List ClientEvent}, AllBlocks list → AllBlocks sent →
      pickedBlocks list hashList = some picked → Fits limit.toInt bytes.toInt (picked.map fun hd => hd.read.toInt) →
      0 ≤ bytes.toInt → (sent ≠ [] ↔ 0 < bytes.toInt) → Carries history (heldHashs sent ∪ heldHashs picked) →
      (sendAllLoop limit list (blockArray sent) bytes hashList).wp (savingRules backend cachedWhen)
        (fun _ history' => Progress history history' (heldHashs sent ∪ heldHashs picked)) history := by
  induction hashList with
  | nil =>
    intro list sent picked bytes history _ hsent hpicked _ _ hcounted hcarries
    obtain rfl := Option.some.inj hpicked
    have hnothing : ∀ g ∈ heldHashs sent ∪ heldHashs [], g ∈ heldHashs sent :=
      fun g hg => hg.resolve_right (not_mem_heldHashs_nil g)
    rw [sendAllLoop_nil hcounted]
    split
    · rename_i hnil
      subst hnil
      exact Progress.refl fun g hg => absurd (hnothing g hg) (not_mem_heldHashs_nil g)
    · refine wp_insertArrayInRootAndSend hsent (fun g hg => (hcarries g hg).imp_right fun h => Or.inl (hnothing g h)) ?_
      intro history' hprogress
      exact hprogress.subset hnothing
  | cons hashData hashList ih =>
    intro list sent picked bytes history hlist hsent hpicked hfits hbytes _ hcarries
    obtain ⟨found, picked, hfound, hmem, hpicked', rfl⟩ := pickedBlocks_cons hpicked
    have hread := hlist.read_pos hmem
    have hsent' := hlist.concat hsent hmem
    have hmove : ∀ h ∈ heldHashs sent ∪ heldHashs (found :: picked), h ∈ heldHashs (sent ++ [found]) ∨ h ∈ heldHashs picked := by
      rintro h (hh | hh)
      · exact Or.inl (mem_heldHashs_append.mpr (Or.inl hh))
      · rcases mem_heldHashs_cons.mp hh with hh | hh
        · exact Or.inl (mem_heldHashs_append.mpr (Or.inr hh))
        · exact Or.inr hh
    have hheld := heldHashs_subset (pickedBlocks_subset hpicked')
    obtain ⟨bytes', hsum, hturn⟩ := sendAllLoop_cons limit sent hashList hfound hbytes hread.le hfits.1
    have hfits' := hfits.2
    rw [hturn]
    rw [← hsum] at hfits'
    split
    · -- the array is flushed, and the counter starts again
      rename_i hflush
      rw [if_pos hflush] at hfits'
      refine wp_insertArrayInRootAndSend hsent'
        (fun h hh => (hcarries h hh).imp_right fun hh => (hmove h hh).imp_right (hheld h)) ?_
      intro history' hprogress
      have hcarries' : Carries history' (heldHashs [] ∪ heldHashs picked) :=
        hcarries.progress hprogress fun h hh => (hmove h hh).imp_right Or.inr
      refine Prog.wp_mono (ih (hlist.removed _) allBlocks_nil hpicked' hfits' (le_refl 0) (by simp) hcarries')
        fun _ history'' hprogress' => ?_
      exact (hprogress.trans hprogress').subset fun h hh => (hmove h hh).imp_right Or.inr
    · rename_i hflush
      rw [if_neg hflush] at hfits'
      have hpos : 0 < bytes'.toInt := by omega
      refine Prog.wp_mono (ih (hlist.removed _) hsent' hpicked' hfits' hpos.le (iff_of_true (by simp) hpos)
        fun h hh => (hcarries h hh).imp_right (hmove h)) fun _ history' hprogress => ?_
      exact hprogress.subset hmove

/-- `send_all_data_to_server`, given an answer that lists blocks of the list. -/
theorem wp_sendAllDataToServer {main : MainStruct} {list picked : List HashData} {answer : Json} {history : List ClientEvent}
    (hlist : AllBlocks list) (hpicked : pickedBlocks list (listedHashs answer) = some picked) (hsub : picked.Sublist list)
    (hfits : FitsCounter main.buffersize.toInt list) (hcarries : Carries history (heldHashs picked)) :
    (sendAllDataToServer main list (some answer)).wp (savingRules backend cachedWhen)
      (fun _ history' => Progress history history' (heldHashs picked)) history := by
  have hloop := @wp_sendAllLoop backend cachedWhen main.buffersize.toInt64 (listedHashs answer) list [] picked 0 history
    hlist allBlocks_nil hpicked (by simpa [Int32.toInt_toInt64] using hfits picked hsub) (le_refl 0) (by simp)
    fun h hh => (hcarries h hh).imp_right Or.inr
  rw [sendAllDataToServer_eq main hpicked]
  exact Prog.wp_mono hloop fun _ history' hprogress => hprogress.subset fun h hh => Or.inr hh

/-- The loop of `send_data_to_server`. -/
theorem wp_sendLoop {hashList : List HashData} :
    ∀ {list picked : List HashData} {history : List ClientEvent}, AllBlocks list →
      pickedBlocks list hashList = some picked → Carries history (heldHashs picked) →
      (sendLoop list hashList).wp (savingRules backend cachedWhen)
        (fun _ history' => Progress history history' (heldHashs picked)) history := by
  induction hashList with
  | nil =>
    intro list picked history _ hpicked _
    obtain rfl := Option.some.inj hpicked
    exact Progress.refl fun h hh => absurd hh (not_mem_heldHashs_nil h)
  | cons hashData hashList ih =>
    intro list picked history hlist hpicked hcarries
    have hheld := heldHashs_subset (pickedBlocks_subset hpicked)
    obtain ⟨found, picked, hfound, hmem, hpicked', rfl⟩ := pickedBlocks_cons hpicked
    obtain ⟨g, data, hblock, _⟩ := hlist found hmem
    obtain ⟨body, hbody, hg⟩ := data_body hblock
    have hone : ∀ h ∈ heldHashs [found], h ∈ blocksOf "/Data.json" body := by
      rintro h ⟨hd, hhd, hhash, _⟩
      rw [List.mem_singleton.mp hhd, hblock.hash, Option.some.injEq] at hhash
      rwa [← Hash.ext hhash]
    unfold sendLoop
    rw [hfound]
    simp only [hbody]
    refine wp_postOrKeep (recordsOf_data body).1 rfl (fun h hh => (hcarries h hh).imp_right fun hh => Or.inr (hheld h hh)) ?_
    intro history' hprogress
    have hmove : ∀ h ∈ heldHashs (found :: picked), h ∈ blocksOf "/Data.json" body ∨ h ∈ heldHashs picked :=
      fun h hh => (mem_heldHashs_cons.mp hh).imp_left (hone h)
    refine Prog.wp_mono (ih (hlist.removed _) hpicked' (hcarries.progress hprogress hmove)) fun _ history'' hprogress' => ?_
    exact (hprogress.trans hprogress').subset hmove

/-- `send_data_to_server`, given an answer that lists blocks of the list. -/
theorem wp_sendDataToServer {list picked : List HashData} {answer : Json} {history : List ClientEvent}
    (hlist : AllBlocks list) (hpicked : pickedBlocks list (listedHashs answer) = some picked)
    (hcarries : Carries history (heldHashs picked)) :
    (sendDataToServer list (some answer)).wp (savingRules backend cachedWhen)
      (fun _ history' => Progress history history' (heldHashs picked)) history := by
  rw [sendDataToServer_eq hpicked]
  exact wp_sendLoop hlist hpicked hcarries

/-! ## Asking -/

/-- An answer selects blocks of a list, and every hash that it does not list is accounted for. -/
def Selects (history : List ClientEvent) (list : List HashData) (hs : List Hash) (answer : Json) : Prop :=
  ∃ picked, pickedBlocks list (listedHashs answer) = some picked ∧ picked.Sublist list ∧
    ∀ h ∈ hs, h ∈ accounted history ∨ h ∈ heldHashs picked

/-- The blocks of a list are its hashs. -/
theorem mem_heldHashs {list : List HashData} {hs : List Hash} (hblocks : AllBlocks list) (h : HashsAre list hs) (g : Hash) :
    g ∈ heldHashs list ↔ g ∈ hs := by
  rw [← h.mem]
  constructor
  · rintro ⟨hd, hhd, hhash, _⟩
    exact ⟨hd, hhd, hhash⟩
  · rintro ⟨hd, hhd, hhash⟩
    obtain ⟨_, _, hblock, _⟩ := hblocks hd hhd
    exact ⟨hd, hhd, hhash, by simp [hblock.data]⟩

/-- The answer that lists every hash selects the whole list. -/
theorem selects_all {history : List ClientEvent} {list : List HashData} {hs : List Hash} (hblocks : AllBlocks list)
    (h : HashsAre list hs) : Selects history list hs (hashListRoot (convertHashListToJson list)) :=
  ⟨list, pickedBlocks_all h (listedHashs_hashListRoot h), List.Sublist.refl _,
    fun g hg => Or.inr ((mem_heldHashs hblocks h g).mpr hg)⟩

/-- The answer of the server selects the blocks that it does not have. -/
theorem selects_needed {history : List ClientEvent} {list held : List HashData} {hs : List Hash} {url : String}
    {body answer : Json} {files : Files} (hblocks : AllBlocks list) (h : HashsAre list hs)
    (hasked : HashsAre (askedHashs url body) hs)
    (hlisted : HashsAre (listedHashs answer) (serverNeeds backend files hs)) :
    Selects (history ++ [⟨.postUrl url (some body) held, some answer⟩]) list hs answer := by
  have hpick : ∃ picked, pickedBlocks list (listedHashs answer) = some picked ∧ picked.Sublist list := by
    cases backend with
    | none => exact ⟨list, pickedBlocks_all h hlisted, List.Sublist.refl _⟩
    | some backend => exact pickedBlocks_needed (hasBlock backend files) h hlisted
  obtain ⟨picked, hpicked, hsub⟩ := hpick
  refine ⟨picked, hpicked, hsub, fun g hg => ?_⟩
  by_cases hmem : ∃ hd ∈ listedHashs answer, hd.hash = some g.bytes
  · exact Or.inr (pickedBlocks_hashs hblocks hpicked g hmem)
  · refine Or.inl ?_
    rw [accounted_append]
    exact Or.inr ((mem_accounted_singleton _ _).mpr
      ⟨url, body, rfl, Or.inr ⟨answer, rfl, hasked.mem.mpr hg, hmem⟩⟩)

/-- `send_hash_array_to_server`. -/
theorem wp_sendHashArrayToServer {list : List HashData} {hs : List Hash} {history : List ClientEvent} (hne : list ≠ [])
    (hblocks : AllBlocks list) (h : HashsAre list hs) (hcarries : Carries history ∅) :
    (sendHashArrayToServer list).wp (savingRules backend cachedWhen)
      (fun answer history' => Progress history history' ∅ ∧ ∃ text, answer = some text ∧ Selects history' list hs text)
      history := by
  have hbody := dumps_hashListRoot h
  have hasked : HashsAre (askedHashs "/Hash_Array.json" (hashListRoot (convertHashListToJson list))) hs :=
    listedHashs_hashListRoot h
  have hrecords : (ClientOp.postUrl "/Hash_Array.json" (some (hashListRoot (convertHashListToJson list))) list).records = ∅ :=
    records_eq_empty rfl (recordsOf_data _).2.2
  unfold sendHashArrayToServer
  rw [if_pos hne, hbody]
  refine ⟨⟨by simp, ?_, ?_, by simp⟩, ?_⟩
  · rintro g (hg | ⟨smeta, hsmeta, _⟩)
    · exact Or.inl (hcarries.settled hg)
    · rw [hrecords] at hsmeta
      exact absurd hsmeta (Set.notMem_empty smeta)
  · intro url body hrequest
    obtain ⟨rfl, rfl⟩ := Prod.mk.inj (Option.some.inj hrequest)
    exact hasked.allHashed
  · rintro (_ | answer) hok
    · exact ⟨progress_of_noRecords hrecords history none, _, rfl, selects_all hblocks h⟩
    · obtain ⟨body, hsome, files, hanswer⟩ := hok answer rfl
      obtain rfl := Option.some.inj hsome
      rw [processReceivedData_hashArray] at hanswer
      obtain ⟨answer', hdumps, hlisted⟩ := @findNeededHashs_answer backend files _ _ hasked
      obtain rfl := Option.some.inj (hdumps.symm.trans hanswer)
      exact ⟨progress_of_noRecords hrecords history _, _, rfl, selects_needed hblocks h hasked hlisted⟩

/-- `lets_send_all_that_now`: every block that is handed over is accounted for. -/
theorem wp_letsSendAllThatNow {main : MainStruct} {list saved : List HashData} {hs : List Hash} {history : List ClientEvent}
    (hblocks : AllBlocks list) (h : HashsAre list hs) (hfits : FitsCounter main.buffersize.toInt list)
    (hcarries : Carries history ∅) :
    (letsSendAllThatNow main list saved).wp (savingRules backend cachedWhen)
      (fun saved' history' => saved' = list.map copyOnlyHash ++ saved ∧ Progress history history' {g | g ∈ hs}) history := by
  unfold letsSendAllThatNow
  by_cases hnil : list = []
  · subst hnil
    obtain rfl : hs = [] := by simpa [HashsAre] using h
    exact ⟨rfl, Progress.refl fun g hg => absurd hg List.not_mem_nil⟩
  · refine Prog.wp_seq (wp_sendHashArrayToServer hnil hblocks h hcarries) ?_
    rintro answer middle ⟨hprogress, text, rfl, picked, hpicked, hsub, hselects⟩
    have hcarries' : Carries middle (heldHashs picked) :=
      hcarries.progress hprogress fun g hg => absurd hg (Set.notMem_empty g)
    refine Prog.wp_seq (wp_sendAllDataToServer hblocks hpicked hsub hfits hcarries') fun _ history' hprogress' => ?_
    refine ⟨rfl, (hprogress.trans hprogress').grows, fun g hg => ?_⟩
    rcases hselects g hg with hg | hg
    · exact hprogress'.mono g hg
    · exact hprogress'.blocks g hg

/-! ## Meta data -/

/-- The record of a file with hashs `hs` was sent: nothing but its hashs was recorded, and it was accepted or kept exactly when
it could be written. -/
structure Sent (history history' : List ClientEvent) (hs : List Hash) (written : Prop) : Prop where
  grows : ∃ new, history' = history ++ new
  recorded : ∀ g ∈ recorded history', g ∈ recorded history ∨ g ∈ hs
  saved : ∀ hs', RecordSaved history' hs' ↔ RecordSaved history hs' ∨ (written ∧ hs' = hs)

/-- What is accounted for stays so. -/
theorem Sent.mono {history history' : List ClientEvent} {hs : List Hash} {written : Prop}
    (h : Sent history history' hs written) : ∀ g ∈ accounted history, g ∈ accounted history' := by
  intro g hg
  obtain ⟨new, rfl⟩ := h.grows
  rw [accounted_append]
  exact Or.inl hg

/-- A record is sent after a progress. -/
theorem Sent.after {history middle history' : List ClientEvent} {blocks : Set Hash} {hs : List Hash} {written : Prop}
    (hprogress : Progress history middle blocks) (h : Sent middle history' hs written) :
    Sent history history' hs written where
  grows := by
    obtain ⟨new, rfl, _⟩ := hprogress.grows
    obtain ⟨new', rfl⟩ := h.grows
    exact ⟨new ++ new', List.append_assoc _ _ _⟩
  recorded := by
    intro g hg
    have := h.recorded g hg
    rwa [hprogress.recorded_eq] at this
  saved := by
    intro hs'
    rw [h.saved, hprogress.recordSaved_iff]

/-- A record is sent and sent again. -/
theorem Sent.trans {history middle history' : List ClientEvent} {hs : List Hash} {written written' : Prop}
    (h : Sent history middle hs written) (h' : Sent middle history' hs written') :
    Sent history history' hs (written ∨ written') where
  grows := by
    obtain ⟨new, rfl⟩ := h.grows
    obtain ⟨new', rfl⟩ := h'.grows
    exact ⟨new ++ new', List.append_assoc _ _ _⟩
  recorded := by
    intro g hg
    rcases h'.recorded g hg with hg | hg
    · exact h.recorded g hg
    · exact Or.inr hg
  saved := by
    intro hs'
    rw [h'.saved, h.saved]
    tauto

/-- The same under another condition. -/
theorem Sent.congr {history history' : List ClientEvent} {hs : List Hash} {written written' : Prop}
    (h : Sent history history' hs written) (hiff : written ↔ written') : Sent history history' hs written' :=
  ⟨h.grows, h.recorded, fun hs' => by rw [h.saved, hiff]⟩

/-- A record is sent before a progress. -/
theorem Sent.before {history middle history' : List ClientEvent} {blocks : Set Hash} {hs : List Hash} {written : Prop}
    (h : Sent history middle hs written) (hprogress : Progress middle history' blocks) :
    Sent history history' hs written where
  grows := by
    obtain ⟨new, rfl⟩ := h.grows
    obtain ⟨new', rfl, _⟩ := hprogress.grows
    exact ⟨new ++ new', List.append_assoc _ _ _⟩
  recorded := by
    intro g hg
    rw [hprogress.recorded_eq] at hg
    exact h.recorded g hg
  saved := by
    intro hs'
    rw [hprogress.recordSaved_iff, h.saved]

/-- The text of a record: it is written or not, and when it is, the server reads the hashs back. -/
theorem meta_body {metaData : MetaData} {hs : List Hash} (h : HashsAre metaData.hashDataList hs) {hostname : CString}
    {dataSent : Bool} {body : Json} (hbody : convertMetaDataToJsonString metaData (some hostname) dataSent = some body) :
    ∃ m : MetaData, HashsAre m.hashDataList hs ∧
      (∀ smeta, smeta ∈ recordsOf "/Meta.json" body ↔ smeta = ⟨some hostname, dataSent, some m⟩) ∧
      askedHashs "/Meta.json" body = (if dataSent = false then m.hashDataList else []) ∧
      ∀ backend files, processReceivedData backend files "/Meta.json" body =
        ⟨(hashListRoot (if dataSent = false then findNeededHashs backend files m.hashDataList else Json.arr [])).dumps,
          [⟨some hostname, dataSent, some m⟩], []⟩ := by
  have hroot : body = convertMetaDataToJson metaData (some hostname) dataSent := by
    rw [convertMetaDataToJsonString, Json.dumps] at hbody
    split at hbody
    · exact (Option.some.inj hbody).symm
    · cases hbody
  have hsmeta : ∃ m : MetaData, HashsAre m.hashDataList hs ∧
      convertJsonToSmetaData body = some ⟨some hostname, dataSent, some m⟩ := by
    rw [hroot, convertJsonToSmetaData, Json.loads, Option.map_some, WireAux.fills_convertMetaDataToJson h]
    refine ⟨_, ?_, rfl⟩
    rw [HashsAre, List.map_map]
    rfl
  obtain ⟨m, hm, hsmeta⟩ := hsmeta
  have hprocessed : ∀ backend files, processReceivedData backend files "/Meta.json" body =
      ⟨(hashListRoot (if dataSent = false then findNeededHashs backend files m.hashDataList else Json.arr [])).dumps,
        [⟨some hostname, dataSent, some m⟩], []⟩ := by
    intro backend files
    rw [processReceivedData_meta, answerMetaJsonPostRequest, hsmeta]
  refine ⟨m, hm, fun smeta => ?_, ?_, hprocessed⟩
  · rw [@mem_recordsOf none fun _ => none, hprocessed, List.mem_singleton]
  · have hurl : gStrHasPrefix "/Meta.json" "/Meta.json" = true := by decide
    rw [askedHashs, if_pos hurl, hsmeta]
    cases dataSent <;> rfl

/-- The request of a record, posted or kept. -/
structure MetaOp (op : ClientOp) (main : MainStruct) (metaData : MetaData) (dataSent : Bool) : Prop where
  request : op.request =
    (convertMetaDataToJsonString metaData (some main.hostname) dataSent).map fun body => ("/Meta.json", body)
  held : op.held = metaData.hashDataList

/-- It records nothing but its hashs. -/
theorem MetaOp.recordHashs {op : ClientOp} {main : MainStruct} {metaData : MetaData} {dataSent : Bool}
    (hop : MetaOp op main metaData dataSent) {hs : List Hash} (h : HashsAre metaData.hashDataList hs) :
    ∀ g ∈ op.recordHashs, g ∈ hs := by
  rintro g ⟨smeta, ⟨url, body, hrequest, hsmeta⟩, m, hm, hg⟩
  obtain ⟨body', hbody, heq⟩ := Option.map_eq_some_iff.mp (hop.request.symm.trans hrequest)
  obtain ⟨rfl, rfl⟩ := Prod.mk.inj heq
  obtain ⟨m', hm', hrecord, _⟩ := meta_body h hbody
  rw [(hrecord smeta).mp hsmeta, Option.some.injEq] at hm
  exact hm'.mem.mp (hm ▸ hg)

/-- It saves the record with its hashs, when it is written and accepted or kept. -/
theorem MetaOp.sent {op : ClientOp} {main : MainStruct} {metaData : MetaData} {dataSent : Bool}
    (hop : MetaOp op main metaData dataSent) {hs : List Hash} (h : HashsAre metaData.hashDataList hs) (answer : ClientRes op)
    (history : List ClientEvent) :
    Sent history (history ++ [⟨op, answer⟩]) hs (acceptedOrKept ⟨op, answer⟩ ∧
      convertMetaDataToJsonString metaData (some main.hostname) dataSent ≠ none) where
  grows := ⟨_, rfl⟩
  recorded := by
    intro g hg
    rw [recorded_append] at hg
    exact hg.imp_right fun hg => hop.recordHashs h g ((mem_recorded_singleton _ _).mp hg)
  saved := by
    intro hs'
    have hone : RecordSaved [⟨op, answer⟩] hs' ↔ acceptedOrKept ⟨op, answer⟩ ∧
        ∃ smeta ∈ op.records, ∃ m, smeta.metaData = some m ∧ HashsAre m.hashDataList hs' := by
      simp [RecordSaved]
    rw [recordSaved_append, hone, and_assoc]
    refine or_congr_right (and_congr_right fun _ => ?_)
    constructor
    · rintro ⟨smeta, ⟨url, body, hrequest, hsmeta⟩, m, hm, hhs'⟩
      obtain ⟨body', hbody, heq⟩ := Option.map_eq_some_iff.mp (hop.request.symm.trans hrequest)
      obtain ⟨rfl, rfl⟩ := Prod.mk.inj heq
      obtain ⟨m', hm', hrecord, _⟩ := meta_body h hbody
      rw [(hrecord smeta).mp hsmeta, Option.some.injEq] at hm
      exact ⟨by simp [hbody], hm'.unique (hm ▸ hhs')⟩
    · rintro ⟨hwritten, rfl⟩
      obtain ⟨body, hbody⟩ := Option.ne_none_iff_exists'.mp hwritten
      obtain ⟨m, hm, hrecord, _⟩ := meta_body h hbody
      exact ⟨_, ⟨"/Meta.json", body, by rw [hop.request, hbody]; rfl, (hrecord _).mpr rfl⟩, m, rfl, hm⟩

/-- It is allowed when what is recorded, and its own hashs, are accounted for or held. -/
theorem MetaOp.allowed {op : ClientOp} {main : MainStruct} {metaData : MetaData} {dataSent : Bool}
    (hop : MetaOp op main metaData dataSent) {hs : List Hash} (h : HashsAre metaData.hashDataList hs)
    {history : List ClientEvent} (hcarries : Carries history (heldHashs metaData.hashDataList))
    (hown : ∀ g ∈ hs, g ∈ accounted history ∨ g ∈ heldHashs metaData.hashDataList) (hcall : ∀ m o, op ≠ .dbSaveMetaData m o)
    (hcrash : op ≠ .crash) : Allowed cachedWhen history op where
  noCrash := hcrash
  carried := by
    rintro g (hg | hg)
    · exact (hcarries g hg).imp_right fun hg => Or.inr (hop.held ▸ hg)
    · exact (hown g (hop.recordHashs h g hg)).imp_right fun hg => Or.inr (hop.held ▸ hg)
  asked := by
    intro url body hrequest
    obtain ⟨body', hbody, heq⟩ := Option.map_eq_some_iff.mp (hop.request.symm.trans hrequest)
    obtain ⟨rfl, rfl⟩ := Prod.mk.inj heq
    obtain ⟨m, hm, _, hasked, _⟩ := meta_body h hbody
    rw [hasked]
    split
    · exact hm.allHashed
    · exact fun hd hhd => absurd hhd List.not_mem_nil
  cached := fun m o heq => absurd heq (hcall m o)

/-- `send_meta_data_to_server`: there is an answer, and it selects the blocks that are asked for. -/
theorem wp_sendMetaDataToServer {main : MainStruct} {metaData : MetaData} {dataSent : Bool} {hs : List Hash}
    {history : List ClientEvent} (h : HashsAre metaData.hashDataList hs) (hcarries : Carries history ∅)
    (hown : (∀ g ∈ hs, g ∈ accounted history) ∨ (dataSent = false ∧ AllBlocks metaData.hashDataList)) :
    (sendMetaDataToServer main metaData dataSent).wp (savingRules backend cachedWhen)
      (fun answer history' => Sent history history' hs
          (convertMetaDataToJsonString metaData (some main.hostname) dataSent ≠ none) ∧
        ∃ text, answer = some text ∧ (dataSent = false → AllBlocks metaData.hashDataList →
          Selects history' metaData.hashDataList hs text)) history := by
  generalize htext : convertMetaDataToJsonString metaData (some main.hostname) dataSent = text
  have hpost : MetaOp (.postUrl "/Meta.json" text metaData.hashDataList) main metaData dataSent := ⟨by rw [htext]; rfl, rfl⟩
  have hkeep : MetaOp (.dbSaveBuffer "/Meta.json" text metaData.hashDataList) main metaData dataSent :=
    ⟨by rw [htext]; rfl, rfl⟩
  have hheld : ∀ g ∈ hs, g ∈ accounted history ∨ g ∈ heldHashs metaData.hashDataList := by
    intro g hg
    rcases hown with hown | ⟨_, hblocks⟩
    · exact Or.inl (hown g hg)
    · exact Or.inr ((mem_heldHashs hblocks h g).mpr hg)
  unfold sendMetaDataToServer
  rw [htext]
  refine ⟨hpost.allowed h (fun g hg => Or.inl (hcarries.settled hg)) hheld (by simp) (by simp), ?_⟩
  rintro (_ | answer) hok
  · -- the post failed: the record is kept if it could be written, and the answer is made up
    have hsent := hpost.sent h none history
    refine ⟨hkeep.allowed h (fun g hg => ?_) (fun g hg => (hheld g hg).imp_left (hsent.mono g)) (by simp) (by simp),
      fun answer _ => ⟨?_, _, dumps_hashListRoot h, fun _ hblocks => selects_all hblocks h⟩⟩
    · rcases hsent.recorded g hg with hg | hg
      · exact Or.inl (hsent.mono g (hcarries.settled hg))
      · exact (hheld g hg).imp_left (hsent.mono g)
    · refine (hsent.trans (hkeep.sent h answer _)).congr ?_
      rw [htext]
      exact ⟨fun h => h.elim And.right And.right, fun h => Or.inr ⟨trivial, h⟩⟩
  · refine ⟨(hpost.sent h (some answer) history).congr ?_, answer, rfl, ?_⟩
    · rw [htext]
      exact and_iff_right ⟨answer, rfl⟩
    · rintro rfl hblocks
      obtain ⟨body, rfl, files, hanswer⟩ := hok answer rfl
      obtain ⟨m, hm, _, hasked, hprocessed⟩ := meta_body h htext
      rw [hprocessed] at hanswer
      obtain ⟨answer', hdumps, hlisted⟩ := @findNeededHashs_answer backend files _ _ hm
      obtain rfl := Option.some.inj (hdumps.symm.trans hanswer)
      exact selects_needed hblocks h (hasked ▸ hm) hlisted

end

end SavingAux

end Sauvegarde
