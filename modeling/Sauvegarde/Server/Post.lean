import Sauvegarde.Libcdpfgl.Unpacking
import Sauvegarde.Server.FileData

/-!
# Post requests

What the server does with a request it received: the answer it gives, and what it pushes into its queues. `data_thread` and
`meta_data_thread` take it out of them later. The backend of the data is the file backend, or one that does not say which hashs it
needs.
-/

namespace Sauvegarde

/-- `MHD_HTTP_OK`. -/
def MHD_HTTP_OK : UInt32 := 200

/-- `MHD_HTTP_BAD_REQUEST`. -/
def MHD_HTTP_BAD_REQUEST : UInt32 := 400

/-- `MHD_HTTP_INTERNAL_SERVER_ERROR`. -/
def MHD_HTTP_INTERNAL_SERVER_ERROR : UInt32 := 500

/-- What a request leaves behind: the answer, and what was pushed into `meta_queue` and `data_queue`. A `NULL` is not pushed. -/
structure Processed where
  answer : Option Json
  metaQueue : List ServerMetaData
  dataQueue : List HashData

/-- `find_needed_hashs`: a backend without `build_needed_hash_list` needs every hash. -/
def findNeededHashs (backend : Option FileBackend) (files : Files) (hashDataList : List HashData) : Json :=
  match backend with
  | some backend => convertHashListToJson (fileBuildNeededHashList backend files hashDataList)
  | none => convertHashListToJson hashDataList

/-- `answer_meta_json_post_request`. -/
def answerMetaJsonPostRequest (backend : Option FileBackend) (files : Files) (receivedData : Json) : Processed :=
  match convertJsonToSmetaData receivedData with
  | some ⟨hostname, dataSent, some metaData⟩ =>
    let array := if dataSent = false then findNeededHashs backend files metaData.hashDataList else Json.arr []
    ⟨(hashListRoot array).dumps, [⟨hostname, dataSent, some metaData⟩], []⟩
  | _ =>
    ⟨answerJsonErrorString MHD_HTTP_INTERNAL_SERVER_ERROR (CString.lit "Error: could not convert json to metadata\n"), [], []⟩

/-- `answer_hash_array_post_request`. -/
def answerHashArrayPostRequest (backend : Option FileBackend) (files : Files) (receivedData : Json) : Processed :=
  let hashDataList := ((Json.loads receivedData).map fun root => extractHashsFromArray root "hash_list").getD []
  ⟨(hashListRoot (findNeededHashs backend files hashDataList)).dumps, [], []⟩

/-- `answer_data_post_request`. -/
def answerDataPostRequest (receivedData : Json) : Processed :=
  ⟨answerJsonSuccessString MHD_HTTP_OK (CString.lit "Ok!"), [], (convertStringToHashData receivedData).toList⟩

/-- `answer_data_array_post_request`. -/
def answerDataArrayPostRequest (receivedData : Json) : Processed :=
  let hashDataList := ((Json.loads receivedData).map fun root => extractHashDataFromArray root "data_array").getD []
  ⟨answerJsonSuccessString MHD_HTTP_OK (CString.lit "Ok!"), [], hashDataList.filterMap id⟩

/-- `g_str_has_prefix`. -/
def gStrHasPrefix (text start : String) : Bool := (str start).isPrefixOf (str text)

/-- `process_received_data`. -/
def processReceivedData (backend : Option FileBackend) (files : Files) (url : String) (receivedData : Json) : Processed :=
  if gStrHasPrefix url "/Meta.json" then answerMetaJsonPostRequest backend files receivedData
  else if gStrHasPrefix url "/Hash_Array.json" then answerHashArrayPostRequest backend files receivedData
  else if gStrHasPrefix url "/Data.json" then answerDataPostRequest receivedData
  else if gStrHasPrefix url "/Data_Array.json" then answerDataArrayPostRequest receivedData
  else ⟨answerJsonErrorString MHD_HTTP_BAD_REQUEST (CString.lit "Invalid url!\n"), [], []⟩

/-! ## What a request carries -/

/-- The hashs of the blocks that are pushed for a request, whatever files there are. -/
def blocksOf (url : String) (body : Json) : Set Hash :=
  {h | ∃ backend files, ∃ hd ∈ (processReceivedData backend files url body).dataQueue,
    hd.hash = some h.bytes ∧ hd.data ≠ none}

/-- The hashs of a record. -/
def ServerMetaData.hashs (smeta : ServerMetaData) : Set Hash :=
  {h | ∃ metaData, smeta.metaData = some metaData ∧ ∃ hd ∈ metaData.hashDataList, hd.hash = some h.bytes}

/-- The records that are pushed for a request, whatever files there are. -/
def recordsOf (url : String) (body : Json) : Set ServerMetaData :=
  {smeta | ∃ backend files, smeta ∈ (processReceivedData backend files url body).metaQueue}

/-- What is pushed for a request does not depend on the files. -/
theorem queues_processReceivedData (backend backend' : Option FileBackend) (files files' : Files) (url : String) (body : Json) :
    (processReceivedData backend files url body).metaQueue = (processReceivedData backend' files' url body).metaQueue ∧
      (processReceivedData backend files url body).dataQueue = (processReceivedData backend' files' url body).dataQueue := by
  unfold processReceivedData
  split_ifs
  · unfold answerMetaJsonPostRequest
    split <;> exact ⟨rfl, rfl⟩
  all_goals exact ⟨rfl, rfl⟩

/-- The blocks of a request are the ones that are pushed. -/
theorem mem_blocksOf {backend : Option FileBackend} {files : Files} {url : String} {body : Json} {h : Hash} :
    h ∈ blocksOf url body ↔
      ∃ hd ∈ (processReceivedData backend files url body).dataQueue, hd.hash = some h.bytes ∧ hd.data ≠ none := by
  constructor
  · rintro ⟨backend', files', hd, hmem, hhd⟩
    rw [(queues_processReceivedData backend' backend files' files url body).2] at hmem
    exact ⟨hd, hmem, hhd⟩
  · intro hhd
    exact ⟨backend, files, hhd⟩

/-- The records of a request are the ones that are pushed. -/
theorem mem_recordsOf {backend : Option FileBackend} {files : Files} {url : String} {body : Json} {smeta : ServerMetaData} :
    smeta ∈ recordsOf url body ↔ smeta ∈ (processReceivedData backend files url body).metaQueue := by
  constructor
  · rintro ⟨backend', files', hmem⟩
    rwa [(queues_processReceivedData backend' backend files' files url body).1] at hmem
  · intro hmem
    exact ⟨backend, files, hmem⟩

/-! ## The four requests -/

section

variable (backend : Option FileBackend) (files : Files) (body : Json)

theorem processReceivedData_meta :
    processReceivedData backend files "/Meta.json" body = answerMetaJsonPostRequest backend files body := rfl

theorem processReceivedData_hashArray :
    processReceivedData backend files "/Hash_Array.json" body = answerHashArrayPostRequest backend files body := rfl

theorem processReceivedData_data :
    processReceivedData backend files "/Data.json" body = answerDataPostRequest body := rfl

theorem processReceivedData_dataArray :
    processReceivedData backend files "/Data_Array.json" body = answerDataArrayPostRequest body := rfl

end

/-! ## What is asked for, and what is answered -/

/-- The hashs that the server looks for when it processes a request. -/
def askedHashs (url : String) (body : Json) : List HashData :=
  if gStrHasPrefix url "/Meta.json" then
    match convertJsonToSmetaData body with
    | some ⟨_, false, some metaData⟩ => metaData.hashDataList
    | _ => []
  else if gStrHasPrefix url "/Hash_Array.json" then extractHashsFromArray body "hash_list"
  else []

/-- The hashs that an answer lists. -/
def listedHashs (answer : Json) : List HashData := extractHashsFromArray answer "hash_list"

/-- What is found in an object with a list of hashs. -/
theorem finds_hashListRoot (array : Json) : Finds (hashListRoot array) fun k => if k = "hash_list" then some array else none :=
  finds_empty.insert "hash_list" rfl (some array)

/-- The hashs of a list come back from the object made of it. -/
theorem listedHashs_hashListRoot {list : List HashData} {hs : List Hash} (h : HashsAre list hs) :
    HashsAre (listedHashs (hashListRoot (convertHashListToJson list))) hs := by
  obtain ⟨_, _, hget⟩ := finds_hashListRoot (convertHashListToJson list)
  have hlist : (hashListRoot (convertHashListToJson list)).get "hash_list" = some (convertHashListToJson list) := hget _
  rw [listedHashs, extractHashsFromArray, extractGlistFromArray_eq, hlist, convertHashListToJson_eq h,
    Json.elements_arr, List.map_map, HashsAre, List.map_map]
  refine List.map_congr_left fun g _ => ?_
  rw [Function.comp_apply, Function.comp_apply, hashDataOfText_base64Text]
  rfl

/-- The object made of a list of hashs is written. -/
theorem dumps_hashListRoot {list : List HashData} {hs : List Hash} (h : HashsAre list hs) :
    (hashListRoot (convertHashListToJson list)).dumps = some (hashListRoot (convertHashListToJson list)) := by
  have hlist : (convertHashListToJson list).wellEncoded = true := by
    rw [convertHashListToJson_eq h, Json.wellEncoded, Json.wellEncodedAll_iff]
    intro v hv
    obtain ⟨g, _, rfl⟩ := List.mem_map.mp hv
    exact Json.wellEncoded_base64Text g.bytes
  exact if_pos (wellEncoded_insert rfl (by simpa using hlist) _)

/-- The hashs that a server needs of those it was asked for. -/
def serverNeeds (backend : Option FileBackend) (files : Files) (hs : List Hash) : List Hash :=
  match backend with
  | some backend => neededHashs (hasBlock backend files) [] hs
  | none => hs

/-- The answer to a list of hashs lists those that are needed. -/
theorem findNeededHashs_answer {backend : Option FileBackend} {files : Files} {list : List HashData} {hs : List Hash}
    (h : HashsAre list hs) :
    ∃ answer, (hashListRoot (findNeededHashs backend files list)).dumps = some answer ∧
      HashsAre (listedHashs answer) (serverNeeds backend files hs) := by
  cases backend with
  | none => exact ⟨_, dumps_hashListRoot h, listedHashs_hashListRoot h⟩
  | some backend =>
    have hneeded := fileBuildNeededHashList_eq backend files h
    exact ⟨_, dumps_hashListRoot hneeded, listedHashs_hashListRoot hneeded⟩

/-- A hash is one of the hashs of a list. -/
theorem HashsAre.mem {list : List HashData} {hs : List Hash} (h : HashsAre list hs) {g : Hash} :
    (∃ hd ∈ list, hd.hash = some g.bytes) ↔ g ∈ hs := by
  have hmem : (∃ hd ∈ list, hd.hash = some g.bytes) ↔ some g.bytes ∈ list.map HashData.hash := by simp
  rw [hmem, show list.map HashData.hash = _ from h, List.mem_map]
  constructor
  · rintro ⟨g', hg', heq⟩
    rwa [← Hash.ext (Option.some.inj heq)]
  · intro hg
    exact ⟨g, hg, rfl⟩

/-- A hash that the server was asked for and that its answer does not list has its block. -/
theorem exists_of_not_listed {backend : FileBackend} {files : Files} {url : String} {body answer : Json}
    (hasked : AllHashed (askedHashs url body))
    (hanswer : (processReceivedData (some backend) files url body).answer = some answer) {g : Hash}
    (hg : ∃ hd ∈ askedHashs url body, hd.hash = some g.bytes)
    (hlisted : ¬ ∃ hd ∈ listedHashs answer, hd.hash = some g.bytes) :
    hasBlock backend files g = true := by
  have hfound : ∀ {list : List HashData}, list = askedHashs url body →
      (hashListRoot (findNeededHashs (some backend) files list)).dumps = some answer →
      hasBlock backend files g = true := by
    rintro list rfl hdumps
    obtain ⟨hs, hhs⟩ := hasked.exists_hashs
    obtain ⟨answer', hdumps', hneeded⟩ := @findNeededHashs_answer (some backend) files _ _ hhs
    obtain rfl := Option.some.inj (hdumps'.symm.trans hdumps)
    rcases present_or_needed (hasBlock backend files) (hhs.mem.mp hg) with h | h | h
    · exact h
    · exact absurd h List.not_mem_nil
    · exact absurd (hneeded.mem.mpr h) hlisted
  unfold processReceivedData at hanswer
  unfold askedHashs at hfound hg
  split_ifs at hanswer hfound hg with hmeta harray
  · unfold answerMetaJsonPostRequest at hanswer
    split at hanswer
    · rename_i hostname dataSent metaData hsmeta
      rw [hsmeta] at hfound hg
      cases dataSent with
      | false => exact hfound rfl hanswer
      | true => exact absurd hg (by simp)
    · rename_i hsmeta
      exact absurd hg (by
        split
        · exact absurd ‹_› (hsmeta _ _ _)
        · simp)
  · exact hfound rfl hanswer
  all_goals exact absurd hg (by simp)

end Sauvegarde
