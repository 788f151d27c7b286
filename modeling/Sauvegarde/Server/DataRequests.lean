import Sauvegarde.Server.Post

/-!
# Requests that bring blocks

`/Data.json` and `/Data_Array.json`, as server.c answers them whatever their body is: with the statistics, with debug mode, and with
the elements that are rejected and stay in the list as `NULL`. What `json_loads` makes of a text is a parameter. A handler that
dereferences `NULL` has no result.
-/

namespace Sauvegarde

/-- What the handlers change: `nb_dedup_bytes` of the statistics, the messages of debug mode, and what was pushed into
`data_queue`. -/
structure Intake where
  nbDedupBytes : UInt64
  messages : List Bytes
  dataQueue : List HashData
deriving DecidableEq

/-- `add_hash_size_to_dedup_bytes`. -/
def addHashSizeToDedupBytes (nbDedupBytes : UInt64) (hashData : Option HashData) : UInt64 :=
  match hashData with
  | none => nbDedupBytes
  | some hashData => nbDedupBytes + hashData.read.toUInt64

/-- `print_received_data_for_hash`: the message. -/
def printReceivedDataForHash (hash : Option Bytes) (sizeRead : Int64) : Bytes :=
  str "Received data for hash: \"" ++ printString (gBase64Encode hash HASH_LEN) ++ str "\" (" ++
    Decimal.printInt sizeRead.toInt ++ str " bytes)\n"

/-- `g_async_queue_push`: `NULL` is not pushed. -/
def gAsyncQueuePush (queue : List HashData) (data : Option HashData) : List HashData :=
  match data with
  | none => queue
  | some data => queue ++ [data]

/-- What both handlers do with an element: it is counted, debug mode looks into it, and it is pushed. None when debug mode looks
into `NULL`. -/
def takeElement (debug : Bool) (intake : Intake) (hashData : Option HashData) : Option Intake :=
  let nbDedupBytes := addHashSizeToDedupBytes intake.nbDedupBytes hashData
  let dataQueue := gAsyncQueuePush intake.dataQueue hashData
  if debug then
    hashData.map fun hashData =>
      ⟨nbDedupBytes, intake.messages ++ [printReceivedDataForHash hashData.hash hashData.read], dataQueue⟩
  else some ⟨nbDedupBytes, intake.messages, dataQueue⟩

/-- The loop of `answer_data_array_post_request` over the list. -/
def takeElements (debug : Bool) : Intake → List (Option HashData) → Option Intake
  | intake, [] => some intake
  | intake, hashData :: hashDataList =>
    (takeElement debug intake hashData).bind fun intake => takeElements debug intake hashDataList

/-- The two requests. -/
inductive DataRequest where
  | data
  | dataArray
deriving DecidableEq

section

variable (jsonLoads : CString → Option Json)

/-- `convert_string_to_hash_data`, of any text. -/
def hashDataOfBody (receivedData : CString) : Option HashData := (jsonLoads receivedData).bind convertJsonToHashData

/-- `load_json` and `extract_glist_from_array`, of any text. -/
def hashDataListOfBody (receivedData : CString) : List (Option HashData) :=
  match jsonLoads receivedData with
  | none => []
  | some root => extractHashDataFromArray root "data_array"

/-- `answer_data_post_request` and `answer_data_array_post_request`: what they leave and the answer. -/
def DataRequest.answer (debug : Bool) (intake : Intake) (receivedData : CString) : DataRequest → Option (Intake × Option Json)
  | data => (takeElement debug intake (hashDataOfBody jsonLoads receivedData)).map fun intake =>
      (intake, answerJsonSuccessString MHD_HTTP_OK (CString.lit "Ok!"))
  | dataArray => (takeElements debug intake (hashDataListOfBody jsonLoads receivedData)).map fun intake =>
      (intake, answerJsonSuccessString MHD_HTTP_OK (CString.lit "Ok!"))

/-- The elements of a request: the body, or those of the array in it. A body that cannot be read is an element that cannot. -/
def DataRequest.elements (receivedData : CString) : DataRequest → List (Option Json)
  | data => [jsonLoads receivedData]
  | dataArray =>
    match jsonLoads receivedData with
    | none => [none]
    | some root => (Json.elements (root.get "data_array")).map some

end

/-- The length of a member of an element, decoded; what is no text has none. -/
def decodedLength (element : Json) (keyname : String) : Nat :=
  ((gBase64Decode (Json.stringValue (element.get keyname))).map List.length).getD 0

/-- An element that is well formed: it was read, its data have the length it says, and its hash has the length of a hash. -/
def WellFormedElement (element : Option Json) : Prop :=
  ∃ root, element = some root ∧
    UInt64.ofNat (decodedLength root "data") = (Json.integerValue (root.get "size")).toUInt64 ∧
      decodedLength root "hash" = HASH_LEN

/-! ## One element -/

/-- A block is made of an element exactly when it is well formed. -/
theorem isSome_convertJsonToHashData {element : Option Json} :
    (element.bind convertJsonToHashData).isSome = true ↔ WellFormedElement element := by
  rcases element with _ | root
  · refine iff_of_false (by simp) ?_
    rintro ⟨root, h, -⟩
    exact absurd h (by simp)
  · rw [Option.bind_some]
    unfold convertJsonToHashData WellFormedElement decodedLength
    simp only [getGuint64FromJsonRoot, getJsonValueFromJsonRoot, UInt64.toUInt64_toInt64]
    split_ifs with h
    · exact iff_of_true rfl ⟨root, rfl, h⟩
    · refine iff_of_false (by simp) ?_
      rintro ⟨root', hroot, hlengths⟩
      obtain rfl := Option.some.inj hroot
      exact h hlengths

/-- An element that is taken goes to the end of the queue, and one that is `NULL` does not. -/
theorem gAsyncQueuePush_eq (queue : List HashData) (data : Option HashData) :
    gAsyncQueuePush queue data = queue ++ data.toList := by
  cases data with
  | none => exact (List.append_nil queue).symm
  | some data => rfl

/-- Only debug mode looks into an element. -/
theorem takeElement_cases (debug : Bool) (intake : Intake) (hashData : Option HashData) :
    (debug = true ∧ hashData = none ∧ takeElement debug intake hashData = none) ∨
      ((debug = true → hashData ≠ none) ∧ ∃ intake', takeElement debug intake hashData = some intake' ∧
        intake'.dataQueue = intake.dataQueue ++ hashData.toList) := by
  cases debug with
  | false => exact Or.inr ⟨fun h => absurd h (by simp), _, rfl, gAsyncQueuePush_eq _ _⟩
  | true =>
    cases hashData with
    | none => exact Or.inl ⟨rfl, rfl, rfl⟩
    | some hashData =>
      refine Or.inr ⟨fun _ => Option.some_ne_none _, _, rfl, ?_⟩
      exact gAsyncQueuePush_eq intake.dataQueue (some hashData)

/-! ## The list -/

/-- Debug mode stops the handler at the first element that is `NULL`; else all others are queued, in their order. -/
theorem takeElements_cases (debug : Bool) (list : List (Option HashData)) : ∀ intake : Intake,
    (debug = true ∧ none ∈ list ∧ takeElements debug intake list = none) ∨
      ((debug = true → none ∉ list) ∧ ∃ intake', takeElements debug intake list = some intake' ∧
        intake'.dataQueue = intake.dataQueue ++ list.filterMap id) := by
  induction list with
  | nil => exact fun intake => Or.inr ⟨fun _ => List.not_mem_nil, intake, rfl, (List.append_nil _).symm⟩
  | cons hashData list ih =>
    intro intake
    rw [takeElements]
    obtain ⟨hdebug, hnull, htake⟩ | ⟨hnotNull, intake', htake, hqueue⟩ := takeElement_cases debug intake hashData
    · rw [htake, hnull]
      exact Or.inl ⟨hdebug, List.mem_cons_self, rfl⟩
    · rw [htake, Option.bind_some]
      obtain ⟨hdebug, hmem, hrest⟩ | ⟨hmem, intake'', hrest, hqueue'⟩ := ih intake'
      · exact Or.inl ⟨hdebug, List.mem_cons_of_mem _ hmem, hrest⟩
      · refine Or.inr ⟨fun hdebug hin => ?_, intake'', hrest, ?_⟩
        · exact (List.mem_cons.mp hin).elim (fun heq => hnotNull hdebug heq.symm) (hmem hdebug)
        · rw [hqueue', hqueue, List.append_assoc]
          cases hashData <;> rfl

/-- The handler of one block is that of a list of one. -/
theorem takeElements_singleton (debug : Bool) (intake : Intake) (hashData : Option HashData) :
    takeElements debug intake [hashData] = takeElement debug intake hashData := by
  rw [takeElements]
  cases takeElement debug intake hashData <;> rfl

/-! ## Without debug mode -/

/-- Without debug mode the handlers push what a request that was written leaves in the queue, and answer as it does. -/
theorem DataRequest.answer_eq (intake : Intake) {receivedData : CString} {root : Json}
    {jsonLoads : CString → Option Json} (hloads : jsonLoads receivedData = Json.loads root) (request : DataRequest) :
    ∃ intake', request.answer jsonLoads false intake receivedData =
        some (intake', (match request with
          | data => answerDataPostRequest root
          | dataArray => answerDataArrayPostRequest root).answer) ∧
      intake'.dataQueue = intake.dataQueue ++ (match request with
        | data => answerDataPostRequest root
        | dataArray => answerDataArrayPostRequest root).dataQueue := by
  cases request with
  | data =>
    refine ⟨_, rfl, (gAsyncQueuePush_eq _ _).trans ?_⟩
    rw [hashDataOfBody, hloads]
    rfl
  | dataArray =>
    obtain ⟨hdebug, -, -⟩ | ⟨-, intake', htake, hqueue⟩ :=
      takeElements_cases false (hashDataListOfBody jsonLoads receivedData) intake
    · exact absurd hdebug (by simp)
    · refine ⟨intake', ?_, ?_⟩
      · rw [DataRequest.answer, htake]
        rfl
      · rw [hqueue, hashDataListOfBody, hloads]
        rfl

end Sauvegarde
