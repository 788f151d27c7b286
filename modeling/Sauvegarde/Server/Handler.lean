import Mathlib.Logic.Function.Basic
import Sauvegarde.Server.Stats
import Sauvegarde.Server.Upload

/-!
# The handler of requests

`ahc` of server.c, which libmicrohttpd calls for every request, at least twice for each GET and POST: how a request finds the function
that answers it, and what is counted. What those functions answer, which others modules model, is a parameter of each call, and so is
what memory and the texts of jansson hold. A call without a result dereferences `NULL` or writes where nothing was allocated.
-/

namespace Sauvegarde

/-- `MHD_HTTP_NOT_FOUND`. -/
def MHD_HTTP_NOT_FOUND : UInt32 := 404

namespace Handler

/-- What the handler finds at the time of a call: the header `Content-Length` of the request, and the answers of the functions
that it asks. An answer without a result is a fault, `some none` is `NULL`. -/
structure Context where
  malloc : Nat → Bytes
  jsonLoads : CString → Option Json
  debugMode : Bool
  contentLength : Option CString
  convertVersionToJson : Option Json
  bufferVersions : Bytes
  getAListOfFiles : Option (Option Json)
  getDataFromAListOfHashs : Option (Option Json)
  getDataFromASpecificHash : Bytes → Option (Option Json)
  findNeededHashs : List HashData → Json

/-- `g_str_has_prefix`, of any text. -/
def strHasPrefix (text : CString) (start : String) : Bool := (str start).isPrefixOf text.bytes

/-- `g_str_has_suffix`. -/
def strHasSuffix (text : CString) (ending : String) : Bool := (str ending).isSuffixOf text.bytes

/-- What `con_cls` points to: nothing, `aptr` between the two calls of a GET request, or the body of a POST request so far. -/
inductive ConCls where
  | null
  | aptr
  | upload (pp : Upload)

/-- The text of an answer. -/
inductive Answer where
  | json (answer : Json)
  | text (answer : Bytes)

/-- `CT_JSON` and `CT_PLAIN`. -/
inductive ContentType where
  | json
  | plain
deriving DecidableEq

/-- What `create_MHD_response` sends, and what was pushed into `meta_queue` and `data_queue` before. -/
structure Response where
  answer : Answer
  contentType : ContentType
  metaQueue : List ServerMetaData
  dataQueue : List HashData

/-- `create_MHD_response`: the length of an answer that is `NULL` cannot be taken. -/
def createMhdResponse (answer : Option Answer) (contentType : ContentType) (metaQueue : List ServerMetaData)
    (dataQueue : List HashData) : Option Response :=
  answer.map fun answer => ⟨answer, contentType, metaQueue, dataQueue⟩

/-! ## GET requests -/

/-- A character that `g_strcanon` leaves in a hash. -/
def isHashDigit (c : UInt8) : Bool := c ∈ str "abcdef0123456789"

/-- `get_json_answer`. -/
def getJsonAnswer (ctx : Context) (stats : Stats) (url : CString) : Option (Stats × Option Json) :=
  if strHasPrefix url "/Version.json" then some (addOneToGetUrlVersion stats false, ctx.convertVersionToJson)
  else if strHasPrefix url "/Stats.json" then
    let stats := addOneToGetUrlStats stats
    some (stats, answerGlobalStats stats)
  else if strHasPrefix url "/File/List.json" then
    ctx.getAListOfFiles.map fun answer => (addOneToGetUrlFileList stats, answer)
  else if strHasPrefix url "/Data/Hash_Array.json" then
    ctx.getDataFromAListOfHashs.map fun answer => (addOneToGetUrlDataHashArray stats, answer)
  else if strHasPrefix url "/Data/" then
    let stats := addOneToGetUrlDataHash stats
    let hash := ((url.bytes.drop 6).take (HASH_LEN * 2)).takeWhile isHashDigit
    if hash.length = HASH_LEN * 2 then (ctx.getDataFromASpecificHash hash).map fun answer => (stats, answer)
    else
      let message := str "Invalid url: in " ++ url.bytes ++ str " hash has length: " ++ Decimal.print hash.length ++
        str " instead of " ++ Decimal.print (HASH_LEN * 2)
      some (stats, answerJsonErrorString MHD_HTTP_BAD_REQUEST (CString.ofBytes message))
  else
    some (addOneToGetUrlUnknown stats false,
      answerJsonErrorString MHD_HTTP_NOT_FOUND (CString.ofBytes (str "URL not found: " ++ url.bytes)))

/-- `get_unformatted_answer`. -/
def getUnformattedAnswer (ctx : Context) (stats : Stats) (url : CString) : Stats × Bytes :=
  if url.bytes = str "/Version" then (addOneToGetUrlVersion stats true, ctx.bufferVersions)
  else (addOneToGetUrlUnknown stats true, str "Error: invalid url: " ++ url.bytes ++ str "\n")

/-- What is answered where `get_json_answer` gives `NULL`. -/
def couldNotProcess (url : CString) : Option Json :=
  answerJsonErrorString MHD_HTTP_INTERNAL_SERVER_ERROR
    (CString.ofBytes (str "Error: could not process GET request for url: " ++ url.bytes ++ str "\n"))

/-- The second call of `process_get_request` for a request. -/
def answerGetRequest (ctx : Context) (stats : Stats) (url : CString) : Option (Stats × Response) :=
  let stats := addOneGetRequest stats
  if strHasSuffix url ".json" then
    (getJsonAnswer ctx stats url).bind fun (stats, answer) =>
      let answer := match answer with
        | none => couldNotProcess url
        | some answer => some answer
      (createMhdResponse (answer.map Answer.json) ContentType.json [] []).map fun response => (stats, response)
  else
    let (stats, answer) := getUnformattedAnswer ctx stats url
    some (stats, ⟨Answer.text answer, ContentType.plain, [], []⟩)

/-! ## POST requests -/

/-- `answer_meta_json_post_request`: what it counts, its answer and what it pushes into `meta_queue`. -/
def answerMetaJson (ctx : Context) (stats : Stats) (receivedData : CString) : Stats × Option Json × List ServerMetaData :=
  match (ctx.jsonLoads receivedData).map fillsServerMetaDataFromJson with
  | some ⟨hostname, dataSent, some metaData⟩ =>
    let stats := addFileSizeToTotalSize (addOneSavedFile stats) metaData.size
    let array := if dataSent = false then ctx.findNeededHashs metaData.hashDataList else Json.arr []
    (stats, (hashListRoot array).dumps, [⟨hostname, dataSent, some metaData⟩])
  | _ =>
    (stats, answerJsonErrorString MHD_HTTP_INTERNAL_SERVER_ERROR
      (CString.lit "Error: could not convert json to metadata\n"), [])

/-- `answer_hash_array_post_request`. -/
def answerHashArrayPost (ctx : Context) (receivedData : CString) : Option Json :=
  let hashDataList := ((ctx.jsonLoads receivedData).map fun root => extractHashsFromArray root "hash_list").getD []
  (hashListRoot (ctx.findNeededHashs hashDataList)).dumps

/-- `answer_data_post_request` and `answer_data_array_post_request`, with what they count. -/
def answerDataRequest (ctx : Context) (stats : Stats) (receivedData : CString) (request : DataRequest) :
    Option (Stats × Option Json × List HashData) :=
  (request.answer ctx.jsonLoads ctx.debugMode ⟨stats.nbDedupBytes, [], []⟩ receivedData).map fun (intake, answer) =>
    ({ stats with nbDedupBytes := intake.nbDedupBytes }, answer, intake.dataQueue)

/-- `process_received_data`. -/
def processReceivedData (ctx : Context) (stats : Stats) (url : CString) (receivedData : Option CString) (length : UInt64) :
    Option (Stats × Response) :=
  let stats := addOnePostRequest stats
  let invalidUrl :=
    (createMhdResponse ((answerJsonErrorString MHD_HTTP_BAD_REQUEST (CString.lit "Invalid url!\n")).map Answer.json)
      ContentType.plain [] []).map fun response => (addOneToPostUrlUnknown stats, response)
  match receivedData with
  | none => invalidUrl
  | some receivedData =>
    if strHasPrefix url "/Meta.json" then
      let (stats, answer, metaQueue) := answerMetaJson ctx (addLengthAndOneToPostUrlMeta stats length) receivedData
      (createMhdResponse (answer.map Answer.json) ContentType.json metaQueue []).map fun response => (stats, response)
    else if strHasPrefix url "/Hash_Array.json" then
      (createMhdResponse ((answerHashArrayPost ctx receivedData).map Answer.json) ContentType.json [] []).map fun response =>
        (addOneToPostUrlHashArray stats, response)
    else if strHasPrefix url "/Data.json" then
      (answerDataRequest ctx (addOneToPostUrlData stats) receivedData DataRequest.data).bind fun (stats, answer, dataQueue) =>
        (createMhdResponse (answer.map Answer.json) ContentType.plain [] dataQueue).map fun response => (stats, response)
    else if strHasPrefix url "/Data_Array.json" then
      (answerDataRequest ctx (addOneToPostUrlDataArray stats) receivedData DataRequest.dataArray).bind
        fun (stats, answer, dataQueue) =>
          (createMhdResponse (answer.map Answer.json) ContentType.plain [] dataQueue).map fun response => (stats, response)
    else invalidUrl

/-! ## Calls -/

/-- The server between two calls: its statistics, and for every request what `con_cls` points to. -/
structure Server where
  stats : Stats
  conCls : Nat → ConCls

/-- A server that was not called yet. -/
def newServer : Server := ⟨newStats, fun _ => ConCls.null⟩

/-- A call for a request that is known by its number. -/
structure Call where
  request : Nat
  method : Option CString
  url : CString
  uploadData : Bytes
  ctx : Context

/-- What a call ends with: `MHD_YES` without an answer, an answer, or `MHD_NO` for a method that is not known. -/
inductive Event where
  | proceed
  | respond (response : Response)
  | refuse

/-- `process_get_request`. -/
def processGetRequest (server : Server) (call : Call) : Option (Server × List Event) :=
  match server.conCls call.request with
  | ConCls.aptr =>
    (answerGetRequest call.ctx server.stats call.url).map fun (stats, response) =>
      (⟨stats, Function.update server.conCls call.request ConCls.null⟩, [Event.respond response])
  | _ => some (⟨server.stats, Function.update server.conCls call.request ConCls.aptr⟩, [Event.proceed])

/-- `process_post_request` and what comes of the body when it is there. -/
def postRequest (server : Server) (call : Call) (conCls : Option Upload) : Option (Server × List Event) :=
  (processPostRequest call.ctx.malloc call.ctx.contentLength conCls call.uploadData).bind fun (conCls, received) =>
    let pointsTo := match conCls with
      | none => ConCls.null
      | some pp => ConCls.upload pp
    let server : Server := ⟨server.stats, Function.update server.conCls call.request pointsTo⟩
    match received with
    | [] => some (server, [Event.proceed])
    | received :: _ =>
      (processReceivedData call.ctx server.stats call.url (some (CString.ofBytes received.receivedData))
        (UInt64.ofNat received.length)).map fun (stats, response) =>
          (⟨stats, server.conCls⟩, [Event.respond response])

/-- `ahc`. -/
def ahc (server : Server) (call : Call) : Option (Server × List Event) :=
  if call.method = some (CString.lit "GET") then processGetRequest server call
  else if call.method = some (CString.lit "POST") then
    match server.conCls call.request with
    | ConCls.null => postRequest server call none
    | ConCls.upload pp => postRequest server call (some pp)
    | ConCls.aptr => none
  else some (⟨addOneUnknownRequest server.stats, server.conCls⟩, [Event.refuse])

/-! ## What is answered -/

/-- What is sent and pushed for a response. -/
def Response.parts (response : Response) : Answer × List ServerMetaData × List HashData :=
  (response.answer, response.metaQueue, response.dataQueue)

/-- What is sent and pushed for a request that was processed: nothing without an answer. -/
def sentParts (processed : Processed) : Option (Answer × List ServerMetaData × List HashData) :=
  processed.answer.map fun answer => (Answer.json answer, processed.metaQueue, processed.dataQueue)

/-- A response has the parts it is made of, whatever is counted with it. -/
theorem map_createMhdResponse (answer : Option Json) (contentType : ContentType) (metaQueue : List ServerMetaData)
    (dataQueue : List HashData) (stats : Stats) :
    ((createMhdResponse (answer.map Answer.json) contentType metaQueue dataQueue).map fun response => (stats, response)).map
        (fun result => result.2.parts) = sentParts ⟨answer, metaQueue, dataQueue⟩ := by
  rcases answer with _ | answer <;> rfl

/-- Without debug mode a body that jansson reads is processed as by the function without statistics: it has the same answer, and the
same is pushed into the queues. -/
theorem processReceivedData_eq {backend : Option FileBackend} {files : Files} {ctx : Context}
    (hneeded : ctx.findNeededHashs = findNeededHashs backend files) (hdebug : ctx.debugMode = false) {url : CString}
    {path : String} (hurl : url.bytes = str path) {receivedData : CString} {body : Json}
    (hbody : ctx.jsonLoads receivedData = some body) (stats : Stats) (length : UInt64) :
    (processReceivedData ctx stats url (some receivedData) length).map (fun result => result.2.parts) =
      sentParts (Sauvegarde.processReceivedData backend files path body) := by
  have hstart : ∀ start, strHasPrefix url start = gStrHasPrefix path start := by
    intro start
    rw [strHasPrefix, hurl, gStrHasPrefix]
  unfold processReceivedData Sauvegarde.processReceivedData
  simp only [hstart]
  split_ifs
  · rw [map_createMhdResponse]
    simp only [answerMetaJson, answerMetaJsonPostRequest, hbody, hneeded, Option.map_some, convertJsonToSmetaData, Json.loads]
    obtain ⟨hostname, dataSent, _ | metaData⟩ := fillsServerMetaDataFromJson body
    · rfl
    · rfl
  · rw [map_createMhdResponse, answerHashArrayPost, hbody, hneeded]
    rfl
  · obtain ⟨intake, hanswer, hqueue⟩ :=
      DataRequest.answer_eq ⟨(addOneToPostUrlData (addOnePostRequest stats)).nbDedupBytes, [], []⟩ hbody DataRequest.data
    rw [answerDataRequest, hdebug, hanswer, Option.map_some, Option.bind_some, map_createMhdResponse]
    simp only [hqueue]
    rfl
  · obtain ⟨intake, hanswer, hqueue⟩ :=
      DataRequest.answer_eq ⟨(addOneToPostUrlDataArray (addOnePostRequest stats)).nbDedupBytes, [], []⟩ hbody DataRequest.dataArray
    rw [answerDataRequest, hdebug, hanswer, Option.map_some, Option.bind_some, map_createMhdResponse]
    simp only [hqueue]
    rfl
  · rw [map_createMhdResponse]

/-! ## What is counted -/

/-- `get_json_answer` counts the request by its URL, once. -/
theorem getJsonAnswer_counts {ctx : Context} {stats stats' : Stats} {url : CString} {answer : Option Json}
    (h : getJsonAnswer ctx stats url = some (stats', answer)) : stats.requests.CountedGetUrl stats'.requests := by
  unfold getJsonAnswer at h
  simp only at h
  split_ifs at h
  · obtain ⟨rfl, -⟩ := Prod.mk.inj (Option.some.inj h)
    exact addOneToGetUrlVersion_counts stats false
  · obtain ⟨rfl, -⟩ := Prod.mk.inj (Option.some.inj h)
    exact addOneToGetUrlStats_counts stats
  · obtain ⟨_, -, heq⟩ := Option.map_eq_some_iff.mp h
    obtain ⟨rfl, -⟩ := Prod.mk.inj heq
    exact addOneToGetUrlFileList_counts stats
  · obtain ⟨_, -, heq⟩ := Option.map_eq_some_iff.mp h
    obtain ⟨rfl, -⟩ := Prod.mk.inj heq
    exact addOneToGetUrlDataHashArray_counts stats
  · obtain ⟨_, -, heq⟩ := Option.map_eq_some_iff.mp h
    obtain ⟨rfl, -⟩ := Prod.mk.inj heq
    exact addOneToGetUrlDataHash_counts stats
  · obtain ⟨rfl, -⟩ := Prod.mk.inj (Option.some.inj h)
    exact addOneToGetUrlDataHash_counts stats
  · obtain ⟨rfl, -⟩ := Prod.mk.inj (Option.some.inj h)
    exact addOneToGetUrlUnknown_counts stats false

/-- So does `get_unformatted_answer`. -/
theorem getUnformattedAnswer_counts (ctx : Context) (stats : Stats) (url : CString) :
    stats.requests.CountedGetUrl (getUnformattedAnswer ctx stats url).1.requests := by
  unfold getUnformattedAnswer
  split_ifs
  · exact addOneToGetUrlVersion_counts stats true
  · exact addOneToGetUrlUnknown_counts stats true

/-- A GET request that is answered was counted once. -/
theorem answerGetRequest_counts {ctx : Context} {stats stats' : Stats} {url : CString} {response : Response}
    (h : answerGetRequest ctx stats url = some (stats', response)) : stats.requests.CountedGet stats'.requests := by
  refine Requests.CountedGetUrl.counted ?_
  unfold answerGetRequest at h
  simp only at h
  split_ifs at h
  · obtain ⟨⟨stats'', answer⟩, hanswer, hresponse⟩ := Option.bind_eq_some_iff.mp h
    obtain ⟨_, -, heq⟩ := Option.map_eq_some_iff.mp hresponse
    obtain ⟨rfl, -⟩ := Prod.mk.inj heq
    exact getJsonAnswer_counts hanswer
  · obtain ⟨rfl, -⟩ := Prod.mk.inj (Option.some.inj h)
    exact getUnformattedAnswer_counts ctx _ url

/-- `answer_meta_json_post_request` counts files and bytes, no requests. -/
theorem answerMetaJson_requests (ctx : Context) (stats : Stats) (receivedData : CString) :
    (answerMetaJson ctx stats receivedData).1.requests = stats.requests := by
  unfold answerMetaJson
  split <;> rfl

/-- Neither do the functions that answer requests with data. -/
theorem answerDataRequest_requests {ctx : Context} {stats stats' : Stats} {receivedData : CString} {request : DataRequest}
    {answer : Option Json} {dataQueue : List HashData}
    (h : answerDataRequest ctx stats receivedData request = some (stats', answer, dataQueue)) :
    stats'.requests = stats.requests := by
  obtain ⟨_, -, heq⟩ := Option.map_eq_some_iff.mp h
  obtain ⟨rfl, -⟩ := Prod.mk.inj heq
  rfl

/-- A POST request that is answered was counted once. -/
theorem processReceivedData_counts {ctx : Context} {stats stats' : Stats} {url : CString} {receivedData : Option CString}
    {length : UInt64} {response : Response}
    (h : processReceivedData ctx stats url receivedData length = some (stats', response)) :
    stats.requests.CountedPost stats'.requests := by
  refine Requests.CountedPostUrl.counted ?_
  unfold processReceivedData at h
  simp only at h
  rcases receivedData with _ | receivedData
  · obtain ⟨_, -, heq⟩ := Option.map_eq_some_iff.mp h
    obtain ⟨rfl, -⟩ := Prod.mk.inj heq
    exact addOneToPostUrlUnknown_counts _
  · simp only at h
    split_ifs at h
    · obtain ⟨_, -, heq⟩ := Option.map_eq_some_iff.mp h
      obtain ⟨rfl, -⟩ := Prod.mk.inj heq
      rw [answerMetaJson_requests]
      exact addLengthAndOneToPostUrlMeta_counts _ length
    · obtain ⟨_, -, heq⟩ := Option.map_eq_some_iff.mp h
      obtain ⟨rfl, -⟩ := Prod.mk.inj heq
      exact addOneToPostUrlHashArray_counts _
    · obtain ⟨⟨_, answer, dataQueue⟩, hanswer, hresponse⟩ := Option.bind_eq_some_iff.mp h
      obtain ⟨_, -, heq⟩ := Option.map_eq_some_iff.mp hresponse
      obtain ⟨rfl, -⟩ := Prod.mk.inj heq
      rw [answerDataRequest_requests hanswer]
      exact addOneToPostUrlData_counts _
    · obtain ⟨⟨_, answer, dataQueue⟩, hanswer, hresponse⟩ := Option.bind_eq_some_iff.mp h
      obtain ⟨_, -, heq⟩ := Option.map_eq_some_iff.mp hresponse
      obtain ⟨rfl, -⟩ := Prod.mk.inj heq
      rw [answerDataRequest_requests hanswer]
      exact addOneToPostUrlDataArray_counts _
    · obtain ⟨_, -, heq⟩ := Option.map_eq_some_iff.mp h
      obtain ⟨rfl, -⟩ := Prod.mk.inj heq
      exact addOneToPostUrlUnknown_counts _

/-- What a call does to the counters: nothing while the request is not complete, else it counts the request once. -/
inductive Counts (before after : Stats) : List Event → Prop where
  | proceed : after = before → Counts before after [Event.proceed]
  | get (response : Response) : before.requests.CountedGet after.requests → Counts before after [Event.respond response]
  | post (response : Response) : before.requests.CountedPost after.requests → Counts before after [Event.respond response]
  | unknown : after = addOneUnknownRequest before → Counts before after [Event.refuse]

theorem processGetRequest_counts {server server' : Server} {call : Call} {events : List Event}
    (h : processGetRequest server call = some (server', events)) : Counts server.stats server'.stats events := by
  unfold processGetRequest at h
  split at h
  · obtain ⟨⟨stats, response⟩, hanswer, heq⟩ := Option.map_eq_some_iff.mp h
    obtain ⟨rfl, rfl⟩ := Prod.mk.inj heq
    exact Counts.get response (answerGetRequest_counts hanswer)
  · obtain ⟨rfl, rfl⟩ := Prod.mk.inj (Option.some.inj h)
    exact Counts.proceed rfl

theorem postRequest_counts {server server' : Server} {call : Call} {conCls : Option Upload} {events : List Event}
    (h : postRequest server call conCls = some (server', events)) : Counts server.stats server'.stats events := by
  obtain ⟨⟨pointsTo, received⟩, -, hrest⟩ := Option.bind_eq_some_iff.mp h
  simp only at hrest
  rcases received with _ | ⟨received, rest⟩
  · obtain ⟨rfl, rfl⟩ := Prod.mk.inj (Option.some.inj hrest)
    exact Counts.proceed rfl
  · obtain ⟨⟨stats, response⟩, hanswer, heq⟩ := Option.map_eq_some_iff.mp hrest
    obtain ⟨rfl, rfl⟩ := Prod.mk.inj heq
    exact Counts.post response (processReceivedData_counts hanswer)

/-- A call counts the request that it completes. -/
theorem ahc_counts {server server' : Server} {call : Call} {events : List Event}
    (h : ahc server call = some (server', events)) : Counts server.stats server'.stats events := by
  unfold ahc at h
  split_ifs at h
  · exact processGetRequest_counts h
  · split at h
    · exact postRequest_counts h
    · exact postRequest_counts h
    · exact absurd h (Option.some_ne_none _).symm
  · obtain ⟨rfl, rfl⟩ := Prod.mk.inj (Option.some.inj h)
    exact Counts.unknown rfl

end Handler

end Sauvegarde
