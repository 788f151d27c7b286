import Sauvegarde.Server.DataRequests

/-!
# Statistics

The counters of stats.c. `new_stats_t` allocates all of them, so none of the pointers that the functions test is `NULL`.
-/

namespace Sauvegarde

/-- `req_get_t`. -/
structure ReqGet where
  nbRequest : UInt64
  stats : UInt64
  version : UInt64
  verstxt : UInt64
  fileList : UInt64
  dataHash : UInt64
  dataHashArray : UInt64
  unktxt : UInt64
  unk : UInt64
deriving DecidableEq

/-- `req_post_t`. -/
structure ReqPost where
  nbRequest : UInt64
  metaJson : UInt64
  data : UInt64
  dataArray : UInt64
  hashArray : UInt64
  unk : UInt64
deriving DecidableEq

/-- `req_unk_t`. -/
structure ReqUnk where
  nbRequest : UInt64
deriving DecidableEq

/-- `requests_t`. -/
structure Requests where
  get : ReqGet
  post : ReqPost
  unknown : ReqUnk
  nbRequest : UInt64
deriving DecidableEq

/-- `stats_t`. -/
structure Stats where
  requests : Requests
  nbFiles : UInt64
  nbDedupBytes : UInt64
  nbTotalBytes : UInt64
  nbMetaBytes : UInt64
deriving DecidableEq

/-- `new_stats_t`. -/
def newStats : Stats := ⟨⟨⟨0, 0, 0, 0, 0, 0, 0, 0, 0⟩, ⟨0, 0, 0, 0, 0, 0⟩, ⟨0⟩, 0⟩, 0, 0, 0, 0⟩

/-- What one of the functions changes in the counters of GET requests. -/
def Stats.onGet (stats : Stats) (f : ReqGet → ReqGet) : Stats :=
  { stats with requests := { stats.requests with get := f stats.requests.get } }

/-- What one of the functions changes in the counters of POST requests. -/
def Stats.onPost (stats : Stats) (f : ReqPost → ReqPost) : Stats :=
  { stats with requests := { stats.requests with post := f stats.requests.post } }

/-! ## Totals -/

/-- The total of all requests. -/
def Stats.oneMore (stats : Stats) : Stats :=
  { stats with requests := { stats.requests with nbRequest := stats.requests.nbRequest + 1 } }

/-- `add_one_get_request`. -/
def addOneGetRequest (stats : Stats) : Stats :=
  stats.oneMore.onGet fun get => { get with nbRequest := get.nbRequest + 1 }

/-- `add_one_post_request`. -/
def addOnePostRequest (stats : Stats) : Stats :=
  stats.oneMore.onPost fun post => { post with nbRequest := post.nbRequest + 1 }

/-- `add_one_unknown_request`. -/
def addOneUnknownRequest (stats : Stats) : Stats :=
  let stats := stats.oneMore
  { stats with requests := { stats.requests with unknown := ⟨stats.requests.unknown.nbRequest + 1⟩ } }

/-! ## Files and bytes -/

/-- `add_one_saved_file`. -/
def addOneSavedFile (stats : Stats) : Stats := { stats with nbFiles := stats.nbFiles + 1 }

/-- `add_bytes_to_metadata_bytes`. -/
def addBytesToMetadataBytes (stats : Stats) (nbBytes : UInt64) : Stats :=
  { stats with nbMetaBytes := stats.nbMetaBytes + nbBytes }

/-- `add_file_size_to_total_size`. -/
def addFileSizeToTotalSize (stats : Stats) (size : UInt64) : Stats := { stats with nbTotalBytes := stats.nbTotalBytes + size }

/-! ## GET requests, by their URL -/

/-- `add_one_to_get_url_stats`. -/
def addOneToGetUrlStats (stats : Stats) : Stats := stats.onGet fun get => { get with stats := get.stats + 1 }

/-- `add_one_to_get_url_version`. -/
def addOneToGetUrlVersion (stats : Stats) (txt : Bool) : Stats :=
  if txt then stats.onGet fun get => { get with verstxt := get.verstxt + 1 }
  else stats.onGet fun get => { get with version := get.version + 1 }

/-- `add_one_to_get_url_file_list`. -/
def addOneToGetUrlFileList (stats : Stats) : Stats := stats.onGet fun get => { get with fileList := get.fileList + 1 }

/-- `add_one_to_get_url_data_hash`. -/
def addOneToGetUrlDataHash (stats : Stats) : Stats := stats.onGet fun get => { get with dataHash := get.dataHash + 1 }

/-- `add_one_to_get_url_data_hash_array`. -/
def addOneToGetUrlDataHashArray (stats : Stats) : Stats :=
  stats.onGet fun get => { get with dataHashArray := get.dataHashArray + 1 }

/-- `add_one_to_get_url_unknown`. -/
def addOneToGetUrlUnknown (stats : Stats) (txt : Bool) : Stats :=
  if txt then stats.onGet fun get => { get with unktxt := get.unktxt + 1 }
  else stats.onGet fun get => { get with unk := get.unk + 1 }

/-! ## POST requests, by their URL -/

/-- `add_length_and_one_to_post_url_meta`. -/
def addLengthAndOneToPostUrlMeta (stats : Stats) (length : UInt64) : Stats :=
  addBytesToMetadataBytes (stats.onPost fun post => { post with metaJson := post.metaJson + 1 }) length

/-- `add_one_to_post_url_hash_array`. -/
def addOneToPostUrlHashArray (stats : Stats) : Stats := stats.onPost fun post => { post with hashArray := post.hashArray + 1 }

/-- `add_one_to_post_url_data`. -/
def addOneToPostUrlData (stats : Stats) : Stats := stats.onPost fun post => { post with data := post.data + 1 }

/-- `add_one_to_post_url_data_array`. -/
def addOneToPostUrlDataArray (stats : Stats) : Stats := stats.onPost fun post => { post with dataArray := post.dataArray + 1 }

/-- `add_one_to_post_url_unknown`. -/
def addOneToPostUrlUnknown (stats : Stats) : Stats := stats.onPost fun post => { post with unk := post.unk + 1 }

/-! ## Sums -/

/-- The sum of the counters of GET requests by their URL. -/
def ReqGet.urls (get : ReqGet) : UInt64 :=
  get.stats + get.version + get.verstxt + get.fileList + get.dataHash + get.dataHashArray + get.unktxt + get.unk

/-- The sum of the counters of POST requests by their URL. -/
def ReqPost.urls (post : ReqPost) : UInt64 := post.metaJson + post.data + post.dataArray + post.hashArray + post.unk

/-- The counters add up. -/
structure Requests.AddUp (requests : Requests) : Prop where
  total : requests.nbRequest = requests.get.nbRequest + requests.post.nbRequest + requests.unknown.nbRequest
  get : requests.get.nbRequest = requests.get.urls
  post : requests.post.nbRequest = requests.post.urls

/-- One GET request was counted: in the totals, and once by its URL. -/
structure Requests.CountedGet (before after : Requests) : Prop where
  total : after.nbRequest = before.nbRequest + 1
  get : after.get.nbRequest = before.get.nbRequest + 1
  urls : after.get.urls = before.get.urls + 1
  post : after.post = before.post
  unknown : after.unknown = before.unknown

/-- One POST request was counted. -/
structure Requests.CountedPost (before after : Requests) : Prop where
  total : after.nbRequest = before.nbRequest + 1
  post : after.post.nbRequest = before.post.nbRequest + 1
  urls : after.post.urls = before.post.urls + 1
  get : after.get = before.get
  unknown : after.unknown = before.unknown

/-- Counters that are zero add up. -/
theorem newStats_addUp : newStats.requests.AddUp := ⟨rfl, rfl, rfl⟩

/-- Counting a GET request keeps the sums. -/
theorem Requests.CountedGet.addUp {before after : Requests} (h : before.CountedGet after) (hsums : before.AddUp) :
    after.AddUp where
  total := by
    rw [h.total, h.get, h.post, h.unknown, hsums.total]
    ac_rfl
  get := by rw [h.get, h.urls, hsums.get]
  post := by rw [h.post, hsums.post]

/-- Counting a POST request keeps the sums. -/
theorem Requests.CountedPost.addUp {before after : Requests} (h : before.CountedPost after) (hsums : before.AddUp) :
    after.AddUp where
  total := by
    rw [h.total, h.post, h.get, h.unknown, hsums.total]
    ac_rfl
  get := by rw [h.get, hsums.get]
  post := by rw [h.post, h.urls, hsums.post]

/-- Counting a request with another method keeps the sums. -/
theorem addOneUnknownRequest_addUp {stats : Stats} (hsums : stats.requests.AddUp) :
    (addOneUnknownRequest stats).requests.AddUp where
  total := by
    simp only [addOneUnknownRequest, Stats.oneMore, hsums.total]
    ac_rfl
  get := hsums.get
  post := hsums.post

/-! ## Counting by the URL -/

/-- A GET request was counted by its URL, once, and nothing else was. -/
structure Requests.CountedGetUrl (before after : Requests) : Prop where
  total : after.nbRequest = before.nbRequest
  get : after.get.nbRequest = before.get.nbRequest
  urls : after.get.urls = before.get.urls + 1
  post : after.post = before.post
  unknown : after.unknown = before.unknown

/-- A POST request was counted by its URL, once, and nothing else was. -/
structure Requests.CountedPostUrl (before after : Requests) : Prop where
  total : after.nbRequest = before.nbRequest
  post : after.post.nbRequest = before.post.nbRequest
  urls : after.post.urls = before.post.urls + 1
  get : after.get = before.get
  unknown : after.unknown = before.unknown

/-- A GET request that is counted, and then once by its URL. -/
theorem Requests.CountedGetUrl.counted {stats : Stats} {after : Requests}
    (h : (addOneGetRequest stats).requests.CountedGetUrl after) : stats.requests.CountedGet after :=
  ⟨h.total, h.get, h.urls, h.post, h.unknown⟩

/-- A POST request that is counted, and then once by its URL. -/
theorem Requests.CountedPostUrl.counted {stats : Stats} {after : Requests}
    (h : (addOnePostRequest stats).requests.CountedPostUrl after) : stats.requests.CountedPost after :=
  ⟨h.total, h.post, h.urls, h.get, h.unknown⟩

/-- A function that adds one to a counter of GET requests. -/
theorem onGet_countedGetUrl (stats : Stats) {f : ReqGet → ReqGet} (hkeep : ∀ get, (f get).nbRequest = get.nbRequest)
    (hurls : ∀ get, (f get).urls = get.urls + 1) : stats.requests.CountedGetUrl (stats.onGet f).requests :=
  ⟨rfl, hkeep _, hurls _, rfl, rfl⟩

/-- A function that adds one to a counter of POST requests. -/
theorem onPost_countedPostUrl (stats : Stats) {f : ReqPost → ReqPost} (hkeep : ∀ post, (f post).nbRequest = post.nbRequest)
    (hurls : ∀ post, (f post).urls = post.urls + 1) : stats.requests.CountedPostUrl (stats.onPost f).requests :=
  ⟨rfl, hkeep _, hurls _, rfl, rfl⟩

section

variable (stats : Stats)

theorem addOneToGetUrlStats_counts : stats.requests.CountedGetUrl (addOneToGetUrlStats stats).requests := by
  refine onGet_countedGetUrl stats (fun _ => rfl) fun get => ?_
  simp only [ReqGet.urls]
  ac_rfl

theorem addOneToGetUrlVersion_counts (txt : Bool) :
    stats.requests.CountedGetUrl (addOneToGetUrlVersion stats txt).requests := by
  unfold addOneToGetUrlVersion
  split_ifs
  all_goals
    refine onGet_countedGetUrl stats (fun _ => rfl) fun get => ?_
    simp only [ReqGet.urls]
    ac_rfl

theorem addOneToGetUrlFileList_counts : stats.requests.CountedGetUrl (addOneToGetUrlFileList stats).requests := by
  refine onGet_countedGetUrl stats (fun _ => rfl) fun get => ?_
  simp only [ReqGet.urls]
  ac_rfl

theorem addOneToGetUrlDataHash_counts : stats.requests.CountedGetUrl (addOneToGetUrlDataHash stats).requests := by
  refine onGet_countedGetUrl stats (fun _ => rfl) fun get => ?_
  simp only [ReqGet.urls]
  ac_rfl

theorem addOneToGetUrlDataHashArray_counts :
    stats.requests.CountedGetUrl (addOneToGetUrlDataHashArray stats).requests := by
  refine onGet_countedGetUrl stats (fun _ => rfl) fun get => ?_
  simp only [ReqGet.urls]
  ac_rfl

theorem addOneToGetUrlUnknown_counts (txt : Bool) :
    stats.requests.CountedGetUrl (addOneToGetUrlUnknown stats txt).requests := by
  unfold addOneToGetUrlUnknown
  split_ifs
  all_goals
    refine onGet_countedGetUrl stats (fun _ => rfl) fun get => ?_
    simp only [ReqGet.urls]
    ac_rfl

theorem addLengthAndOneToPostUrlMeta_counts (length : UInt64) :
    stats.requests.CountedPostUrl (addLengthAndOneToPostUrlMeta stats length).requests := by
  change stats.requests.CountedPostUrl (stats.onPost fun post => { post with metaJson := post.metaJson + 1 }).requests
  refine onPost_countedPostUrl stats (fun _ => rfl) fun post => ?_
  simp only [ReqPost.urls]
  ac_rfl

theorem addOneToPostUrlHashArray_counts : stats.requests.CountedPostUrl (addOneToPostUrlHashArray stats).requests := by
  refine onPost_countedPostUrl stats (fun _ => rfl) fun post => ?_
  simp only [ReqPost.urls]
  ac_rfl

theorem addOneToPostUrlData_counts : stats.requests.CountedPostUrl (addOneToPostUrlData stats).requests := by
  refine onPost_countedPostUrl stats (fun _ => rfl) fun post => ?_
  simp only [ReqPost.urls]
  ac_rfl

theorem addOneToPostUrlDataArray_counts : stats.requests.CountedPostUrl (addOneToPostUrlDataArray stats).requests := by
  refine onPost_countedPostUrl stats (fun _ => rfl) fun post => ?_
  simp only [ReqPost.urls]
  ac_rfl

theorem addOneToPostUrlUnknown_counts : stats.requests.CountedPostUrl (addOneToPostUrlUnknown stats).requests := by
  refine onPost_countedPostUrl stats (fun _ => rfl) fun post => ?_
  simp only [ReqPost.urls]
  ac_rfl

end

/-! ## The answer to `/Stats.json` -/

/-- `make_json_from_stats`. -/
def makeJsonFromStats (title : String) (nbRequest : UInt64) : Json := insertGuint64IntoJsonRoot (Json.obj []) title nbRequest

/-- `fills_json_with_get_stats`. -/
def fillsJsonWithGetStats (get : Json) (getStats : ReqGet) : Json :=
  let get := insertGuint64IntoJsonRoot get "/Stats.json" getStats.stats
  let get := insertGuint64IntoJsonRoot get "/Version.json" getStats.version
  let get := insertGuint64IntoJsonRoot get "/Version" getStats.verstxt
  let get := insertGuint64IntoJsonRoot get "/File/List.json" getStats.fileList
  let get := insertGuint64IntoJsonRoot get "/Data/0xxxx.json" getStats.dataHash
  let get := insertGuint64IntoJsonRoot get "/Data/Hash_Array.json" getStats.dataHashArray
  let get := insertGuint64IntoJsonRoot get "/unknown.json" getStats.unk
  insertGuint64IntoJsonRoot get "/unknown" getStats.unktxt

/-- `fills_json_with_post_stats`. -/
def fillsJsonWithPostStats (post : Json) (postStats : ReqPost) : Json :=
  let post := insertGuint64IntoJsonRoot post "/Meta.json" postStats.metaJson
  let post := insertGuint64IntoJsonRoot post "/Data.json" postStats.data
  let post := insertGuint64IntoJsonRoot post "/Data_Array.json" postStats.dataArray
  let post := insertGuint64IntoJsonRoot post "/Hash_Array.json" postStats.hashArray
  insertGuint64IntoJsonRoot post "/unknown.json" postStats.unk

/-- `answer_global_stats`. -/
def answerGlobalStats (stats : Stats) : Option Json :=
  let get := fillsJsonWithGetStats (makeJsonFromStats "Total requests" stats.requests.get.nbRequest) stats.requests.get
  let post := fillsJsonWithPostStats (makeJsonFromStats "Total requests" stats.requests.post.nbRequest) stats.requests.post
  let unk := makeJsonFromStats "Total requests" stats.requests.unknown.nbRequest
  let req := makeJsonFromStats "Total requests" stats.requests.nbRequest
  let req := insertJsonValueIntoJsonRoot req "GET" (some get)
  let req := insertJsonValueIntoJsonRoot req "POST" (some post)
  let req := insertJsonValueIntoJsonRoot req "Unknown" (some unk)
  let root := insertJsonValueIntoJsonRoot (Json.obj []) "Requests" (some req)
  let root := insertGuint64IntoJsonRoot root "files" stats.nbFiles
  let root := insertGuint64IntoJsonRoot root "total size" stats.nbTotalBytes
  let root := insertGuint64IntoJsonRoot root "dedup size" stats.nbDedupBytes
  (insertGuint64IntoJsonRoot root "meta data size" stats.nbMetaBytes).dumps

end Sauvegarde
