import Sauvegarde.Libcdpfgl.Communique

/-!
# The method of a request

Which requests of a history over one `comm_t` are a `GET` and which a `POST`. `post_url` resets the handle and sets
`CURLOPT_POST`; `get_url` does neither, so it inherits the method of the last request that was performed.
-/

namespace Sauvegarde

/-- A call of `get_url` or of `post_url`, the latter with what the caller put into `readbuffer`, and what libcurl did in it. -/
inductive UrlRequest where
  | get (url header : Option CString) (exchange : Exchange)
  | post (url readbuffer : Option CString) (exchange : Exchange)
deriving DecidableEq

namespace UrlRequest

/-- Whether the call is one of `post_url`. -/
def isPost : UrlRequest → Bool
  | get _ _ _ => false
  | post _ _ _ => true

/-- A call of `get_url` that has what it checks for. -/
def Gets : UrlRequest → Prop
  | get url _ _ => url ≠ none
  | post _ _ _ => False

/-- A call of `post_url` that has what it checks for. -/
def Posts : UrlRequest → Prop
  | get _ _ _ => False
  | post url readbuffer _ => url ≠ none ∧ readbuffer ≠ none

/-- Make the call. -/
def call (comm : Comm) : UrlRequest → UrlCall
  | get url header exchange => getUrl comm url header exchange
  | post url readbuffer exchange => postUrl { comm with readbuffer := readbuffer } url exchange

end UrlRequest

/-- The structure after a history of calls. -/
def afterRequests (comm : Comm) (requests : List UrlRequest) : Comm :=
  requests.foldl (fun comm r => (r.call comm).transfer.comm) comm

/-- Each performed request of the history has the method of the function that made it. -/
def RightMethods (comm : Comm) : List UrlRequest → Prop
  | [] => True
  | r :: requests =>
    (∀ handle ∈ (r.call comm).performed, handle.post = r.isPost) ∧ RightMethods (r.call comm).transfer.comm requests

namespace MethodAux

/-- The handle of a structure and whether it has an address. -/
def Connected (comm : Comm) (handle : CurlHandle) : Prop := comm.curlHandle = some handle ∧ comm.conn ≠ none

/-- A structure without a handle or without an address performs nothing and stays without it. -/
theorem call_of_not_connected {comm : Comm} (h : comm.curlHandle = none ∨ comm.conn = none) (r : UrlRequest) :
    (r.call comm).performed = none ∧
      ((r.call comm).transfer.comm.curlHandle = none ∨ (r.call comm).transfer.comm.conn = none) := by
  cases r with
  | get url header exchange =>
    rw [UrlRequest.call, getUrl_nothing (Or.inr h)]
    exact ⟨rfl, h⟩
  | post url readbuffer exchange =>
    rw [UrlRequest.call, postUrl_nothing { comm with readbuffer := readbuffer } (Or.inr (h.imp_right Or.inl))]
    exact ⟨rfl, h⟩

/-- A call of `get_url` keeps `CURLOPT_POST`, and performs with it. -/
theorem call_get {comm : Comm} {handle : CurlHandle} (h : Connected comm handle) (url header : Option CString)
    (exchange : Exchange) :
    (∃ handle', Connected ((UrlRequest.get url header exchange).call comm).transfer.comm handle' ∧
        handle'.post = handle.post) ∧
      (((UrlRequest.get url header exchange).call comm).performed.map CurlHandle.post =
        if url = none then none else some handle.post) := by
  obtain ⟨hhandle, hconn⟩ := h
  obtain ⟨conn, hconn⟩ := Option.ne_none_iff_exists'.mp hconn
  cases url with
  | none => exact ⟨⟨handle, ⟨hhandle, by simp [UrlRequest.call, getUrl, Transfer.start, hconn]⟩, rfl⟩, rfl⟩
  | some url =>
    simp only [UrlRequest.call, getUrl, hhandle, hconn, Option.map_some, reduceCtorEq, if_false, and_true]
    split_ifs
    · exact ⟨_, ⟨(Transfer.run_keeps _ _).1, by simp [(Transfer.run_keeps _ _).2, Transfer.start]⟩, rfl⟩
    · exact ⟨_, ⟨(Transfer.run_keeps _ _).1, by simp [(Transfer.run_keeps _ _).2, Transfer.start]⟩, rfl⟩

/-- A call of `post_url` that has what it checks for sets `CURLOPT_POST`, and performs with it. -/
theorem call_post {comm : Comm} {handle : CurlHandle} (h : Connected comm handle) {url readbuffer : Option CString}
    (exchange : Exchange) (hp : (UrlRequest.post url readbuffer exchange).Posts) :
    (∃ handle', Connected ((UrlRequest.post url readbuffer exchange).call comm).transfer.comm handle' ∧
        handle'.post = true) ∧
      ((UrlRequest.post url readbuffer exchange).call comm).performed.map CurlHandle.post = some true := by
  obtain ⟨hhandle, hconn⟩ := h
  obtain ⟨conn, hconn⟩ := Option.ne_none_iff_exists'.mp hconn
  obtain ⟨hurl, hbuffer⟩ := hp
  obtain ⟨url, rfl⟩ := Option.ne_none_iff_exists'.mp hurl
  obtain ⟨readbuffer, rfl⟩ := Option.ne_none_iff_exists'.mp hbuffer
  simp only [UrlRequest.call, postUrl, hhandle, hconn, Option.map_some, and_true]
  refine ⟨{ curlEasyInit with
    post := true, readFunction := true, url := some (conn.bytes ++ url.bytes), writeFunction := true,
    httpHeader := appendContentTypeToHeader [str "Transfer-Encoding: chunked",
      str "Content-Length: " ++ Decimal.print readbuffer.bytes.length] url }, ?_, rfl⟩
  split_ifs
  · exact ⟨(Transfer.run_keeps _ _).1, by simp [(Transfer.run_keeps _ _).2, Transfer.start]⟩
  · exact ⟨(Transfer.run_keeps _ _).1, by simp [(Transfer.run_keeps _ _).2, Transfer.start]⟩

/-- A call of `post_url` without what it checks for performs nothing and leaves the handle alone. -/
theorem call_not_post {comm : Comm} {handle : CurlHandle} (h : Connected comm handle) {url readbuffer : Option CString}
    (exchange : Exchange) (hp : ¬ (UrlRequest.post url readbuffer exchange).Posts) :
    Connected ((UrlRequest.post url readbuffer exchange).call comm).transfer.comm handle ∧
      ((UrlRequest.post url readbuffer exchange).call comm).performed = none := by
  have hmissing : url = none ∨ readbuffer = none := by
    by_contra hboth
    exact hp ⟨fun e => hboth (Or.inl e), fun e => hboth (Or.inr e)⟩
  rw [UrlRequest.call, postUrl_nothing { comm with readbuffer := readbuffer }
    (hmissing.imp_right fun e => Or.inr (Or.inr e))]
  exact ⟨h, rfl⟩

/-- From a structure with a handle and an address, all methods are right exactly when no request is a performed `get_url` with
`CURLOPT_POST` on, be it on from the start or since a performed `post_url`. -/
theorem rightMethods_iff (requests : List UrlRequest) : ∀ {comm : Comm} {handle : CurlHandle}, Connected comm handle →
    (RightMethods comm requests ↔
      (handle.post = true → ∀ r ∈ requests, ¬ r.Gets) ∧ requests.Pairwise fun r r' => r.Posts → ¬ r'.Gets) := by
  induction requests with
  | nil => intro comm handle _; simp [RightMethods]
  | cons r requests ih =>
    intro comm handle h
    rw [RightMethods, List.pairwise_cons]
    cases r with
    | get url header exchange =>
      obtain ⟨⟨handle', hconnected, hpost⟩, hperformed⟩ := call_get h url header exchange
      rw [ih hconnected, hpost]
      have hmethod : (∀ handle ∈ ((UrlRequest.get url header exchange).call comm).performed,
          handle.post = (UrlRequest.get url header exchange).isPost) ↔ (handle.post = true → url = none) := by
        cases hp : ((UrlRequest.get url header exchange).call comm).performed with
        | none =>
          rw [hp] at hperformed
          by_cases hu : url = none <;> simp_all
        | some performed =>
          rw [hp] at hperformed
          by_cases hu : url = none <;> simp_all [UrlRequest.isPost]
      rw [hmethod]
      simp only [UrlRequest.Posts, UrlRequest.Gets, List.forall_mem_cons, not_not, false_implies, implies_true, true_and]
      tauto
    | post url readbuffer exchange =>
      by_cases hp : (UrlRequest.post url readbuffer exchange).Posts
      · obtain ⟨⟨handle', hconnected, hpost⟩, hperformed⟩ := call_post h exchange hp
        rw [ih hconnected, hpost]
        have hmethod : ∀ handle ∈ ((UrlRequest.post url readbuffer exchange).call comm).performed,
            handle.post = (UrlRequest.post url readbuffer exchange).isPost := by
          intro performed hmem
          rw [Option.mem_def.mp hmem, Option.map_some, Option.some.injEq] at hperformed
          exact hperformed
        have hgets : ¬ (UrlRequest.post url readbuffer exchange).Gets := id
        simp only [List.forall_mem_cons, hgets, not_false_eq_true, true_and, forall_const, hp]
        tauto
      · obtain ⟨hconnected, hperformed⟩ := call_not_post h exchange hp
        have hgets : ¬ (UrlRequest.post url readbuffer exchange).Gets := id
        rw [ih hconnected, hperformed]
        simp [hp, hgets]

/-- Where nothing is performed no method is wrong. -/
theorem rightMethods_of_not_connected (requests : List UrlRequest) :
    ∀ {comm : Comm}, (comm.curlHandle = none ∨ comm.conn = none) → RightMethods comm requests := by
  induction requests with
  | nil => intro comm _; trivial
  | cons r requests ih =>
    intro comm hcomm
    obtain ⟨hperformed, hcomm'⟩ := call_of_not_connected hcomm r
    exact ⟨by simp [hperformed], ih hcomm'⟩

/-- After retransmissions `CURLOPT_POST` is on exactly when there was one. -/
theorem connected_afterRequests (requests : List UrlRequest) (hp : ∀ r ∈ requests, r.Posts) :
    ∀ {comm : Comm} {handle : CurlHandle}, Connected comm handle →
      ∃ handle', Connected (afterRequests comm requests) handle' ∧
        handle'.post = (handle.post || decide (requests ≠ [])) := by
  induction requests with
  | nil => intro comm handle h; exact ⟨handle, h, by simp⟩
  | cons r requests ih =>
    intro comm handle h
    have hr := hp r List.mem_cons_self
    cases r with
    | get url header exchange => exact absurd hr id
    | post url readbuffer exchange =>
      obtain ⟨⟨handle', hconnected, hpost⟩, _⟩ := call_post h exchange hr
      obtain ⟨handle'', hconnected', hpost'⟩ := ih (fun r hmem => hp r (List.mem_cons_of_mem _ hmem)) hconnected
      exact ⟨handle'', hconnected', by simp [hpost', hpost]⟩

end MethodAux

/-- A fresh structure, with a handle when `curl_easy_init` gave one. -/
def freshComm (initialized : Bool) (conn : Option CString) (cmptype : Int16) : Comm :=
  initCommStruct (if initialized then some curlEasyInit else none) conn cmptype

/-- A fresh structure with a handle and an address is connected, and `CURLOPT_POST` is off. -/
theorem MethodAux.connected_freshComm {initialized : Bool} {conn : Option CString} (hinit : initialized = true)
    (hconn : conn ≠ none) (cmptype : Int16) : MethodAux.Connected (freshComm initialized conn cmptype) curlEasyInit :=
  ⟨by simp [freshComm, initCommStruct, hinit], hconn⟩

/-- Over a history of calls on a fresh structure, every request has the method of its function exactly when none is performed,
for lack of a handle or of an address, or no `get_url` is performed after a `post_url`. So after retransmissions
`is_server_alive` asks with a `GET` exactly when there were none. -/
theorem rightMethods_freshComm_iff (initialized : Bool) (conn : Option CString) (cmptype : Int16)
    (requests : List UrlRequest) :
    (RightMethods (freshComm initialized conn cmptype) requests ↔
      initialized = false ∨ conn = none ∨ requests.Pairwise fun r r' => r.Posts → ¬ r'.Gets) ∧
    (initialized = true → conn ≠ none → (∀ r ∈ requests, r.Posts) → ∀ exchange : Exchange,
      ((isServerAlive (afterRequests (freshComm initialized conn cmptype) requests) exchange).performed.map
        CurlHandle.post = some false ↔ requests = [])) := by
  constructor
  · by_cases hnone : initialized = false ∨ conn = none
    · have hcomm : RightMethods (freshComm initialized conn cmptype) requests :=
        MethodAux.rightMethods_of_not_connected requests (hnone.imp (fun h => by simp [freshComm, initCommStruct, h]) id)
      tauto
    · have hinit : initialized = true := by
        cases initialized
        · exact absurd (Or.inl rfl) hnone
        · rfl
      have hconn : conn ≠ none := fun e => hnone (Or.inr e)
      rw [MethodAux.rightMethods_iff requests (MethodAux.connected_freshComm hinit hconn cmptype)]
      simp only [curlEasyInit, Bool.false_eq_true, false_implies, true_and]
      tauto
  · intro hinit hconn hposts exchange
    obtain ⟨handle', hafter, hpost⟩ :=
      MethodAux.connected_afterRequests requests hposts (MethodAux.connected_freshComm hinit hconn cmptype)
    have hget := (MethodAux.call_get hafter (some (CString.lit "/Version.json")) none exchange).2
    rw [UrlRequest.call] at hget
    rw [isServerAlive, hget, hpost]
    simp [curlEasyInit]

/-- The request of a row that is retransmitted. -/
def dataRequest : UrlRequest := .post (some (CString.lit "/Data.json")) (some (CString.lit "x")) ⟨[], CURLE_OK⟩

/-- The request of `is_server_alive`. -/
def aliveRequest : UrlRequest := .get (some (CString.lit "/Version.json")) none ⟨[], CURLE_OK⟩

/-- Asking first and sending then has the right methods, and the next question is asked with a `POST`. -/
theorem alive_then_data :
    RightMethods (freshComm true (some (CString.lit "http://127.0.0.1:5468")) 0) [aliveRequest, dataRequest] ∧
      ¬ ((isServerAlive (afterRequests (freshComm true (some (CString.lit "http://127.0.0.1:5468")) 0) [dataRequest])
        ⟨[], CURLE_OK⟩).performed.map CurlHandle.post = some false) := by
  refine ⟨(rightMethods_freshComm_iff true _ 0 [aliveRequest, dataRequest]).1.mpr (Or.inr (Or.inr ?_)), ?_⟩
  · simp [aliveRequest, UrlRequest.Posts]
  · rw [(rightMethods_freshComm_iff true (some (CString.lit "http://127.0.0.1:5468")) 0 [dataRequest]).2 rfl (by simp)
      (by simp [dataRequest, UrlRequest.Posts])]
    simp

/-- After one row was sent, `get_url` asks for the version with a `POST`. -/
theorem alive_after_data_is_post :
    ¬ RightMethods (freshComm true (some (CString.lit "http://127.0.0.1:5468")) 0) [dataRequest, aliveRequest] := by
  rintro ⟨_, hget, _⟩
  exact absurd (hget _ rfl) (by decide)

end Sauvegarde
