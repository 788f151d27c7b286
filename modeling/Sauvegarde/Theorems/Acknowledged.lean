import Sauvegarde.Server.DataRequests

/-!
# Acknowledged blocks

What the answer to a request that brings blocks is worth. The decoder rejects an element by giving `NULL` for it; the handlers pass
that on and answer `Ok!` all the same, or look into it in debug mode.
-/

namespace Sauvegarde

/-- What a client that brings blocks relies on: the handler answers without looking into an element that was rejected, the others
are queued in their order, and the answer is `Ok!` only when no element was rejected. -/
def KeepsAcknowledged (jsonLoads : CString → Option Json) (debug : Bool) (request : DataRequest) (receivedData : CString) : Prop :=
  ∀ intake : Intake, ∃ intake' answer, request.answer jsonLoads debug intake receivedData = some (intake', answer) ∧
    intake'.dataQueue = intake.dataQueue ++
      (request.elements jsonLoads receivedData).filterMap (fun element => element.bind convertJsonToHashData) ∧
    (answer = answerJsonSuccessString MHD_HTTP_OK (CString.lit "Ok!") →
      ∀ element ∈ request.elements jsonLoads receivedData, WellFormedElement element)

namespace AcknowledgedAux

variable {jsonLoads : CString → Option Json} {receivedData : CString}

/-- The blocks that a handler takes from a request. -/
def blocksOfRequest (jsonLoads : CString → Option Json) (receivedData : CString) : DataRequest → List (Option HashData)
  | .data => [hashDataOfBody jsonLoads receivedData]
  | .dataArray => hashDataListOfBody jsonLoads receivedData

/-- Both handlers take the blocks of the request, and answer `Ok!` when they are through. -/
theorem answer_eq_takeElements (debug : Bool) (intake : Intake) (request : DataRequest) :
    request.answer jsonLoads debug intake receivedData =
      (takeElements debug intake (blocksOfRequest jsonLoads receivedData request)).map fun intake =>
        (intake, answerJsonSuccessString MHD_HTTP_OK (CString.lit "Ok!")) := by
  cases request with
  | data => rw [DataRequest.answer, blocksOfRequest, takeElements_singleton]
  | dataArray => rfl

/-- A handler that answers answers `Ok!`. -/
theorem answer_ok {debug : Bool} {intake intake' : Intake} {request : DataRequest} {answer : Option Json}
    (h : request.answer jsonLoads debug intake receivedData = some (intake', answer)) :
    answer = answerJsonSuccessString MHD_HTTP_OK (CString.lit "Ok!") := by
  rw [answer_eq_takeElements, Option.map_eq_some_iff] at h
  obtain ⟨_, -, heq⟩ := h
  exact (Prod.mk.inj heq).2.symm

/-- The blocks are what the decoder makes of the elements; of a body that cannot be read there may be none. -/
theorem blocksOfRequest_cases (request : DataRequest) :
    blocksOfRequest jsonLoads receivedData request =
        (request.elements jsonLoads receivedData).map (fun element => element.bind convertJsonToHashData) ∨
      (blocksOfRequest jsonLoads receivedData request = [] ∧ request.elements jsonLoads receivedData = [none]) := by
  cases request with
  | data => exact Or.inl rfl
  | dataArray =>
    unfold blocksOfRequest hashDataListOfBody DataRequest.elements
    rcases jsonLoads receivedData with _ | root
    · exact Or.inr ⟨rfl, rfl⟩
    · refine Or.inl ?_
      simp only [extractHashDataFromArray, extractGlistFromArray_eq, List.map_map]
      rfl

/-- The blocks that are not `NULL` are those of the elements, whether the body can be read or not. -/
theorem filterMap_blocksOfRequest (request : DataRequest) :
    (blocksOfRequest jsonLoads receivedData request).filterMap id =
      (request.elements jsonLoads receivedData).filterMap (fun element => element.bind convertJsonToHashData) := by
  rcases @blocksOfRequest_cases jsonLoads receivedData request with heq | ⟨hnil, hnone⟩
  · rw [heq, List.filterMap_map]
    rfl
  · rw [hnil, hnone]
    rfl

/-- A block is `NULL` only when its element is not well formed. -/
theorem none_mem_blocksOfRequest {request : DataRequest} (h : none ∈ blocksOfRequest jsonLoads receivedData request) :
    ¬ ∀ element ∈ request.elements jsonLoads receivedData, WellFormedElement element := by
  intro hall
  rcases @blocksOfRequest_cases jsonLoads receivedData request with heq | ⟨hnil, -⟩
  · rw [heq] at h
    obtain ⟨element, helement, hnull⟩ := List.mem_map.mp h
    have hsome := isSome_convertJsonToHashData.mpr (hall element helement)
    rw [hnull] at hsome
    exact absurd hsome (by simp)
  · rw [hnil] at h
    exact absurd h List.not_mem_nil

end AcknowledgedAux

open AcknowledgedAux

/-- What is acknowledged is queued exactly when every element of the request is well formed. -/
theorem keepsAcknowledged_iff (jsonLoads : CString → Option Json) (debug : Bool) (request : DataRequest)
    (receivedData : CString) : KeepsAcknowledged jsonLoads debug request receivedData ↔
      ∀ element ∈ request.elements jsonLoads receivedData, WellFormedElement element := by
  constructor
  · intro hkeeps
    obtain ⟨intake', answer, hanswer, -, hok⟩ := hkeeps ⟨0, [], []⟩
    exact hok (answer_ok hanswer)
  · intro hall intake
    obtain ⟨-, hnull, -⟩ | ⟨-, intake', htake, hqueue⟩ :=
      takeElements_cases debug (blocksOfRequest jsonLoads receivedData request) intake
    · exact absurd hall (none_mem_blocksOfRequest hnull)
    · refine ⟨intake', answerJsonSuccessString MHD_HTTP_OK (CString.lit "Ok!"), ?_, ?_, fun _ => hall⟩
      · rw [answer_eq_takeElements, htake]
        rfl
      · rw [hqueue, filterMap_blocksOfRequest]

/-- `json_loads` on the text of an empty array. -/
def loadsEmptyArray (text : CString) : Option Json := if text = CString.lit "[]" then some (Json.arr []) else none

/-- An empty array is no block, and is acknowledged as one; in debug mode the handler looks into `NULL`. -/
theorem emptyArray_acknowledged : ¬ KeepsAcknowledged loadsEmptyArray false .data (CString.lit "[]") ∧
    ¬ KeepsAcknowledged loadsEmptyArray true .data (CString.lit "[]") := by
  have hloads : loadsEmptyArray (CString.lit "[]") = some (Json.arr []) := if_pos rfl
  have hdecoded : (loadsEmptyArray (CString.lit "[]")).bind convertJsonToHashData = none := by
    rw [hloads]
    rfl
  have hrejected : ¬ WellFormedElement (loadsEmptyArray (CString.lit "[]")) := by
    rw [← isSome_convertJsonToHashData, hdecoded]
    simp
  constructor
  · intro hkeeps
    obtain ⟨intake', answer, hanswer, -, hok⟩ := hkeeps ⟨0, [], []⟩
    exact hrejected (hok (answer_ok hanswer) _ List.mem_cons_self)
  · intro hkeeps
    obtain ⟨intake', answer, hanswer, -, -⟩ := hkeeps ⟨0, [], []⟩
    rw [DataRequest.answer, hashDataOfBody, hdecoded] at hanswer
    exact absurd hanswer (by simp [takeElement])

end Sauvegarde
