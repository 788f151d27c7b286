import Sauvegarde.Libcdpfgl.HashPieces
import Sauvegarde.Libcdpfgl.Unpacking

/-!
# Whole hashs from the network

The three requests that bring hashs: two in an array of a JSON body, one in a header. None of the parsers looks at the length of what
it decodes, and that of the header does not look at the length of its pieces either.
-/

namespace Sauvegarde

/-- A request that brings hashs, with its body or with the value of `X-Get-Hash-Array`. -/
inductive HashRequest where
  | metaJson (receivedData : CString)
  | hashArrayJson (receivedData : CString)
  | getHashArray (header : Option CString)
deriving DecidableEq

namespace HashRequest

variable (jsonLoads : CString → Option Json)

/-- The list that the handler of the request gives to the backend; none when a length is less than zero or a piece is left. -/
def hashDataList (lengthFirst : Bool) : HashRequest → Option (List HashData)
  | metaJson receivedData =>
    some (((jsonLoads receivedData).bind fun root => (fillsServerMetaDataFromJson root).metaData).elim [] MetaData.hashDataList)
  | hashArrayJson receivedData =>
    some ((jsonLoads receivedData).elim [] fun root => extractHashsFromArray root "hash_list")
  | getHashArray header => hashDataListFromString lengthFirst header

/-- The hashs as the request has them: the elements of an array, or pieces of a text. -/
def HoldsHashs (lengthFirst : Bool) : HashRequest → Prop
  | metaJson receivedData | hashArrayJson receivedData =>
    ∀ root ∈ jsonLoads receivedData, ∀ value ∈ Json.elements (root.get "hash_list"),
      ∃ text, value = Json.str text ∧ (Base64.decode text.bytes).length = HASH_LEN
  | getHashArray header => ∀ piece ∈ hashPieces header, HoldsHash lengthFirst piece

/-- The backend gets a list, and in it whole hashs alone. -/
def HandsWholeHashs (lengthFirst : Bool) (request : HashRequest) : Prop :=
  ∃ list, request.hashDataList jsonLoads lengthFirst = some list ∧ WholeHashs list

end HashRequest

namespace WholeHashsAux

/-- The element made of a value has a whole hash exactly when the value is the text of one. -/
theorem whole_hashDataOfText {value : Json} :
    (∃ hash, (hashDataOfText value).hash = some hash ∧ hash.length = HASH_LEN) ↔
      ∃ text, value = Json.str text ∧ (Base64.decode text.bytes).length = HASH_LEN := by
  have hhash : (hashDataOfText value).hash = (Json.stringValue (some value)).map fun text => Base64.decode text.bytes := rfl
  rw [hhash]
  constructor
  · rintro ⟨hash, heq, hlen⟩
    obtain ⟨text, htext, rfl⟩ := Option.map_eq_some_iff.mp heq
    refine ⟨text, ?_, hlen⟩
    cases value with
    | str s => exact congrArg Json.str (Option.some.inj htext)
    | _ => exact absurd htext (by simp [Json.stringValue])
  · rintro ⟨text, rfl, hlen⟩
    exact ⟨_, rfl, hlen⟩

/-- So have the elements of an array. -/
theorem wholeHashs_extractHashsFromArray {root : Json} {name : String} : WholeHashs (extractHashsFromArray root name) ↔
    ∀ value ∈ Json.elements (root.get name), ∃ text, value = Json.str text ∧ (Base64.decode text.bytes).length = HASH_LEN := by
  rw [WholeHashs, extractHashsFromArray, extractGlistFromArray_eq, List.forall_mem_map]
  simp only [whole_hashDataOfText]

/-- A body that cannot be read brings no hashs, any other those of its array. -/
theorem wholeHashs_body {jsonLoads : CString → Option Json} {receivedData : CString} {list : Json → List HashData}
    (hlist : ∀ root, list root = extractHashsFromArray root "hash_list") :
    WholeHashs ((jsonLoads receivedData).elim [] list) ↔ ∀ root ∈ jsonLoads receivedData,
      ∀ value ∈ Json.elements (root.get "hash_list"),
        ∃ text, value = Json.str text ∧ (Base64.decode text.bytes).length = HASH_LEN := by
  rcases jsonLoads receivedData with _ | root
  · exact iff_of_true (fun hd hhd => absurd hhd List.not_mem_nil) (fun root hroot => absurd hroot (by simp))
  · rw [Option.elim_some, hlist, wholeHashs_extractHashsFromArray]
    simp

end WholeHashsAux

open HashRequest WholeHashsAux

/-- The backend gets whole hashs exactly when the request holds whole hashs. -/
theorem handsWholeHashs_iff (jsonLoads : CString → Option Json) (lengthFirst : Bool) (request : HashRequest) :
    request.HandsWholeHashs jsonLoads lengthFirst ↔ request.HoldsHashs jsonLoads lengthFirst := by
  unfold HandsWholeHashs
  cases request with
  | metaJson receivedData =>
    have hbody := @wholeHashs_body jsonLoads receivedData (fun root => ((fillsServerMetaDataFromJson root).metaData).elim []
      MetaData.hashDataList) fun _ => rfl
    have hlist : hashDataList jsonLoads lengthFirst (.metaJson receivedData) = some ((jsonLoads receivedData).elim [] fun root =>
        ((fillsServerMetaDataFromJson root).metaData).elim [] MetaData.hashDataList) := by
      rw [hashDataList]
      cases jsonLoads receivedData <;> rfl
    simp only [hlist, Option.some.injEq, exists_eq_left', hbody, HoldsHashs]
  | hashArrayJson receivedData =>
    simp only [hashDataList, Option.some.injEq, exists_eq_left', wholeHashs_body fun _ => rfl, HoldsHashs]
  | getHashArray header => exact wholeHashs_hashDataOfPieces (hashPieces header)

/-- `json_loads` on the text of an object with a list of one hash, which is `null`. -/
def loadsNullHash (text : CString) : Option Json :=
  if text = CString.lit "\x7b\"hash_list\":[null]\x7d" then some (Json.obj [("hash_list", Json.arr [Json.null])]) else none

/-- What is no text gives a hash that is `NULL`, and a header that is one comma has two pieces whose lengths are less than zero. -/
theorem nullHash_handed : ¬ HandsWholeHashs loadsNullHash false (.hashArrayJson (CString.lit "\x7b\"hash_list\":[null]\x7d")) ∧
    hashDataList loadsNullHash false (.getHashArray (some (CString.lit ","))) = none ∧
      hashDataList loadsNullHash true (.getHashArray (some (CString.lit ","))) = none := by
  refine ⟨?_, rfl, rfl⟩
  rintro ⟨list, hlist, hwhole⟩
  have hnull : list = [newHashDataAsIs none 0 none COMPRESS_NONE_TYPE 0] := Option.some.inj (hlist.symm.trans rfl)
  obtain ⟨hash, hhash, -⟩ := hwhole _ (hnull ▸ List.mem_cons_self)
  exact absurd hhash (by simp [newHashDataAsIs])

end Sauvegarde
