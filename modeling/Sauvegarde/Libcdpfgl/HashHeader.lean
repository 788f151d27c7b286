import Sauvegarde.Libcdpfgl.Hashs

/-!
# Asking for blocks

The header with which blocks are asked for, so many at most in one request.
-/

namespace Sauvegarde

/-- The loop of `convert_max_hashs_from_hash_list_to_gchar`: the text of the hashs, and the list from the first one that is not in
it. -/
def appendMaxHashs (max i : Nat) (oldList : Option Bytes) : List HashData → Option Bytes × List HashData
  | [] => (oldList, [])
  | hashData :: head =>
    if i < max then
      match oldList with
      | none => appendMaxHashs max (i + 1) (some (quotedHash hashData)) head
      | some old => appendMaxHashs max (i + 1) (some (old ++ str ", " ++ quotedHash hashData)) head
    else (oldList, hashData :: head)

/-- `convert_max_hashs_from_hash_list_to_gchar`, with the list that is left in `hash_extract_t`. -/
def convertMaxHashsFromHashListToGchar (hashList : List HashData) (max : Nat) : Option Bytes × List HashData :=
  appendMaxHashs max 0 none hashList

/-- `X_GET_HASH_ARRAY`. -/
def X_GET_HASH_ARRAY : Bytes := str "X-Get-Hash-Array"

/-- `create_x_get_hash_array_http_header`, with the list that is left: `g_strconcat` ends at `NULL`. -/
def createXGetHashArrayHttpHeader (hashList : List HashData) (max : Nat) : Bytes × List HashData :=
  let (hashString, rest) := convertMaxHashsFromHashListToGchar hashList max
  (X_GET_HASH_ARRAY ++ str ": " ++ hashString.getD [], rest)

/-- `calculate_max_number_of_hashs`. -/
def calculateMaxNumberOfHashs (size : UInt64) : Nat :=
  if size < 32768 then 64
  else if size < 262144 then 128
  else if size < 1048576 then 128
  else if size < 8388608 then 128
  else if size < 67108864 then 64
  else if size < 134217728 then 32
  else 16

/-- The loop writes `max` hashs at most, and leaves the rest. -/
theorem appendMaxHashs_eq (max : Nat) (list : List HashData) : ∀ (i : Nat) (oldList : Option Bytes),
    appendMaxHashs max i oldList list = (appendQuotedHashs oldList (list.take (max - i)), list.drop (max - i)) := by
  induction list with
  | nil => simp [appendMaxHashs, appendQuotedHashs]
  | cons hashData head ih =>
    intro i oldList
    by_cases hi : i < max
    · rw [show max - i = max - (i + 1) + 1 by omega, List.take_succ_cons, List.drop_succ_cons]
      cases oldList <;> simp only [appendMaxHashs, hi, if_true, ih, appendQuotedHashs]
    · simp [appendMaxHashs, hi, show max - i = 0 by omega, appendQuotedHashs]

/-- The header names the first `max` hashs of the list. -/
theorem createXGetHashArrayHttpHeader_eq (hashList : List HashData) (max : Nat) :
    createXGetHashArrayHttpHeader hashList max =
      (X_GET_HASH_ARRAY ++ str ": " ++ (convertHashDataListToGchar (hashList.take max)).getD [], hashList.drop max) := by
  rw [createXGetHashArrayHttpHeader, convertMaxHashsFromHashListToGchar, appendMaxHashs_eq]
  rfl

end Sauvegarde
