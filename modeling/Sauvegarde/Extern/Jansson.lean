import Mathlib.Data.List.Basic
import Sauvegarde.Lib.Utf8
import Sauvegarde.Extern.Glib

/-!
# Jansson

JSON values and the functions of jansson that the program calls. A `json_t *` that may be `NULL` is an `Option Json`. The text
that `json_dumps` writes and `json_loads` reads stands for its value: jansson reads back the value it wrote, so a text is
represented by that value, and what is left of writing is that it fails on a string that is not UTF-8.
-/

namespace Sauvegarde

/-- A JSON value. The members of an object stand in the order of their insertion; integers are jansson's signed 64 bit ones. -/
inductive Json where
  | null
  | bool (b : Bool)
  | int (n : Int64)
  | str (s : CString)
  | arr (elements : List Json)
  | obj (members : List (String × Json))

namespace Json

/-- `json_object_set_new`: a member that exists is replaced, a new one goes to the end; only objects have members. -/
def setMember (key : String) (value : Json) : List (String × Json) → List (String × Json)
  | [] => [(key, value)]
  | (k, v) :: members => if k = key then (k, value) :: members else (k, v) :: setMember key value members

/-- `json_object_set_new` on a value. -/
def set (root : Json) (key : String) (value : Json) : Json :=
  match root with
  | obj members => obj (setMember key value members)
  | _ => root

/-- `json_object_get`: `NULL` for a member that does not exist and for a value that is no object. -/
def get (root : Json) (key : String) : Option Json :=
  match root with
  | obj members => members.lookup key
  | _ => none

/-- `json_integer_value`: zero for what is no integer. -/
def integerValue : Option Json → Int64
  | some (int n) => n
  | _ => 0

/-- `json_string_value`: `NULL` for what is no string. -/
def stringValue : Option Json → Option CString
  | some (str s) => some s
  | _ => none

/-- The elements `json_array_foreach` goes over: none for what is no array. -/
def elements : Option Json → List Json
  | some (arr vs) => vs
  | _ => []

/-- The comparison with `json_true ()`. -/
def isTrue : Option Json → Bool
  | some (bool b) => b
  | _ => false

@[simp] theorem integerValue_int (n : Int64) : integerValue (some (int n)) = n := rfl

@[simp] theorem stringValue_str (s : CString) : stringValue (some (str s)) = some s := rfl

@[simp] theorem elements_arr (vs : List Json) : elements (some (arr vs)) = vs := rfl

@[simp] theorem isTrue_bool (b : Bool) : isTrue (some (bool b)) = b := rfl

/-- What is found after a member is set: the value that was set under its key, what was there before under another. -/
theorem lookup_setMember (key k : String) (value : Json) (members : List (String × Json)) :
    (setMember key value members).lookup k = if k = key then some value else members.lookup k := by
  induction members with
  | nil =>
    simp only [setMember, List.lookup_cons, List.lookup_nil]
    split <;> simp_all
  | cons m members ih =>
    obtain ⟨k', v⟩ := m
    by_cases hk : k' = key
    · by_cases h : k = key
      · simp [setMember, hk, h]
      · have hb : (k == key) = false := by simpa using h
        simp [setMember, hk, h, List.lookup_cons, hb]
    · by_cases h : k = k'
      · have hne : k ≠ key := fun e => hk (h ▸ e)
        simp [setMember, hk, h]
      · have hb : (k == k') = false := by simpa using h
        simp only [setMember, hk, if_false, List.lookup_cons, hb, ih]

/-- What is read from an object after a member was set. -/
theorem get_set_obj (members : List (String × Json)) (key k : String) (value : Json) :
    ((obj members).set key value).get k = if k = key then some value else (obj members).get k :=
  lookup_setMember key k value members

/-! ## Writing -/

mutual

/-- Whether every string of a value is UTF-8. -/
def wellEncoded : Json → Bool
  | str s => Utf8.valid s.bytes
  | arr vs => wellEncodedAll vs
  | obj members => wellEncodedMembers members
  | _ => true

/-- Whether every string of the elements of an array is UTF-8. -/
def wellEncodedAll : List Json → Bool
  | [] => true
  | v :: vs => v.wellEncoded && wellEncodedAll vs

/-- Whether every string of the members of an object is UTF-8. -/
def wellEncodedMembers : List (String × Json) → Bool
  | [] => true
  | (_, v) :: members => v.wellEncoded && wellEncodedMembers members

end

/-- `json_dumps`: `NULL` when a string of the value is not UTF-8. -/
def dumps (root : Json) : Option Json := if root.wellEncoded then some root else none

/-- `json_loads` of a text that was written. -/
def loads (text : Json) : Option Json := some text

/-- The elements of an array are written when each of them is. -/
theorem wellEncodedAll_iff (vs : List Json) : wellEncodedAll vs = true ↔ ∀ v ∈ vs, v.wellEncoded = true := by
  induction vs with
  | nil => simp [wellEncodedAll]
  | cons v vs ih => simp only [wellEncodedAll, Bool.and_eq_true, ih, List.forall_mem_cons]

/-- The members of an object are written when each of them is. -/
theorem wellEncodedMembers_iff (members : List (String × Json)) :
    wellEncodedMembers members = true ↔ ∀ m ∈ members, m.2.wellEncoded = true := by
  induction members with
  | nil => simp [wellEncodedMembers]
  | cons m members ih =>
    obtain ⟨k, v⟩ := m
    simp only [wellEncodedMembers, Bool.and_eq_true, ih, List.forall_mem_cons]

/-- A value is written with a member it is given when both are written. -/
theorem wellEncoded_set {root value : Json} (h : root.wellEncoded = true) (hv : value.wellEncoded = true) (key : String) :
    (root.set key value).wellEncoded = true := by
  cases root with
  | obj members =>
    simp only [wellEncoded, wellEncodedMembers_iff, set] at h ⊢
    induction members with
    | nil => simpa [setMember] using hv
    | cons m members ih =>
      rw [List.forall_mem_cons] at h
      simp only [setMember]
      split_ifs
      · rw [List.forall_mem_cons]
        exact ⟨hv, h.2⟩
      · rw [List.forall_mem_cons]
        exact ⟨h.1, ih h.2⟩
  | _ => exact h

/-- Whether a value is written does not depend on which value, of those that are written, a member is given. -/
theorem wellEncoded_set_congr {root value value' : Json} {key : String} (h : (root.set key value).wellEncoded = true)
    (hv : value'.wellEncoded = true) : (root.set key value').wellEncoded = true := by
  cases root with
  | obj members =>
    simp only [wellEncoded, wellEncodedMembers_iff, set] at h ⊢
    induction members with
    | nil => simpa [setMember] using hv
    | cons m members ih =>
      simp only [setMember] at h ⊢
      split_ifs at h ⊢
      · rw [List.forall_mem_cons] at h ⊢
        exact ⟨hv, h.2⟩
      · rw [List.forall_mem_cons] at h ⊢
        exact ⟨h.1, ih h.2⟩
  | _ => exact h

/-- A base64 text is written as it is. -/
theorem wellEncoded_base64Text (bytes : Bytes) : (str (base64Text bytes)).wellEncoded = true :=
  Utf8.valid_of_ascii fun _ hb => (base64_char (Base64.inAlphabet_of_mem_encode hb)).2.2.2.2.2

end Json

end Sauvegarde
