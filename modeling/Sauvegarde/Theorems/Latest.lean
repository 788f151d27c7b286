import Sauvegarde.Libcdpfgl.LatestVersions

/-!
# The latest versions

What `keep_latests_meta_data_t_in_list` returns of a sorted list, wherever the elements stand that it takes out of it.
-/

namespace Sauvegarde

open LinkedList (Store IsList)

/-- The first element of a list among those of greatest time with the name of an element. -/
def IsFirstLatest (collateKeyForFilename : CString → CString) (elements : List (Nat × MetaData)) (element first : Nat × MetaData) :
    Prop :=
  (elements.filter fun e => nameKey collateKeyForFilename e.2 = nameKey collateKeyForFilename element.2 ∧
    ∀ other ∈ elements, nameKey collateKeyForFilename other.2 = nameKey collateKeyForFilename element.2 →
      other.2.mtime ≤ e.2.mtime).head? = some first

namespace LatestAux

variable {collateKeyForFilename : CString → CString}

/-- In a list sorted by `compare_meta_data_t` the keys go up. -/
theorem pairwise_elementKey {elements : List (Nat × MetaData)}
    (hsorted : (elements.map Prod.snd).Pairwise fun a b => compareMetaData collateKeyForFilename a b ≤ 0) :
    elements.Pairwise fun a b => elementKey collateKeyForFilename a ≤ elementKey collateKeyForFilename b := by
  rw [List.pairwise_map] at hsorted
  exact hsorted.imp fun hle => octets_le_of_notBehind (compareMetaData_le_zero.mp hle)

/-- The same names have the same keys. -/
theorem elementKey_eq_iff {a b : Nat × MetaData} : elementKey collateKeyForFilename a = elementKey collateKeyForFilename b ↔
    nameKey collateKeyForFilename a.2 = nameKey collateKeyForFilename b.2 := octets_inj

/-- A greatest element of a key is one of greatest time with a name. -/
theorem isGreatest_iff {elements : List (Nat × MetaData)} {element e : Nat × MetaData} :
    Latest.IsGreatest (elementKey collateKeyForFilename) elementMtime elements (elementKey collateKeyForFilename element) e ↔
      nameKey collateKeyForFilename e.2 = nameKey collateKeyForFilename element.2 ∧
        ∀ other ∈ elements, nameKey collateKeyForFilename other.2 = nameKey collateKeyForFilename element.2 →
          other.2.mtime ≤ e.2.mtime := by
  unfold Latest.IsGreatest elementMtime
  simp only [elementKey_eq_iff, UInt64.le_iff_toNat_le]

end LatestAux

open LatestAux

/-- Of a sorted list one element is kept for each name: the first of those of greatest time. The function ends, looks at nothing that
was given back, and keeps the order. -/
theorem keepLatests_firstLatest (collateKeyForFilename : CString → CString) {store : Store MetaData} {fileList : Option Nat}
    {elements : List (Nat × MetaData)} (hlist : IsList store fileList elements)
    (hsorted : (elements.map Prod.snd).Pairwise fun a b => compareMetaData collateKeyForFilename a b ≤ 0) :
    ∃ store' head kept, keepLatestsInMemory collateKeyForFilename elements.length store fileList = some (store', head) ∧
      IsList store' head kept ∧ kept.Sublist elements ∧ ∀ element ∈ elements, ∃ first,
        IsFirstLatest collateKeyForFilename elements element first ∧
          kept.filter (fun e => nameKey collateKeyForFilename e.2 = nameKey collateKeyForFilename element.2) = [first] := by
  obtain ⟨store', head, hkeep, hkept⟩ := keepLatestsInMemory_isList collateKeyForFilename hlist
  have hsublist : (keptElements collateKeyForFilename elements).Sublist elements := Latest.keep_sublist elements
  refine ⟨store', head, _, hkeep, hkept, hsublist, fun element helement => ?_⟩
  obtain ⟨first, hfirst, honly⟩ := @Latest.exists_filter_keep _ _ _ _ _ (elementKey collateKeyForFilename) elementMtime elements
    (pairwise_elementKey hsorted) element helement
  refine ⟨first, ?_, ?_⟩
  · rw [IsFirstLatest, ← hfirst]
    exact congrArg List.head? (List.filter_congr fun e _ => decide_eq_decide.mpr isGreatest_iff.symm)
  · rw [← honly, keptElements]
    exact List.filter_congr fun e _ => decide_eq_decide.mpr elementKey_eq_iff.symm

/-- A file with a name and a time. -/
def fileAt (name : String) (mtime : UInt64) : MetaData := { newMetaData with name := some (CString.lit name), mtime := mtime }

/-- Three versions of a file, the last two of one time, and another file. -/
def versions : List (Nat × MetaData) := [(1, fileAt "a" 1), (2, fileAt "a" 2), (3, fileAt "a" 2), (4, fileAt "b" 0)]

/-- Them, as they are in memory. -/
def versionsInMemory : Store MetaData := fun address =>
  if address = 1 then some ⟨fileAt "a" 1, none, some 2⟩
  else if address = 2 then some ⟨fileAt "a" 2, some 1, some 3⟩
  else if address = 3 then some ⟨fileAt "a" 2, some 2, some 4⟩
  else if address = 4 then some ⟨fileAt "b" 0, some 3, none⟩
  else none

/-- The first version goes with the head of the list, and the third from its middle. -/
theorem versions_firstLatest : ∃ store' head kept,
    keepLatestsInMemory id versions.length versionsInMemory (some 1) = some (store', head) ∧ IsList store' head kept ∧
      kept.Sublist versions ∧ ∀ element ∈ versions, ∃ first, IsFirstLatest id versions element first ∧
        kept.filter (fun e => nameKey id e.2 = nameKey id element.2) = [first] := by
  have hlist : IsList versionsInMemory (some 1) versions :=
    ⟨by decide, some 4, rfl, some 2, rfl, rfl, some 3, rfl, rfl, some 4, rfl, rfl, none, rfl, rfl, rfl⟩
  exact keepLatests_firstLatest id hlist (by decide)

end Sauvegarde
