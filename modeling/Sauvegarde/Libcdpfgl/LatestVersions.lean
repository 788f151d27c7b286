import Sauvegarde.Lib.Latest
import Sauvegarde.Lib.LinkedList
import Sauvegarde.Libcdpfgl.FileLists

/-!
# Keeping the latest versions

`keep_latests_meta_data_t_in_list` on the list as it is in memory: elements are taken out of it and given back while it is walked
through, and its head moves when the first is. A walk that looks at an element that was given back has no result.
-/

namespace Sauvegarde

open LinkedList (Store IsList firstAddress)

/-- Where the loop stands: the memory, `head` and `file_list`. -/
structure LatestsWalk where
  store : Store MetaData
  head : Option Nat
  fileList : Option Nat

section

variable (collateKeyForFilename : CString → CString)

/-- One turn of the loop. -/
def LatestsWalk.turn (walk : LatestsWalk) : Option LatestsWalk :=
  match walk.fileList with
  | none => some walk
  | some fileList =>
    (walk.store fileList).bind fun element =>
      match element.next with
      | none => some { walk with fileList := none }
      | some next =>
        (walk.store next).bind fun nextElement =>
          if strcmp (nameKey collateKeyForFilename element.data) (nameKey collateKeyForFilename nextElement.data) = 0 then
            if element.data.mtime < nextElement.data.mtime then
              -- the first one goes, and `head` with it when it is the first of the list
              (LinkedList.removeLink walk.store fileList fileList).bind fun (store, list) =>
                (LinkedList.free store fileList).map fun store =>
                  ⟨store, if some fileList = walk.head then list else walk.head, some next⟩
            else
              (LinkedList.removeLink walk.store fileList next).bind fun (store, _) =>
                (LinkedList.free store next).map fun store => { walk with store := store }
          else some { walk with fileList := some next }

/-- The loop: none when it does not end within so many turns. -/
def LatestsWalk.loop : Nat → LatestsWalk → Option LatestsWalk
  | 0, walk => if walk.fileList = none then some walk else none
  | turns + 1, walk => if walk.fileList = none then some walk else (walk.turn collateKeyForFilename).bind (LatestsWalk.loop turns)

/-- `keep_latests_meta_data_t_in_list` of the list that begins at `fileList`: the memory, and where what is kept begins. -/
def keepLatestsInMemory (turns : Nat) (store : Store MetaData) (fileList : Option Nat) : Option (Store MetaData × Option Nat) :=
  (LatestsWalk.loop collateKeyForFilename turns ⟨store, fileList, fileList⟩).map fun walk => (walk.store, walk.head)

/-- The key of the file of an element. -/
def elementKey (element : Nat × MetaData) : List ℕ := octets (nameKey collateKeyForFilename element.2)

/-- The time of the file of an element. -/
def elementMtime (element : Nat × MetaData) : ℕ := element.2.mtime.toNat

/-- What is kept of the elements of a list. -/
def keptElements (elements : List (Nat × MetaData)) : List (Nat × MetaData) :=
  Latest.keep (elementKey collateKeyForFilename) elementMtime elements

end

namespace LatestsAux

variable {collateKeyForFilename : CString → CString}

/-- The walk stands behind the elements that are kept, before the rest. -/
structure StandsAt (walk : LatestsWalk) (kept rest : List (Nat × MetaData)) : Prop where
  list : IsList walk.store walk.head (kept ++ rest)
  fileList : walk.fileList = firstAddress rest

/-- What the walk finds at the first element of the rest. -/
theorem StandsAt.element {walk : LatestsWalk} {kept rest : List (Nat × MetaData)} {a : Nat} {metaA : MetaData}
    (h : StandsAt walk kept ((a, metaA) :: rest)) :
    walk.fileList = some a ∧ ∃ prev, walk.store a = some ⟨metaA, prev, firstAddress rest⟩ := by
  refine ⟨h.fileList, ?_⟩
  obtain ⟨last, hsegment⟩ := h.list.segment
  obtain ⟨middle, behind, -, -, next, hcell, hrest⟩ := LinkedList.segment_append.mp hsegment
  exact ⟨middle, by rw [hcell, hrest.first_eq]⟩

/-- The head of the list is the element that the walk stands at exactly when nothing is kept so far. -/
theorem StandsAt.head {walk : LatestsWalk} {kept rest : List (Nat × MetaData)} {a : Nat} {metaA : MetaData}
    (h : StandsAt walk kept ((a, metaA) :: rest)) : some a = walk.head ↔ kept = [] := by
  obtain ⟨last, hsegment⟩ := h.list.segment
  rw [hsegment.first_eq]
  rcases kept with _ | ⟨⟨b, metaB⟩, kept⟩
  · exact iff_of_true rfl rfl
  · refine iff_of_false (fun heq => ?_) (by simp)
    have hnodup := h.list.nodup
    rw [List.cons_append, List.map_cons, List.nodup_cons] at hnodup
    have hab : a = b := Option.some.inj heq
    exact hnodup.1 (by simp [← hab])

/-- At the last element the walk goes to the end. -/
theorem turn_last {walk : LatestsWalk} {kept : List (Nat × MetaData)} {element : Nat × MetaData}
    (h : StandsAt walk kept [element]) : ∃ walk', walk.turn collateKeyForFilename = some walk' ∧
      StandsAt walk' (kept ++ [element]) [] := by
  obtain ⟨a, metaA⟩ := element
  obtain ⟨hfile, prev, hcell⟩ := h.element
  refine ⟨{ walk with fileList := none }, ?_, ⟨?_, rfl⟩⟩
  · rw [LatestsWalk.turn, hfile]
    simp only [hcell, Option.bind_some]
    rfl
  · rw [List.append_nil]
    exact h.list

/-- The same names as numbers. -/
theorem strcmp_nameKey_iff (a b : Nat × MetaData) :
    strcmp (nameKey collateKeyForFilename a.2) (nameKey collateKeyForFilename b.2) = 0 ↔
      elementKey collateKeyForFilename a = elementKey collateKeyForFilename b := by
  rw [(strcmp_spec _ _).1]
  exact octets_inj.symm

/-- At any other element the walk takes it out, or the next one, or it goes on to that. -/
theorem turn_cases {walk : LatestsWalk} {kept more : List (Nat × MetaData)} {first second : Nat × MetaData}
    (h : StandsAt walk kept (first :: second :: more)) : ∃ walk', walk.turn collateKeyForFilename = some walk' ∧
      if elementKey collateKeyForFilename first = elementKey collateKeyForFilename second then
        if elementMtime first < elementMtime second then StandsAt walk' kept (second :: more)
        else StandsAt walk' kept (first :: more)
      else StandsAt walk' (kept ++ [first]) (second :: more) := by
  obtain ⟨a, metaA⟩ := first
  obtain ⟨b, metaB⟩ := second
  obtain ⟨hfile, prev, hcellA⟩ := h.element
  have hnext : StandsAt { walk with fileList := some b } (kept ++ [(a, metaA)]) ((b, metaB) :: more) :=
    ⟨by rw [List.append_assoc]; exact h.list, rfl⟩
  obtain ⟨-, prev', hcellB⟩ := hnext.element
  have hturn : walk.turn collateKeyForFilename =
      if strcmp (nameKey collateKeyForFilename metaA) (nameKey collateKeyForFilename metaB) = 0 then
        if metaA.mtime < metaB.mtime then
          (LinkedList.removeLink walk.store a a).bind fun (store, list) =>
            (LinkedList.free store a).map fun store => ⟨store, if some a = walk.head then list else walk.head, some b⟩
        else
          (LinkedList.removeLink walk.store a b).bind fun (store, _) =>
            (LinkedList.free store b).map fun store => { walk with store := store }
      else some { walk with fileList := some b } := by
    rw [LatestsWalk.turn, hfile]
    simp only [hcellA, Option.bind_some, firstAddress, List.head?_cons, Option.map_some]
    rw [show walk.store b = _ from hcellB]
    rfl
  have hsame : strcmp (nameKey collateKeyForFilename metaA) (nameKey collateKeyForFilename metaB) = 0 ↔
      elementKey collateKeyForFilename (a, metaA) = elementKey collateKeyForFilename (b, metaB) :=
    strcmp_nameKey_iff (a, metaA) (b, metaB)
  rw [hturn]
  by_cases hkey : elementKey collateKeyForFilename (a, metaA) = elementKey collateKeyForFilename (b, metaB)
  · rw [if_pos (hsame.mpr hkey)]
    by_cases hmtime : metaA.mtime < metaB.mtime
    · -- the element that the walk stands at is taken out
      obtain ⟨taken, store, htaken, hfree, hlist⟩ := h.list.removeLink a
      have hhead : (if some a = walk.head then firstAddress ((b, metaB) :: more) else walk.head) =
          if kept = [] then firstAddress ((b, metaB) :: more) else walk.head := by simp only [h.head]
      refine ⟨⟨store, if kept = [] then firstAddress ((b, metaB) :: more) else walk.head, some b⟩, ?_, ?_⟩
      · rw [if_pos hmtime, htaken, if_pos rfl, Option.bind_some]
        simp only [hfree, Option.map_some, hhead]
      · rw [if_pos hkey, if_pos (show elementMtime (a, metaA) < elementMtime (b, metaB) from UInt64.lt_iff_toNat_lt.mp hmtime)]
        exact ⟨hlist, rfl⟩
    · -- the next element is taken out
      have hlist' : IsList walk.store walk.head ((kept ++ [(a, metaA)]) ++ (b, metaB) :: more) := hnext.list
      obtain ⟨taken, store, htaken, hfree, hlist⟩ := hlist'.removeLink a
      refine ⟨{ walk with store := store }, ?_, ?_⟩
      · rw [if_neg hmtime, htaken, Option.bind_some]
        simp only [hfree, Option.map_some]
      · rw [if_pos hkey, if_neg (show ¬ elementMtime (a, metaA) < elementMtime (b, metaB) from
          fun hlt => hmtime (UInt64.lt_iff_toNat_lt.mpr hlt))]
        rw [if_neg (by simp), List.append_assoc] at hlist
        exact ⟨hlist, hfile⟩
  · rw [if_neg fun heq => hkey (hsame.mp heq)]
    exact ⟨_, rfl, by rw [if_neg hkey]; exact hnext⟩

/-- The loop ends within as many turns as there are elements in the rest, and keeps of them what is to be kept. -/
theorem loop_standsAt (n : Nat) : ∀ {walk : LatestsWalk} {kept rest : List (Nat × MetaData)}, rest.length = n →
    StandsAt walk kept rest → ∃ walk', LatestsWalk.loop collateKeyForFilename n walk = some walk' ∧
      IsList walk'.store walk'.head (kept ++ keptElements collateKeyForFilename rest) := by
  induction n with
  | zero =>
    intro walk kept rest hlen h
    obtain rfl := List.length_eq_zero_iff.mp hlen
    exact ⟨walk, if_pos h.fileList, h.list⟩
  | succ n ih =>
    intro walk kept rest hlen h
    obtain ⟨first, rest, rfl⟩ := List.exists_cons_of_length_eq_add_one hlen
    have hmore : LatestsWalk.loop collateKeyForFilename (n + 1) walk =
        (walk.turn collateKeyForFilename).bind (LatestsWalk.loop collateKeyForFilename n) :=
      if_neg (by rw [h.fileList]; exact Option.some_ne_none _)
    rcases rest with _ | ⟨second, more⟩
    · obtain ⟨walk', hturn, hstands⟩ := @turn_last collateKeyForFilename walk kept first h
      obtain ⟨walk'', hloop, hlist⟩ := ih (Nat.succ.inj hlen) hstands
      rw [hmore, hturn]
      exact ⟨walk'', hloop, by simpa [keptElements, Latest.keep, Latest.keepFrom] using hlist⟩
    · obtain ⟨walk', hturn, hcases⟩ := @turn_cases collateKeyForFilename walk kept more first second h
      have hkeep : keptElements collateKeyForFilename (first :: second :: more) =
          if elementKey collateKeyForFilename first = elementKey collateKeyForFilename second then
            if elementMtime first < elementMtime second then keptElements collateKeyForFilename (second :: more)
            else keptElements collateKeyForFilename (first :: more)
          else first :: keptElements collateKeyForFilename (second :: more) := by
        rw [keptElements, Latest.keep, Latest.keepFrom]
        split_ifs <;> rfl
      rw [hmore, hturn, hkeep, Option.bind_some]
      split_ifs at hcases ⊢
      · exact ih (by simpa using hlen) hcases
      · exact ih (by simpa using hlen) hcases
      · obtain ⟨walk'', hloop, hlist⟩ := ih (by simpa using hlen) hcases
        rw [List.append_assoc] at hlist
        exact ⟨walk'', hloop, hlist⟩

end LatestsAux

/-- The function ends within as many turns as there are elements, and what it returns is the list of those that are kept. -/
theorem keepLatestsInMemory_isList (collateKeyForFilename : CString → CString) {store : Store MetaData} {fileList : Option Nat}
    {elements : List (Nat × MetaData)} (h : IsList store fileList elements) : ∃ store' head,
      keepLatestsInMemory collateKeyForFilename elements.length store fileList = some (store', head) ∧
        IsList store' head (keptElements collateKeyForFilename elements) := by
  obtain ⟨last, hsegment⟩ := h.segment
  obtain ⟨walk, hloop, hlist⟩ := @LatestsAux.loop_standsAt collateKeyForFilename elements.length ⟨store, fileList, fileList⟩ []
    elements rfl ⟨h, hsegment.first_eq⟩
  exact ⟨walk.store, walk.head, by rw [keepLatestsInMemory, hloop]; rfl, hlist⟩

/-- The files of the elements that are kept are the files that are kept of a list. -/
theorem map_keptElements (collateKeyForFilename : CString → CString) (elements : List (Nat × MetaData)) :
    (keptElements collateKeyForFilename elements).map Prod.snd =
      keepLatestsMetaDataInList collateKeyForFilename (elements.map Prod.snd) := by
  have hwalk : ∀ (list : List MetaData) (metaA : MetaData), keepLatestsFrom collateKeyForFilename metaA list =
      Latest.keepFrom (fun m => octets (nameKey collateKeyForFilename m)) (fun m : MetaData => m.mtime.toNat) metaA list := by
    intro list
    induction list with
    | nil => exact fun metaA => rfl
    | cons metaB list ih =>
      intro metaA
      simp only [keepLatestsFrom, Latest.keepFrom, (strcmp_spec _ _).1, octets_inj, UInt64.lt_iff_toNat_lt, ih]
  rcases elements with _ | ⟨first, elements⟩
  · rfl
  · rw [List.map_cons, keepLatestsMetaDataInList, hwalk, Latest.keepFrom_map]
    rfl

end Sauvegarde
