import Mathlib.Algebra.Order.BigOperators.Group.List
import Mathlib.Algebra.Order.Group.Int
import Mathlib.Data.List.Perm.Subperm
import Sauvegarde.Client.Requests

/-!
# The blocks that are picked out of a list

`send_all_data_to_server` and `send_data_to_server` pick the blocks that an answer lists out of the blocks of a file. What they
pick is a selection of the list, in its order; the first of them adds up the lengths of what it picked in a `gint`.
-/

namespace Sauvegarde

/-- The blocks that the loops pick for the hashs of an answer; none when a hash is not found. -/
def pickedBlocks : List HashData → List HashData → Option (List HashData)
  | _, [] => some []
  | hashDataList, hashData :: hashList =>
    (findHashInList hashDataList hashData.hash).bind fun found =>
      (pickedBlocks (removeLink hashDataList hashData.hash) hashList).map fun picked => found :: picked

/-- Every element of a list is a block that is not empty. -/
def AllBlocks (list : List HashData) : Prop := ∀ hd ∈ list, ∃ h bytes, hd.IsBlock h bytes ∧ 0 < bytes.length

/-- The sum of the lengths since the last flush stays below the first number that a `gint` does not hold. -/
def Fits (limit : Int) : Int → List Int → Prop
  | _, [] => True
  | bytes, read :: reads => bytes + read < 2 ^ 31 ∧ Fits limit (if limit ≤ bytes + read then 0 else bytes + read) reads

/-- The sum fits whatever blocks of the list the server asks for. -/
def FitsCounter (limit : Int) (list : List HashData) : Prop :=
  ∀ selection : List HashData, selection.Sublist list → Fits limit 0 (selection.map fun hd => hd.read.toInt)

/-- The list without the blocks that the loops pick. -/
def remainingBlocks (hashDataList hashList : List HashData) : List HashData :=
  hashList.foldl (fun list hashData => removeLink list hashData.hash) hashDataList

/-- The lengths of the blocks of a list, together. -/
def totalRead (list : List HashData) : Int := (list.map fun hd => hd.read.toInt).sum

/-- No block of the list reaches the first number that a `gint` does not hold, with other blocks of the list before it that are
shorter together than the limit. -/
def StaysBelow (limit : Int) (list : List HashData) : Prop :=
  ∀ selection hd, (selection ++ [hd]).Subperm list → totalRead selection < limit → totalRead selection + hd.read.toInt < 2 ^ 31

/-! ## The counter -/

/-- Lengths whose sum fits fit from one flush to the next. -/
theorem fits_of_sum_lt {limit : Int} (hlimit : 0 ≤ limit) {reads : List Int} (hpos : ∀ read ∈ reads, 0 ≤ read) :
    ∀ {bytes : Int}, bytes + reads.sum < 2 ^ 31 → 0 ≤ bytes → Fits limit bytes reads := by
  induction reads with
  | nil => exact fun _ _ => trivial
  | cons read reads ih =>
    intro bytes hsum hbytes
    have hread := hpos read List.mem_cons_self
    have hrest : 0 ≤ reads.sum := List.sum_nonneg fun r hr => hpos r (List.mem_cons_of_mem _ hr)
    rw [List.sum_cons] at hsum
    refine ⟨by omega, ih (fun r hr => hpos r (List.mem_cons_of_mem _ hr)) ?_ ?_⟩
    · split_ifs <;> omega
    · split_ifs <;> omega

/-- When no block reaches too far, the sum fits whatever blocks are asked for, in whatever order. -/
theorem fits_of_staysBelow {limit : Int} (hlimit : 0 < limit) {list : List HashData} (h : StaysBelow limit list)
    (picked : List HashData) : ∀ {pending : List HashData}, (pending ++ picked).Subperm list → totalRead pending < limit →
      Fits limit (totalRead pending) (picked.map fun hd => hd.read.toInt) := by
  induction picked with
  | nil => exact fun _ _ => trivial
  | cons hd picked ih =>
    intro pending hsub hpending
    have hlast : (pending ++ [hd]).Subperm list := by
      refine (List.Sublist.subperm ?_).trans hsub
      exact List.Sublist.append_left (List.singleton_sublist.mpr List.mem_cons_self) pending
    have hsum : totalRead (pending ++ [hd]) = totalRead pending + hd.read.toInt := by simp [totalRead]
    refine ⟨h pending hd hlast hpending, ?_⟩
    split
    · have hrest : ([] ++ picked).Subperm list :=
        ((List.sublist_cons_self hd picked).trans (List.sublist_append_right pending _)).subperm.trans hsub
      exact ih hrest hlimit
    · rename_i hflush
      rw [← hsum]
      refine ih ?_ (hsum.trans_lt (not_le.mp hflush))
      rwa [List.append_assoc, List.singleton_append]

/-- A sum that fits when a last block comes behind blocks that are not flushed. -/
theorem lt_of_fits {limit read : Int} {selection : List Int} :
    ∀ {bytes : Int}, (∀ r ∈ selection, 0 ≤ r) → bytes + selection.sum < limit → Fits limit bytes (selection ++ [read]) →
      bytes + selection.sum + read < 2 ^ 31 := by
  induction selection with
  | nil => exact fun _ _ h => by simpa using h.1
  | cons first selection ih =>
    intro bytes hpos hlimit h
    obtain ⟨_, hpos⟩ := List.forall_mem_cons.mp hpos
    have hrest : 0 ≤ selection.sum := List.sum_nonneg hpos
    rw [List.sum_cons] at hlimit ⊢
    rw [List.cons_append, Fits, if_neg (by omega)] at h
    rw [← add_assoc] at hlimit ⊢
    exact ih hpos hlimit h.2

/-- The sum that the loop computes, as long as it fits. -/
theorem toInt_counter {bytes : Int32} {read : Int64} (hbytes : 0 ≤ bytes.toInt) (hread : 0 ≤ read.toInt)
    (hfits : bytes.toInt + read.toInt < 2 ^ 31) :
    (bytes.toInt64 + read).toInt32.toInt = bytes.toInt + read.toInt := by
  rw [Int64.toInt_toInt32, Int64.toInt_add, Int32.toInt_toInt64, Int.bmod_bmod_of_dvd (by decide),
    Int.bmod_eq_of_le (by omega) (by omega)]

/-! ## The blocks -/

/-- A block is found by its hash. -/
theorem isHash_eq {hd : HashData} {g h : Hash} (hhd : hd.hash = some h.bytes) :
    isHash (some g.bytes) hd = decide (g = h) := by
  rw [isHash, hhd]
  simp only [compareTwoHashs_eq_zero]

/-- The block that is picked for the first hash of an answer, and those for the others. -/
theorem pickedBlocks_cons {list picked : List HashData} {hashData : HashData} {hashList : List HashData}
    (h : pickedBlocks list (hashData :: hashList) = some picked) :
    ∃ found rest, findHashInList list hashData.hash = some found ∧ found ∈ list ∧
      pickedBlocks (removeLink list hashData.hash) hashList = some rest ∧ picked = found :: rest := by
  obtain ⟨found, hfound, hrest⟩ := Option.bind_eq_some_iff.mp h
  obtain ⟨rest, hpicked, rfl⟩ := Option.map_eq_some_iff.mp hrest
  exact ⟨found, rest, hfound, List.mem_of_find?_eq_some hfound, hpicked, rfl⟩

/-- Out of an empty list blocks are picked only when none is asked for. -/
theorem eq_nil_of_pickedBlocks_nil {hashList picked : List HashData} (h : pickedBlocks [] hashList = some picked) : hashList = [] := by
  rcases hashList with _ | ⟨hashData, hashList⟩
  · rfl
  · obtain ⟨found, _, _, hmem, _⟩ := pickedBlocks_cons h
    exact absurd hmem List.not_mem_nil

/-- There is no block in an empty list. -/
theorem allBlocks_nil : AllBlocks [] := fun _ hhd => absurd hhd List.not_mem_nil

/-- Blocks without one of them. -/
theorem AllBlocks.removed {list : List HashData} (h : AllBlocks list) (hash : Option Bytes) : AllBlocks (removeLink list hash) :=
  fun hd hhd => h hd (List.mem_of_mem_eraseP hhd)

/-- Blocks and one more. -/
theorem AllBlocks.concat {list sent : List HashData} (h : AllBlocks list) (hsent : AllBlocks sent) {found : HashData}
    (hfound : found ∈ list) : AllBlocks (sent ++ [found]) := by
  intro hd hhd
  rcases List.mem_append.mp hhd with hhd | hhd
  · exact hsent hd hhd
  · rw [List.mem_singleton.mp hhd]
    exact h found hfound

/-- Blocks have a length. -/
theorem AllBlocks.read_pos {list : List HashData} (h : AllBlocks list) {hd : HashData} (hhd : hd ∈ list) : 0 < hd.read.toInt := by
  obtain ⟨g, bytes, hblock, hlength⟩ := h hd hhd
  rw [hblock.read]
  omega

/-- A block that is found and the list without it are the list. -/
theorem perm_removeLink {list : List HashData} {hash : Option Bytes} {found : HashData}
    (h : findHashInList list hash = some found) : (found :: removeLink list hash).Perm list := by
  obtain ⟨hmatch, before, behind, rfl, hbefore⟩ := List.find?_eq_some_iff_append.mp h
  have hskip : ∀ hd ∈ before, ¬ isHash hash hd = true := fun hd hhd => by simpa using hbefore hd hhd
  rw [removeLink, List.eraseP_append_right _ hskip, List.eraseP_cons_of_pos hmatch]
  exact List.perm_middle.symm

/-- What is picked and what remains are the list. -/
theorem perm_pickedBlocks {hashList : List HashData} : ∀ {list picked : List HashData},
    pickedBlocks list hashList = some picked → (picked ++ remainingBlocks list hashList).Perm list := by
  induction hashList with
  | nil =>
    intro list picked h
    rw [pickedBlocks, Option.some.injEq] at h
    rw [← h]
    exact List.Perm.refl _
  | cons hashData hashList ih =>
    intro list picked h
    obtain ⟨found, picked', hfound, _, hpicked, rfl⟩ := pickedBlocks_cons h
    exact ((ih hpicked).cons found).trans (perm_removeLink hfound)

/-- What remains is in the order of the list. -/
theorem sublist_remainingBlocks (hashList : List HashData) : ∀ list, (remainingBlocks list hashList).Sublist list := by
  induction hashList with
  | nil => exact fun list => List.Sublist.refl list
  | cons hashData hashList ih => exact fun list => (ih _).trans List.eraseP_sublist

/-- Without a block that is found, the hashs of the list are one less. -/
theorem hashsAre_removeLink (g : Hash) : ∀ {list : List HashData} {hs : List Hash}, HashsAre list hs →
    HashsAre (removeLink list (some g.bytes)) (hs.erase g) := by
  intro list
  induction list with
  | nil =>
    intro hs h
    have hnil : hs = [] := by simpa [HashsAre] using h
    rw [hnil]
    rfl
  | cons hd list ih =>
    intro hs h
    rcases hs with _ | ⟨g', hs⟩
    · simp [HashsAre] at h
    · simp only [HashsAre, List.map_cons, List.cons.injEq] at h
      have hmatch := isHash_eq (g := g) h.1
      by_cases heq : g = g'
      · rw [removeLink, List.eraseP_cons_of_pos (by rw [hmatch, decide_eq_true_eq, heq]), heq, List.erase_cons_head]
        exact h.2
      · rw [removeLink, List.eraseP_cons_of_neg (by rw [hmatch, decide_eq_true_eq]; exact heq),
          List.erase_cons_tail (by simpa using fun hne => heq hne.symm), HashsAre, List.map_cons, List.map_cons, h.1]
        exact congrArg _ (ih h.2)

/-- Hashs of the list, each asked for at most as often as it is there, are all found. -/
theorem pickedBlocks_of_subperm {hashList : List HashData} : ∀ {list : List HashData} {hs gs : List Hash}, HashsAre list hs →
    HashsAre hashList gs → gs.Subperm hs → ∃ picked, pickedBlocks list hashList = some picked ∧ HashsAre picked gs := by
  induction hashList with
  | nil =>
    intro list hs gs _ hlist _
    have hnil : gs = [] := by simpa [HashsAre] using hlist
    exact ⟨[], rfl, by rw [hnil]; rfl⟩
  | cons hashData hashList ih =>
    intro list hs gs h hlist hsub
    rcases gs with _ | ⟨g, gs⟩
    · simp [HashsAre] at hlist
    · simp only [HashsAre, List.map_cons, List.cons.injEq] at hlist
      obtain ⟨hd, hhd, hhash⟩ := h.mem.mpr (hsub.subset List.mem_cons_self)
      have hmatch : isHash (some g.bytes) hd = true := by rw [isHash_eq hhash, decide_eq_true_eq]
      obtain ⟨found, hfound⟩ := Option.isSome_iff_exists.mp (List.find?_isSome.mpr ⟨hd, hhd, hmatch⟩)
      obtain ⟨g', hg'⟩ := h.allHashed found (List.mem_of_find?_eq_some hfound)
      have hsame : g = g' := by simpa [isHash_eq hg'] using List.find?_some hfound
      have hsub' : gs.Subperm (hs.erase g) := by simpa using hsub.erase g
      obtain ⟨picked, hpicked, hhashs⟩ := ih (hashsAre_removeLink g h) hlist.2 hsub'
      refine ⟨found :: picked, ?_, ?_⟩
      · rw [pickedBlocks, hlist.1, findHashInList, hfound, Option.bind_some, hpicked, Option.map_some]
      · rw [HashsAre, List.map_cons, List.map_cons, hg', ← hsame]
        exact congrArg _ hhashs

/-- What is picked are elements of the list. -/
theorem pickedBlocks_subset {hashList : List HashData} :
    ∀ {list picked : List HashData}, pickedBlocks list hashList = some picked → ∀ hd ∈ picked, hd ∈ list := by
  induction hashList with
  | nil =>
    intro list picked h hd hhd
    rw [pickedBlocks, Option.some.injEq] at h
    exact absurd (h ▸ hhd) List.not_mem_nil
  | cons hashData hashList ih =>
    intro list picked h hd hhd
    obtain ⟨found, picked', _, hmem, hpicked, rfl⟩ := pickedBlocks_cons h
    rcases List.mem_cons.mp hhd with rfl | hhd
    · exact hmem
    · exact List.mem_of_mem_eraseP (ih hpicked hd hhd)

/-- What is picked has the hashs that were asked for. -/
theorem pickedBlocks_hashs {hashList : List HashData} :
    ∀ {list picked : List HashData}, AllBlocks list → pickedBlocks list hashList = some picked →
      ∀ h : Hash, (∃ hd ∈ hashList, hd.hash = some h.bytes) → h ∈ heldHashs picked := by
  induction hashList with
  | nil =>
    rintro _ _ _ _ h ⟨hd, hhd, _⟩
    exact absurd hhd List.not_mem_nil
  | cons hashData hashList ih =>
    intro list picked hblocks hpicked h hh
    obtain ⟨found, picked', hfound, hmem, hpicked', rfl⟩ := pickedBlocks_cons hpicked
    obtain ⟨hd, hhd, hhash⟩ := hh
    rcases List.mem_cons.mp hhd with rfl | hhd
    · obtain ⟨g, bytes, hblock, _⟩ := hblocks found hmem
      have hsome := List.find?_some hfound
      rw [hhash, isHash_eq hblock.hash, decide_eq_true_eq] at hsome
      exact ⟨found, List.mem_cons_self, by rw [hblock.hash, hsome], by simp [hblock.data]⟩
    · obtain ⟨found', hfound', hheld⟩ :=
        ih (hblocks.removed _) hpicked' h ⟨hd, hhd, hhash⟩
      exact ⟨found', List.mem_cons_of_mem _ hfound', hheld⟩

/-- The first block of the list is picked when it is asked for. -/
theorem pickedBlocks_cons_self {hd e : HashData} (h : isHash e.hash hd = true) (list hashList : List HashData) :
    pickedBlocks (hd :: list) (e :: hashList) = (pickedBlocks list hashList).map fun picked => hd :: picked := by
  have hfind : findHashInList (hd :: list) e.hash = some hd := List.find?_cons_of_pos h
  have hremove : removeLink (hd :: list) e.hash = list := List.eraseP_cons_of_pos h
  rw [pickedBlocks, hfind, hremove, Option.bind_some]

/-- A block that is not asked for is passed over. -/
theorem pickedBlocks_cons_other {hd : HashData} {hashList : List HashData} :
    ∀ {list : List HashData}, (∀ e ∈ hashList, isHash e.hash hd = false) →
      pickedBlocks (hd :: list) hashList = pickedBlocks list hashList := by
  induction hashList with
  | nil => exact fun _ => rfl
  | cons e hashList ih =>
    intro list hne
    have hskip : ¬ isHash e.hash hd = true := by simp [hne e List.mem_cons_self]
    have hfind : findHashInList (hd :: list) e.hash = findHashInList list e.hash := List.find?_cons_of_neg hskip
    have hremove : removeLink (hd :: list) e.hash = hd :: removeLink list e.hash := List.eraseP_cons_of_neg hskip
    rw [pickedBlocks, pickedBlocks, hfind, hremove, ih fun e' he' => hne e' (List.mem_cons_of_mem _ he')]

/-- Every block of the list is picked when every hash of it is asked for. -/
theorem pickedBlocks_all {list : List HashData} :
    ∀ {hashList : List HashData} {hs : List Hash}, HashsAre list hs → HashsAre hashList hs →
      pickedBlocks list hashList = some list := by
  induction list with
  | nil =>
    intro hashList hs h hlist
    have hnil : hs = [] := by simpa [HashsAre] using h
    have hnil : hashList = [] := by simpa [HashsAre, hnil] using hlist
    rw [hnil, pickedBlocks]
  | cons hd list ih =>
    intro hashList hs h hlist
    rcases hs with _ | ⟨g, hs⟩
    · simp [HashsAre] at h
    · rcases hashList with _ | ⟨e, hashList⟩
      · simp [HashsAre] at hlist
      · simp only [HashsAre, List.map_cons, List.cons.injEq] at h hlist
        have hmatch : isHash e.hash hd = true := by rw [hlist.1, isHash_eq h.1, decide_eq_true_eq]
        rw [pickedBlocks_cons_self hmatch, ih h.2 hlist.2, Option.map_some]

/-- The hashs that are needed are found, and what is picked is a selection of the list, in its order. -/
theorem pickedBlocks_needed (present : Hash → Bool) {list : List HashData} :
    ∀ {hashList : List HashData} {hs seen : List Hash}, HashsAre list hs →
      HashsAre hashList (neededHashs present seen hs) →
      ∃ picked, pickedBlocks list hashList = some picked ∧ picked.Sublist list := by
  induction list with
  | nil =>
    intro hashList hs seen h hneeded
    have hnil : hs = [] := by simpa [HashsAre] using h
    have hnil : hashList = [] := by simpa [HashsAre, hnil, neededHashs] using hneeded
    exact ⟨[], by rw [hnil, pickedBlocks], List.Sublist.refl _⟩
  | cons hd list ih =>
    intro hashList hs seen h hneeded
    rcases hs with _ | ⟨g, hs⟩
    · simp [HashsAre] at h
    · simp only [HashsAre, List.map_cons, List.cons.injEq] at h
      unfold neededHashs at hneeded
      split at hneeded
      · -- the first of the list is needed, and found first
        rcases hashList with _ | ⟨e, hashList⟩
        · simp [HashsAre] at hneeded
        · simp only [HashsAre, List.map_cons, List.cons.injEq] at hneeded
          obtain ⟨picked, hpicked, hsub⟩ := ih h.2 hneeded.2
          have hmatch : isHash e.hash hd = true := by rw [hneeded.1, isHash_eq h.1, decide_eq_true_eq]
          refine ⟨hd :: picked, ?_, hsub.cons_cons hd⟩
          rw [pickedBlocks_cons_self hmatch, hpicked, Option.map_some]
      · rename_i hcond
        obtain ⟨picked, hpicked, hsub⟩ := ih h.2 hneeded
        refine ⟨picked, ?_, hsub.cons hd⟩
        rw [pickedBlocks_cons_other fun e he => ?_]
        · exact hpicked
        · have hmem : e.hash ∈ (neededHashs present seen hs).map fun h => some h.bytes :=
            (show hashList.map HashData.hash = _ from hneeded) ▸ List.mem_map_of_mem he
          obtain ⟨g', hg', heq⟩ := List.mem_map.mp hmem
          rw [← heq, isHash_eq h.1, decide_eq_false_iff_not]
          rintro rfl
          exact hcond ⟨(of_mem_neededHashs hg').2.2, (of_mem_neededHashs hg').2.1⟩

/-! ## The functions that pick -/

/-- `send_all_data_to_server` is its loop when every hash that is asked for is found. -/
theorem sendAllDataToServer_eq (main : MainStruct) {list picked : List HashData} {answer : Json}
    (hpicked : pickedBlocks list (listedHashs answer) = some picked) :
    sendAllDataToServer main list (some answer) = sendAllLoop main.buffersize.toInt64 list [] 0 (listedHashs answer) := by
  unfold sendAllDataToServer
  simp only [Option.bind_some, Json.loads]
  split
  · rfl
  · rename_i hempty
    rw [not_not] at hempty
    subst hempty
    rw [eq_nil_of_pickedBlocks_nil hpicked]
    rfl

/-- So is `send_data_to_server`. -/
theorem sendDataToServer_eq {list picked : List HashData} {answer : Json}
    (hpicked : pickedBlocks list (listedHashs answer) = some picked) :
    sendDataToServer list (some answer) = sendLoop list (listedHashs answer) := by
  unfold sendDataToServer
  simp only [Option.bind_some, Json.loads]
  split
  · rfl
  · rename_i hempty
    rw [not_not] at hempty
    subst hempty
    rw [eq_nil_of_pickedBlocks_nil hpicked]
    rfl

end Sauvegarde
