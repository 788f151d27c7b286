import Mathlib.Data.Prod.Lex
import Sauvegarde.Lib.StableSort
import Sauvegarde.Extern.Sorting
import Sauvegarde.Libcdpfgl.Files

/-!
# Lists of files

The comparisons of files.c that lists of files are sorted by, and what it keeps of the versions of a file. The key of a name in
the order of the locale, `g_utf8_collate_key_for_filename`, is a parameter.
-/

namespace Sauvegarde

section

variable (collateKeyForFilename : CString → CString)

/-- The key of the name of a file: the lists have no file without a name. -/
def nameKey (metaData : MetaData) : Bytes := ((metaData.name.map collateKeyForFilename).getD (CString.lit "")).bytes

/-- `compare_meta_data_t`, of two files that are not `NULL`. -/
def compareMetaData (metaA metaB : MetaData) : Int :=
  let value := strcmp (nameKey collateKeyForFilename metaA) (nameKey collateKeyForFilename metaB)
  if value = 0 then if metaA.mtime < metaB.mtime then -1 else if metaA.mtime > metaB.mtime then 1 else 0 else value

/-- `compare_filenames`, of two files that are not `NULL`. -/
def compareFilenames (sa sb : ServerMetaData) : Int :=
  match sa.metaData, sb.metaData with
  | some metaA, some metaB => compareMetaData collateKeyForFilename metaA metaB
  | none, none => 0
  | none, some _ => 1
  | some _, none => -1

/-- The loop of `keep_latests_meta_data_t_in_list`, at one element of the list with the ones behind it. -/
def keepLatestsFrom (metaA : MetaData) : List MetaData → List MetaData
  | [] => [metaA]
  | metaB :: list =>
    if strcmp (nameKey collateKeyForFilename metaA) (nameKey collateKeyForFilename metaB) = 0 then
      if metaA.mtime < metaB.mtime then keepLatestsFrom metaB list else keepLatestsFrom metaA list
    else metaA :: keepLatestsFrom metaB list

/-- `keep_latests_meta_data_t_in_list`. -/
def keepLatestsMetaDataInList : List MetaData → List MetaData
  | [] => []
  | metaA :: list => keepLatestsFrom collateKeyForFilename metaA list

/-! ## The order -/

/-- What files are ordered by: the key of the name, then the time of modification. -/
def sortKey (metaData : MetaData) : Lex (List ℕ × ℕ) :=
  toLex (octets (nameKey collateKeyForFilename metaData), metaData.mtime.toNat)

/-- A file that does not stand behind another. -/
def NotBehind (metaA metaB : MetaData) : Prop := sortKey collateKeyForFilename metaA ≤ sortKey collateKeyForFilename metaB

instance : Std.Total (NotBehind collateKeyForFilename) := ⟨fun _ _ => le_total _ _⟩

instance : IsTrans MetaData (NotBehind collateKeyForFilename) := ⟨fun _ _ _ => le_trans⟩

variable {collateKeyForFilename}

theorem notBehind_iff {metaA metaB : MetaData} : NotBehind collateKeyForFilename metaA metaB ↔
    octets (nameKey collateKeyForFilename metaA) < octets (nameKey collateKeyForFilename metaB) ∨
      octets (nameKey collateKeyForFilename metaA) = octets (nameKey collateKeyForFilename metaB) ∧
        metaA.mtime.toNat ≤ metaB.mtime.toNat := Prod.Lex.toLex_le_toLex

/-- A file that does not stand behind another has no greater name. -/
theorem octets_le_of_notBehind {metaA metaB : MetaData} (h : NotBehind collateKeyForFilename metaA metaB) :
    octets (nameKey collateKeyForFilename metaA) ≤ octets (nameKey collateKeyForFilename metaB) := by
  rcases notBehind_iff.mp h with hlt | ⟨heq, -⟩
  · exact hlt.le
  · exact heq.le

/-- Of two files with different names the one that does not stand behind has the smaller name. -/
theorem octets_lt_of_notBehind {metaA metaB : MetaData} (h : NotBehind collateKeyForFilename metaA metaB)
    (hname : nameKey collateKeyForFilename metaA ≠ nameKey collateKeyForFilename metaB) :
    octets (nameKey collateKeyForFilename metaA) < octets (nameKey collateKeyForFilename metaB) :=
  lt_of_le_of_ne (octets_le_of_notBehind h) fun heq => hname (octets_inj.mp heq)

/-- The comparison decides that order. -/
theorem compareMetaData_le_zero {metaA metaB : MetaData} :
    compareMetaData collateKeyForFilename metaA metaB ≤ 0 ↔ NotBehind collateKeyForFilename metaA metaB := by
  obtain ⟨hzero, hneg⟩ := strcmp_spec (nameKey collateKeyForFilename metaA) (nameKey collateKeyForFilename metaB)
  rw [notBehind_iff, octets_inj]
  unfold compareMetaData
  simp only
  by_cases hsame : nameKey collateKeyForFilename metaA = nameKey collateKeyForFilename metaB
  · rw [if_pos (hzero.mpr hsame), hsame, eq_self, true_and, or_iff_right (lt_irrefl _)]
    split_ifs with hlt hgt
    · exact iff_of_true (by decide) (UInt64.lt_iff_toNat_lt.mp hlt).le
    · exact iff_of_false (by decide) (Nat.not_le.mpr (UInt64.lt_iff_toNat_lt.mp hgt))
    · exact iff_of_true (le_refl 0) (UInt64.not_lt.mp hgt)
  · have hne : strcmp (nameKey collateKeyForFilename metaA) (nameKey collateKeyForFilename metaB) ≠ 0 :=
      fun heq => hsame (hzero.mp heq)
    rw [if_neg hne, ← hneg]
    constructor
    · exact fun hle => Or.inl (lt_of_le_of_ne hle hne)
    · rintro (hlt | ⟨heq, -⟩)
      · exact hlt.le
      · exact absurd heq hsame

instance : DecidableRel (NotBehind collateKeyForFilename) := fun _ _ => decidable_of_iff _ compareMetaData_le_zero

/-- Comparing elements of a list of the server is total. -/
theorem compareFilenames_total (sa sb : ServerMetaData) :
    compareFilenames collateKeyForFilename sa sb ≤ 0 ∨ compareFilenames collateKeyForFilename sb sa ≤ 0 := by
  unfold compareFilenames
  rcases sa.metaData with _ | metaA <;> rcases sb.metaData with _ | metaB
  · exact Or.inl (le_refl 0)
  · exact Or.inr (Int.negSucc_lt_zero 0).le
  · exact Or.inl (Int.negSucc_lt_zero 0).le
  · simp only [compareMetaData_le_zero]
    exact Std.Total.total metaA metaB

/-- Comparing elements of a list of the server is transitive. -/
theorem compareFilenames_trans {sa sb sc : ServerMetaData} (hab : compareFilenames collateKeyForFilename sa sb ≤ 0)
    (hbc : compareFilenames collateKeyForFilename sb sc ≤ 0) : compareFilenames collateKeyForFilename sa sc ≤ 0 := by
  obtain ⟨_, _, _ | metaA⟩ := sa <;> obtain ⟨_, _, _ | metaB⟩ := sb <;> obtain ⟨_, _, _ | metaC⟩ := sc <;>
    simp only [compareFilenames, compareMetaData_le_zero] at hab hbc ⊢ <;> try omega
  exact hab.trans hbc

/-- Sorting a list of files puts them in that order. -/
theorem gListSort_compareMetaData (list : List MetaData) :
    gListSort (compareMetaData collateKeyForFilename) list = list.insertionSort (NotBehind collateKeyForFilename) := by
  have hmap := List.map_insertionSort (fun a b => compareMetaData collateKeyForFilename a b ≤ 0)
    (NotBehind collateKeyForFilename) id list fun _ _ _ _ => compareMetaData_le_zero
  rwa [List.map_id, List.map_id] at hmap

/-! ## The latest versions -/

/-- The next element of the list is a newer version of a file, or a version that is not newer, or another file. -/
theorem keepLatestsFrom_cases (collateKeyForFilename : CString → CString) (metaA metaB : MetaData) (list : List MetaData) :
    (nameKey collateKeyForFilename metaA = nameKey collateKeyForFilename metaB ∧ metaA.mtime < metaB.mtime ∧
        keepLatestsFrom collateKeyForFilename metaA (metaB :: list) = keepLatestsFrom collateKeyForFilename metaB list) ∨
      (nameKey collateKeyForFilename metaA = nameKey collateKeyForFilename metaB ∧ metaB.mtime ≤ metaA.mtime ∧
        keepLatestsFrom collateKeyForFilename metaA (metaB :: list) = keepLatestsFrom collateKeyForFilename metaA list) ∨
      (nameKey collateKeyForFilename metaA ≠ nameKey collateKeyForFilename metaB ∧
        keepLatestsFrom collateKeyForFilename metaA (metaB :: list) =
          metaA :: keepLatestsFrom collateKeyForFilename metaB list) := by
  have hname := (strcmp_spec (nameKey collateKeyForFilename metaA) (nameKey collateKeyForFilename metaB)).1
  rw [keepLatestsFrom]
  split_ifs with hsame hold
  · exact Or.inl ⟨hname.mp hsame, hold, rfl⟩
  · exact Or.inr (Or.inl ⟨hname.mp hsame, UInt64.not_lt.mp hold, rfl⟩)
  · exact Or.inr (Or.inr ⟨fun heq => hsame (hname.mpr heq), rfl⟩)

/-- What is kept of a list was in it. -/
theorem mem_of_mem_keepLatestsFrom {metaA m : MetaData} {list : List MetaData}
    (h : m ∈ keepLatestsFrom collateKeyForFilename metaA list) : m ∈ metaA :: list := by
  induction list generalizing metaA with
  | nil => exact h
  | cons metaB list ih =>
    obtain ⟨-, -, heq⟩ | ⟨-, -, heq⟩ | ⟨-, heq⟩ := keepLatestsFrom_cases collateKeyForFilename metaA metaB list
    · rw [heq] at h
      exact List.mem_cons_of_mem _ (ih h)
    · rw [heq] at h
      rcases List.mem_cons.mp (ih h) with rfl | hmem
      · exact List.mem_cons_self
      · exact List.mem_cons_of_mem _ (List.mem_cons_of_mem _ hmem)
    · rw [heq] at h
      rcases List.mem_cons.mp h with rfl | hmem
      · exact List.mem_cons_self
      · exact List.mem_cons_of_mem _ (ih hmem)

/-- Without its second element a sorted list is sorted. -/
theorem pairwise_skip {metaA metaB : MetaData} {list : List MetaData}
    (hsorted : (metaA :: metaB :: list).Pairwise (NotBehind collateKeyForFilename)) :
    (metaA :: list).Pairwise (NotBehind collateKeyForFilename) :=
  hsorted.sublist ((List.sublist_cons_self metaB list).cons_cons metaA)

open StableSort (greatest greatest_cons_of_pos greatest_cons_of_neg)

/-- Of the greatest files of a sorted list the first is kept, and no other. -/
theorem greatest_keepLatestsFrom {x metaA : MetaData} {list : List MetaData}
    (hsorted : (metaA :: list).Pairwise (NotBehind collateKeyForFilename))
    (hx : ∀ m ∈ metaA :: list, NotBehind collateKeyForFilename m x) :
    greatest (NotBehind collateKeyForFilename) x (keepLatestsFrom collateKeyForFilename metaA list) =
      (greatest (NotBehind collateKeyForFilename) x (metaA :: list)).take 1 := by
  induction list generalizing metaA with
  | nil =>
    exact (List.take_of_length_le (List.length_filter_le _ _)).symm
  | cons metaB list ih =>
    obtain ⟨hafter, hrest⟩ := List.pairwise_cons.mp hsorted
    have hBx := hx metaB (List.mem_cons_of_mem _ List.mem_cons_self)
    have hrestx : ∀ m ∈ metaB :: list, NotBehind collateKeyForFilename m x := fun m hm => hx m (List.mem_cons_of_mem _ hm)
    obtain ⟨hname, hold, heq⟩ | ⟨hname, hold, heq⟩ | ⟨hname, heq⟩ :=
      keepLatestsFrom_cases collateKeyForFilename metaA metaB list
    · -- an older version is none of the greatest
      have hA : ¬NotBehind collateKeyForFilename x metaA := fun hxA => by
        have hBA := notBehind_iff.mp (hBx.trans hxA)
        rw [hname] at hBA
        rcases hBA with hlt | ⟨-, hle⟩
        · exact lt_irrefl _ hlt
        · exact absurd (UInt64.lt_iff_toNat_lt.mp hold) (Nat.not_lt.mpr hle)
      rw [heq, ih hrest hrestx, greatest_cons_of_neg _ hA]
    · -- the next version is not newer, so this one is one of the greatest when it is
      rw [heq, ih (pairwise_skip hsorted) fun m hm => hx m (List.cons_subset_cons _ (List.subset_cons_self _ _) hm)]
      by_cases hA : NotBehind collateKeyForFilename x metaA
      · rw [greatest_cons_of_pos _ hA, greatest_cons_of_pos _ hA]
        rfl
      · have hB : ¬NotBehind collateKeyForFilename x metaB := fun hxB =>
          hA (hxB.trans (notBehind_iff.mpr (Or.inr ⟨by rw [hname], UInt64.le_iff_toNat_le.mp hold⟩)))
        rw [greatest_cons_of_neg _ hA, greatest_cons_of_neg _ hA, greatest_cons_of_neg _ hB]
    · -- a file with another name stands before the greatest
      have hA : ¬NotBehind collateKeyForFilename x metaA := fun hxA =>
        absurd (octets_le_of_notBehind (hBx.trans hxA))
          (not_le_of_gt (octets_lt_of_notBehind (hafter metaB List.mem_cons_self) hname))
      rw [heq, greatest_cons_of_neg _ hA, greatest_cons_of_neg _ hA, ih hrest hrestx]

/-! ## The newest versions -/

/-- What is kept of a list was in it. -/
theorem mem_of_mem_keepLatests {m : MetaData} {list : List MetaData}
    (h : m ∈ keepLatestsMetaDataInList collateKeyForFilename list) : m ∈ list := by
  rcases list with _ | ⟨metaA, list⟩
  · exact h
  · exact mem_of_mem_keepLatestsFrom h

/-- Of the greatest files of a sorted list the first is kept, and no other. -/
theorem greatest_keepLatests {x : MetaData} {list : List MetaData} (hsorted : list.Pairwise (NotBehind collateKeyForFilename))
    (hx : ∀ m ∈ list, NotBehind collateKeyForFilename m x) :
    greatest (NotBehind collateKeyForFilename) x (keepLatestsMetaDataInList collateKeyForFilename list) =
      (greatest (NotBehind collateKeyForFilename) x list).take 1 := by
  rcases list with _ | ⟨metaA, list⟩
  · rfl
  · exact greatest_keepLatestsFrom hsorted hx

/-- Of versions of one file none is newer than one that is kept. -/
theorem mtime_le_of_mem_keepLatestsFrom {metaA m : MetaData} {list : List MetaData}
    (hname : ∀ metaB ∈ list, nameKey collateKeyForFilename metaB = nameKey collateKeyForFilename metaA)
    (h : m ∈ keepLatestsFrom collateKeyForFilename metaA list) : ∀ y ∈ metaA :: list, y.mtime ≤ m.mtime := by
  induction list generalizing metaA with
  | nil =>
    intro y hy
    rw [List.mem_singleton.mp hy, List.mem_singleton.mp h]
    exact UInt64.le_refl _
  | cons metaB list ih =>
    have hAB := hname metaB List.mem_cons_self
    have hrest : ∀ y ∈ list, nameKey collateKeyForFilename y = nameKey collateKeyForFilename metaA :=
      fun y hy => hname y (List.mem_cons_of_mem _ hy)
    intro y hy
    obtain ⟨-, hold, heq⟩ | ⟨-, hold, heq⟩ | ⟨hother, -⟩ :=
      keepLatestsFrom_cases collateKeyForFilename metaA metaB list
    · rw [heq] at h
      have hafter := ih (fun y hy => (hrest y hy).trans hAB.symm) h
      rcases List.mem_cons.mp hy with rfl | hy
      · exact UInt64.le_trans (UInt64.le_of_lt hold) (hafter metaB List.mem_cons_self)
      · exact hafter y hy
    · rw [heq] at h
      have hafter := ih hrest h
      rcases List.mem_cons.mp hy with rfl | hy
      · exact hafter y List.mem_cons_self
      · rcases List.mem_cons.mp hy with rfl | hy
        · exact UInt64.le_trans hold (hafter metaA List.mem_cons_self)
        · exact hafter y (List.mem_cons_of_mem _ hy)
    · exact absurd hAB.symm hother

/-- In a sorted list the versions of one file are looked at apart from the others. -/
theorem filter_keepLatestsFrom (key : Bytes) {metaA : MetaData} {list : List MetaData}
    (hsorted : (metaA :: list).Pairwise (NotBehind collateKeyForFilename)) :
    (keepLatestsFrom collateKeyForFilename metaA list).filter (fun m => nameKey collateKeyForFilename m = key) =
      keepLatestsMetaDataInList collateKeyForFilename
        ((metaA :: list).filter fun m => nameKey collateKeyForFilename m = key) := by
  induction list generalizing metaA with
  | nil =>
    unfold keepLatestsFrom
    by_cases hkey : nameKey collateKeyForFilename metaA = key
    · simp [hkey, keepLatestsMetaDataInList, keepLatestsFrom]
    · simp [hkey, keepLatestsMetaDataInList]
  | cons metaB list ih =>
    obtain ⟨hA, hrest⟩ := List.pairwise_cons.mp hsorted
    obtain ⟨hname, hold, heq⟩ | ⟨hname, hold, heq⟩ | ⟨hname, heq⟩ :=
      keepLatestsFrom_cases collateKeyForFilename metaA metaB list
    · rw [heq, ih hrest]
      by_cases hkey : nameKey collateKeyForFilename metaA = key
      · have hkeyB := hname.symm.trans hkey
        simp [hkey, hkeyB, keepLatestsMetaDataInList, keepLatestsFrom, hold, (strcmp_spec _ _).1.mpr]
      · simp [hkey]
    · rw [heq, ih (pairwise_skip hsorted)]
      by_cases hkey : nameKey collateKeyForFilename metaA = key
      · have hkeyB := hname.symm.trans hkey
        simp [hkey, hkeyB, keepLatestsMetaDataInList, keepLatestsFrom, UInt64.not_lt.mpr hold, (strcmp_spec _ _).1.mpr]
      · have hkeyB : nameKey collateKeyForFilename metaB ≠ key := fun h => hkey (hname.trans h)
        simp [hkey, hkeyB]
    · rw [heq, List.filter_cons, ih hrest]
      by_cases hkey : nameKey collateKeyForFilename metaA = key
      · -- behind another name the name does not come again
        have hlt := octets_lt_of_notBehind (hA metaB List.mem_cons_self) hname
        have hnone : (metaB :: list).filter (fun m => decide (nameKey collateKeyForFilename m = key)) = [] := by
          refine List.filter_eq_nil_iff.mpr fun m hm hmkey => ?_
          have hBm : octets (nameKey collateKeyForFilename metaB) ≤ octets (nameKey collateKeyForFilename m) := by
            rcases List.mem_cons.mp hm with rfl | hm
            · exact le_refl _
            · exact octets_le_of_notBehind ((List.pairwise_cons.mp hrest).1 m hm)
          rw [of_decide_eq_true hmkey, ← hkey] at hBm
          exact not_le_of_gt hlt hBm
        simp [hnone, hkey, keepLatestsMetaDataInList, keepLatestsFrom]
      · simp [hkey]

/-- The newest version of a file in a list, and of several that are as new the last. -/
def IsNewest (collateKeyForFilename : CString → CString) (list : List MetaData) (x : MetaData) : Prop :=
  StableSort.IsLastGreatest (NotBehind collateKeyForFilename)
    (list.filter fun m => nameKey collateKeyForFilename m = nameKey collateKeyForFilename x) x

/-- Each version in a list has a newest one. -/
theorem exists_isNewest {list : List MetaData} {m : MetaData} (hm : m ∈ list) :
    ∃ x, IsNewest collateKeyForFilename list x ∧ nameKey collateKeyForFilename x = nameKey collateKeyForFilename m := by
  have hne : list.filter (fun y => nameKey collateKeyForFilename y = nameKey collateKeyForFilename m) ≠ [] :=
    List.ne_nil_of_mem (List.mem_filter.mpr ⟨hm, decide_eq_true rfl⟩)
  obtain ⟨x, hx⟩ := StableSort.exists_isLastGreatest (NotBehind collateKeyForFilename) hne
  have hkey := of_decide_eq_true (List.mem_filter.mp hx.mem).2
  refine ⟨x, ?_, hkey⟩
  unfold IsNewest
  rwa [hkey]

theorem IsNewest.mem {list : List MetaData} {x : MetaData} (h : IsNewest collateKeyForFilename list x) : x ∈ list :=
  List.mem_of_mem_filter (StableSort.IsLastGreatest.mem h)

/-- There are no two newest versions of a file. -/
theorem IsNewest.unique {list : List MetaData} {x y : MetaData} (hx : IsNewest collateKeyForFilename list x)
    (hy : IsNewest collateKeyForFilename list y) (hkey : nameKey collateKeyForFilename x = nameKey collateKeyForFilename y) : x = y := by
  unfold IsNewest at hx
  rw [hkey] at hx
  exact hx.unique hy

/-- A newest version is still so when others are left out. -/
theorem IsNewest.filter {list : List MetaData} {x : MetaData} (h : IsNewest collateKeyForFilename list x) {p : MetaData → Bool}
    (hp : p x = true) : IsNewest collateKeyForFilename (list.filter p) x := by
  unfold IsNewest at h ⊢
  rw [List.filter_comm]
  exact StableSort.IsLastGreatest.filter h hp

/-- What keeps the name and the time keeps the newest versions. -/
theorem IsNewest.map {f : MetaData → MetaData}
    (hname : ∀ m, nameKey collateKeyForFilename (f m) = nameKey collateKeyForFilename m) (hmtime : ∀ m, (f m).mtime = m.mtime)
    {list : List MetaData} {x : MetaData} (h : IsNewest collateKeyForFilename list x) :
    IsNewest collateKeyForFilename (list.map f) (f x) := by
  have horder : ∀ a b, NotBehind collateKeyForFilename (f a) (f b) ↔ NotBehind collateKeyForFilename a b := fun a b => by
    rw [notBehind_iff, notBehind_iff, hname, hname, hmtime, hmtime]
  unfold IsNewest at h ⊢
  rw [List.filter_map, hname]
  have hkeys : ((fun m => decide (nameKey collateKeyForFilename m = nameKey collateKeyForFilename x)) ∘ f) =
      fun m => decide (nameKey collateKeyForFilename m = nameKey collateKeyForFilename x) := by
    funext m
    rw [Function.comp_apply, hname]
  rw [hkeys]
  exact StableSort.IsLastGreatest.map horder h

/-- Whether a version is kept of a sorted list depends on the versions with its name alone. -/
theorem mem_keepLatests_filter {list : List MetaData} {x : MetaData} (hsorted : list.Pairwise (NotBehind collateKeyForFilename)) :
    x ∈ keepLatestsMetaDataInList collateKeyForFilename list ↔ x ∈ keepLatestsMetaDataInList collateKeyForFilename
      (list.filter fun m => nameKey collateKeyForFilename m = nameKey collateKeyForFilename x) := by
  rcases list with _ | ⟨metaA, list⟩
  · rfl
  · rw [← filter_keepLatestsFrom _ hsorted, List.mem_filter]
    simp [keepLatestsMetaDataInList]

/-- Of the versions with one name, turned over and sorted, the last of the newest is kept. -/
theorem mem_keepLatests_versions {versions : List MetaData} {x : MetaData}
    (hname : ∀ m ∈ versions, nameKey collateKeyForFilename m = nameKey collateKeyForFilename x) :
    x ∈ keepLatestsMetaDataInList collateKeyForFilename (versions.reverse.insertionSort (NotBehind collateKeyForFilename)) ↔
      StableSort.IsLastGreatest (NotBehind collateKeyForFilename) versions x := by
  rw [StableSort.isLastGreatest_iff]
  have hperm := List.perm_insertionSort (NotBehind collateKeyForFilename) versions.reverse
  have hsorted := List.pairwise_insertionSort (NotBehind collateKeyForFilename) versions.reverse
  have hmem : ∀ m, m ∈ versions.reverse.insertionSort (NotBehind collateKeyForFilename) ↔ m ∈ versions := fun m => by
    rw [hperm.mem_iff, List.mem_reverse]
  have hgreatest : (∀ m ∈ versions, NotBehind collateKeyForFilename m x) →
      greatest (NotBehind collateKeyForFilename) x (keepLatestsMetaDataInList collateKeyForFilename
        (versions.reverse.insertionSort (NotBehind collateKeyForFilename))) =
      ((greatest (NotBehind collateKeyForFilename) x versions).reverse).take 1 := fun hmax => by
    rw [greatest_keepLatests hsorted fun m hm => hmax m ((hmem m).mp hm),
      StableSort.greatest_insertionSort fun m hm => hmax m (List.mem_reverse.mp hm), StableSort.greatest_reverse]
  have hself : NotBehind collateKeyForFilename x x := (total_of (NotBehind collateKeyForFilename) x x).elim id id
  rw [List.getLast?_eq_head?_reverse]
  constructor
  · intro hx
    have hmax : ∀ m ∈ versions, NotBehind collateKeyForFilename m x := fun m hm => by
      generalize hlist : versions.reverse.insertionSort (NotBehind collateKeyForFilename) = sorted at hx hmem
      rcases sorted with _ | ⟨metaA, sorted⟩
      · exact absurd hx List.not_mem_nil
      · have hnewest := mtime_le_of_mem_keepLatestsFrom (fun metaB hmetaB => (hname metaB ((hmem metaB).mp
          (List.mem_cons_of_mem _ hmetaB))).trans (hname metaA ((hmem metaA).mp List.mem_cons_self)).symm) hx
        exact notBehind_iff.mpr (Or.inr ⟨by rw [hname m hm], UInt64.le_iff_toNat_le.mp (hnewest m ((hmem m).mpr hm))⟩)
    have hkept := (StableSort.mem_greatest _).mpr ⟨hx, hself⟩
    rw [hgreatest hmax] at hkept
    obtain ⟨first, rest, hfirst⟩ := List.exists_cons_of_ne_nil (List.ne_nil_of_mem (List.mem_of_mem_take hkept))
    rw [hfirst, List.take_succ_cons, List.take_zero, List.mem_singleton] at hkept
    exact ⟨hmax, by rw [hfirst, hkept, List.head?_cons]⟩
  · rintro ⟨hmax, hlast⟩
    obtain ⟨rest, hrest⟩ := List.head?_eq_some_iff.mp hlast
    have hkept : x ∈ greatest (NotBehind collateKeyForFilename) x (keepLatestsMetaDataInList collateKeyForFilename
        (versions.reverse.insertionSort (NotBehind collateKeyForFilename))) := by
      rw [hgreatest hmax, hrest]
      exact List.mem_cons_self
    exact ((StableSort.mem_greatest _).mp hkept).1

/-- What is kept of a list that was turned over and sorted are the newest versions in it. -/
theorem mem_keepLatests_iff {list : List MetaData} {x : MetaData} :
    x ∈ keepLatestsMetaDataInList collateKeyForFilename (gListSort (compareMetaData collateKeyForFilename) list.reverse) ↔
      IsNewest collateKeyForFilename list x := by
  have hname : ∀ m ∈ list.filter (fun m => decide (nameKey collateKeyForFilename m = nameKey collateKeyForFilename x)),
      nameKey collateKeyForFilename m = nameKey collateKeyForFilename x := fun m hm => by simpa using (List.mem_filter.mp hm).2
  rw [gListSort_compareMetaData, mem_keepLatests_filter (List.pairwise_insertionSort _ _), StableSort.filter_insertionSort,
    List.filter_reverse]
  exact mem_keepLatests_versions hname

/-- Of a sorted list one version of each file is kept. -/
theorem pairwise_keepLatestsFrom {metaA : MetaData} {list : List MetaData}
    (hsorted : (metaA :: list).Pairwise (NotBehind collateKeyForFilename)) :
    (keepLatestsFrom collateKeyForFilename metaA list).Pairwise fun a b =>
      octets (nameKey collateKeyForFilename a) < octets (nameKey collateKeyForFilename b) := by
  induction list generalizing metaA with
  | nil => exact List.pairwise_singleton _ _
  | cons metaB list ih =>
    obtain ⟨hA, hrest⟩ := List.pairwise_cons.mp hsorted
    obtain ⟨-, -, heq⟩ | ⟨-, -, heq⟩ | ⟨hname, heq⟩ :=
      keepLatestsFrom_cases collateKeyForFilename metaA metaB list
    · exact heq ▸ ih hrest
    · exact heq ▸ ih (pairwise_skip hsorted)
    · rw [heq]
      refine List.pairwise_cons.mpr ⟨fun m hm => ?_, ih hrest⟩
      have hAB := octets_lt_of_notBehind (hA metaB List.mem_cons_self) hname
      rcases List.mem_cons.mp (mem_of_mem_keepLatestsFrom hm) with rfl | hm
      · exact hAB
      · exact lt_of_lt_of_le hAB (octets_le_of_notBehind ((List.pairwise_cons.mp hrest).1 m hm))

/-- Two sorted lists of which the same versions are kept give the same list. -/
theorem keepLatests_ext {list list' : List MetaData} (hsorted : list.Pairwise (NotBehind collateKeyForFilename))
    (hsorted' : list'.Pairwise (NotBehind collateKeyForFilename))
    (h : ∀ m, m ∈ keepLatestsMetaDataInList collateKeyForFilename list ↔
      m ∈ keepLatestsMetaDataInList collateKeyForFilename list') :
    keepLatestsMetaDataInList collateKeyForFilename list = keepLatestsMetaDataInList collateKeyForFilename list' := by
  have hpairwise : ∀ {list : List MetaData}, list.Pairwise (NotBehind collateKeyForFilename) →
      (keepLatestsMetaDataInList collateKeyForFilename list).Pairwise fun a b =>
        octets (nameKey collateKeyForFilename a) < octets (nameKey collateKeyForFilename b) := by
    intro list hlist
    rcases list with _ | ⟨metaA, list⟩
    · exact List.Pairwise.nil
    · exact pairwise_keepLatestsFrom hlist
  have hnodup : ∀ {list : List MetaData}, list.Pairwise (NotBehind collateKeyForFilename) →
      (keepLatestsMetaDataInList collateKeyForFilename list).Nodup := fun hlist => by
    refine List.Pairwise.imp (fun hlt heq => ?_) (hpairwise hlist)
    rw [heq] at hlt
    exact lt_irrefl _ hlt
  exact ((List.perm_ext_iff_of_nodup (hnodup hsorted) (hnodup hsorted')).mpr h).eq_of_pairwise
    (fun a b _ _ hab hba => absurd hab (lt_asymm hba)) (hpairwise hsorted) (hpairwise hsorted')

/-! ## Files in another form -/

variable {f : MetaData → MetaData} (hname : ∀ m, nameKey collateKeyForFilename (f m) = nameKey collateKeyForFilename m)
  (hmtime : ∀ m, (f m).mtime = m.mtime)

include hname hmtime

/-- What keeps the name and the time keeps the order. -/
theorem map_gListSort (list : List MetaData) : (gListSort (compareMetaData collateKeyForFilename) list).map f =
    gListSort (compareMetaData collateKeyForFilename) (list.map f) := by
  rw [gListSort_compareMetaData, gListSort_compareMetaData]
  refine List.map_insertionSort _ _ f list fun a _ b _ => ?_
  rw [notBehind_iff, notBehind_iff, hname, hname, hmtime, hmtime]

/-- What keeps the name and the time keeps the latest versions. -/
theorem map_keepLatests (list : List MetaData) : (keepLatestsMetaDataInList collateKeyForFilename list).map f =
    keepLatestsMetaDataInList collateKeyForFilename (list.map f) := by
  rcases list with _ | ⟨metaA, list⟩
  · rfl
  · unfold keepLatestsMetaDataInList
    rw [List.map_cons]
    induction list generalizing metaA with
    | nil => rfl
    | cons metaB list ih =>
      simp only [keepLatestsFrom, List.map_cons, hname, hmtime]
      split_ifs
      · exact ih metaB
      · exact ih metaA
      · rw [List.map_cons, ih metaB]

end

end Sauvegarde
