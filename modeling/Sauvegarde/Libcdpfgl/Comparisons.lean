import Mathlib.Data.List.GetD
import Sauvegarde.Lib.Comparison
import Sauvegarde.Libcdpfgl.FileLists

/-!
# Comparing pointers

`compare_two_hashs` with its loop as it is written, and `compare_meta_data_t` and `compare_filenames` on pointers that may be `NULL`,
with the collation key as any function of the name. Each compares by a rank: the bytes of the hash, or the key of the name and the
time of modification, with `NULL` last.
-/

namespace Sauvegarde

open Comparison (nullLast andThen pointerRank IsTotalPreorder Ranks)

/-! ## Hashs -/

/-- The loop of `compare_two_hashs`: `first`, `second` and `i` as it leaves them. -/
def compareTwoHashsLoop (hashA hashB : Bytes) (first second i : Nat) : Nat × Nat × Nat :=
  if first = second ∧ i < HASH_LEN then
    compareTwoHashsLoop hashA hashB (hashA.getD i 0).toNat (hashB.getD i 0).toNat (i + 1)
  else (first, second, i)
termination_by HASH_LEN - i

/-- What `compare_two_hashs` makes of that. -/
def signOfLoop : Nat × Nat × Nat → Int
  | (first, second, i) => if i = HASH_LEN ∧ first = second then 0 else if first < second then -1 else 1

/-- `compare_two_hashs`. -/
def compareHashPointers : Option Bytes → Option Bytes → Int :=
  nullLast fun hashA hashB => signOfLoop (compareTwoHashsLoop hashA hashB 0 0 0)

/-- From bytes that are equal so far the loop finds the order of the others. -/
theorem signOfLoop_eq_strcmp {hashA hashB : Bytes} (ha : hashA.length = HASH_LEN) (hb : hashB.length = HASH_LEN) (n : Nat) :
    ∀ byte i, i + n = HASH_LEN →
      signOfLoop (compareTwoHashsLoop hashA hashB byte byte i) = strcmp (hashA.drop i) (hashB.drop i) := by
  induction n with
  | zero =>
    intro byte i hi
    have hend : ¬i < HASH_LEN := by omega
    rw [compareTwoHashsLoop, if_neg (fun h => hend h.2), List.drop_of_length_le (by omega), List.drop_of_length_le (by omega)]
    rw [signOfLoop, if_pos ⟨hi, rfl⟩, strcmp]
  | succ n ih =>
    intro byte i hi
    have hiA : i < hashA.length := by omega
    have hiB : i < hashB.length := by omega
    rw [compareTwoHashsLoop, if_pos ⟨rfl, by omega⟩, List.getD_eq_getElem _ _ hiA, List.getD_eq_getElem _ _ hiB,
      List.drop_eq_getElem_cons hiA, List.drop_eq_getElem_cons hiB, strcmp]
    split_ifs with hsame hlt
    · rw [hsame]
      exact ih _ (i + 1) (by omega)
    all_goals
      -- bytes that differ end the loop
      have hne : hashA[i].toNat ≠ hashB[i].toNat := fun heq => hsame (UInt8.toNat_inj.mp heq)
      rw [compareTwoHashsLoop, if_neg fun h => hne h.1, signOfLoop, if_neg fun h => hne h.2]
    · rw [if_pos (UInt8.lt_iff_toNat_lt.mp hlt)]
    · rw [if_neg fun h => hlt (UInt8.lt_iff_toNat_lt.mpr h)]

/-- `strcmp` compares by the numbers of the bytes. -/
theorem ranks_strcmp : Ranks strcmp octets where
  zero := by
    intro first second
    rw [octets_inj]
    exact (strcmp_spec first second).1
  neg := by
    intro first second
    exact (strcmp_spec first second).2

/-- The loop over two hashs is `strcmp` on their bytes. -/
theorem compareHashPointers_hashs (g h : Option Hash) :
    compareHashPointers (g.map Hash.bytes) (h.map Hash.bytes) = nullLast (fun g h => strcmp (Hash.bytes g) (Hash.bytes h)) g h := by
  rcases g with _ | g <;> rcases h with _ | h
  · rfl
  · rfl
  · rfl
  · exact signOfLoop_eq_strcmp g.length_eq h.length_eq HASH_LEN 0 0 rfl

/-- Hashs are compared by their bytes, `NULL` last. -/
theorem ranks_compareHashPointers :
    Ranks (fun g h : Option Hash => compareHashPointers (g.map Hash.bytes) (h.map Hash.bytes))
      (pointerRank fun h => octets h.bytes) := by
  simp only [compareHashPointers_hashs]
  exact (ranks_strcmp.comp Hash.bytes).nullLast

/-- The comparison of bytes that lists of hashs are searched with is `strcmp` too. -/
theorem compareBytes_eq_strcmp (n : Nat) : ∀ hashA hashB : Bytes, hashA.length = n → hashB.length = n →
    compareBytes n hashA hashB = strcmp hashA hashB := by
  induction n with
  | zero =>
    intro hashA hashB ha hb
    rw [List.length_eq_zero_iff.mp ha, List.length_eq_zero_iff.mp hb]
    rfl
  | succ n ih =>
    intro hashA hashB ha hb
    obtain ⟨byteA, hashA, rfl⟩ := List.exists_cons_of_length_eq_add_one ha
    obtain ⟨byteB, hashB, rfl⟩ := List.exists_cons_of_length_eq_add_one hb
    have hstep : compareBytes (n + 1) (byteA :: hashA) (byteB :: hashB) =
        if byteA = byteB then compareBytes n hashA hashB else if byteA < byteB then -1 else 1 := rfl
    rw [hstep, ih hashA hashB (by simpa using ha) (by simpa using hb), strcmp]

/-- `compare_two_hashs` with its loop is what lists of hashs are searched with. -/
theorem compareHashPointers_eq (g h : Option Hash) :
    compareHashPointers (g.map Hash.bytes) (h.map Hash.bytes) = compareTwoHashs (g.map Hash.bytes) (h.map Hash.bytes) := by
  rw [compareHashPointers_hashs]
  rcases g with _ | g <;> rcases h with _ | h
  · rfl
  · rfl
  · rfl
  · exact (compareBytes_eq_strcmp HASH_LEN g.bytes h.bytes g.length_eq h.length_eq).symm

/-! ## Files -/

section

variable (collateKeyForFilename : Option CString → CString)

/-- The second criterion of `compare_meta_data_t`. -/
def compareMtimes (metaA metaB : MetaData) : Int :=
  if metaA.mtime < metaB.mtime then -1 else if metaA.mtime > metaB.mtime then 1 else 0

/-- `compare_meta_data_t`. -/
def compareMetaDataPointers : Option MetaData → Option MetaData → Int :=
  nullLast <| andThen
    (fun metaA metaB => strcmp (collateKeyForFilename metaA.name).bytes (collateKeyForFilename metaB.name).bytes) compareMtimes

/-- `compare_filenames`. -/
def compareFilenamePointers : Option ServerMetaData → Option ServerMetaData → Int :=
  nullLast fun sa sb => compareMetaDataPointers collateKeyForFilename sa.metaData sb.metaData

/-- The rank of a file: the key of its name, then its time of modification. -/
def metaDataRank (metaData : MetaData) : Lex (List ℕ × ℕ) :=
  toLex (octets (collateKeyForFilename metaData.name).bytes, metaData.mtime.toNat)

variable {collateKeyForFilename}

/-- The second criterion compares the times. -/
theorem ranks_compareMtimes : Ranks compareMtimes fun metaData => metaData.mtime.toNat where
  zero := by
    intro metaA metaB
    unfold compareMtimes
    split_ifs with hlt hgt
    · exact iff_of_false (by decide) (UInt64.lt_iff_toNat_lt.mp hlt).ne
    · exact iff_of_false (by decide) (UInt64.lt_iff_toNat_lt.mp hgt).ne'
    · exact iff_of_true rfl (le_antisymm (UInt64.not_lt.mp hgt) (UInt64.not_lt.mp hlt))
  neg := by
    intro metaA metaB
    rw [← UInt64.lt_iff_toNat_lt]
    unfold compareMtimes
    split_ifs with hlt hgt
    · exact iff_of_true (by decide) hlt
    · exact iff_of_false (by decide) hlt
    · exact iff_of_false (by decide) hlt

/-- Two files are compared by rank, `NULL` last. -/
theorem ranks_compareMetaDataPointers :
    Ranks (compareMetaDataPointers collateKeyForFilename) (pointerRank (metaDataRank collateKeyForFilename)) :=
  ((ranks_strcmp.comp fun metaData : MetaData => (collateKeyForFilename metaData.name).bytes).andThen ranks_compareMtimes).nullLast

/-- So are two elements of a list of the server, by the rank of their meta data. -/
theorem ranks_compareFilenamePointers : Ranks (compareFilenamePointers collateKeyForFilename)
    (pointerRank fun s => pointerRank (metaDataRank collateKeyForFilename) s.metaData) :=
  (ranks_compareMetaDataPointers.comp ServerMetaData.metaData).nullLast

/-- Two files have one rank when they have the same key and the same time. -/
theorem metaDataRank_eq_iff {metaA metaB : MetaData} :
    metaDataRank collateKeyForFilename metaA = metaDataRank collateKeyForFilename metaB ↔
      collateKeyForFilename metaA.name = collateKeyForFilename metaB.name ∧ metaA.mtime = metaB.mtime := by
  rw [metaDataRank, metaDataRank, EmbeddingLike.apply_eq_iff_eq, Prod.mk.injEq, octets_inj, UInt64.toNat_inj, CString.ext_iff]

/-- The comparisons that lists of files are sorted with are these. -/
theorem compareMetaDataPointers_some (collateKeyForFilename : CString → CString) (metaA metaB : MetaData) :
    compareMetaDataPointers (fun name => (name.map collateKeyForFilename).getD (CString.lit "")) (some metaA) (some metaB) =
      compareMetaData collateKeyForFilename metaA metaB := rfl

theorem compareFilenamePointers_some (collateKeyForFilename : CString → CString) (sa sb : ServerMetaData) :
    compareFilenamePointers (fun name => (name.map collateKeyForFilename).getD (CString.lit "")) (some sa) (some sb) =
      compareFilenames collateKeyForFilename sa sb := by
  obtain ⟨_, _, _ | metaA⟩ := sa <;> obtain ⟨_, _, _ | metaB⟩ := sb <;> rfl

end

/-! ## The orders -/

/-- Where a comparison finds no difference between two pointers: both are `NULL`, or what they point to is the same to it. -/
def BothNullOr {α : Type} (same : α → α → Prop) : Option α → Option α → Prop
  | some a, some b => same a b
  | none, none => True
  | _, _ => False

/-- Pointers have one rank when both are `NULL` or what they point to has. -/
theorem pointerRank_eq_iff {α β : Type} {rank : α → β} {same : α → α → Prop} (h : ∀ a b, rank a = rank b ↔ same a b)
    (p q : Option α) : pointerRank rank p = pointerRank rank q ↔ BothNullOr same p q := by
  rcases p with _ | a <;> rcases q with _ | b
  · simp [pointerRank, BothNullOr]
  · simp [pointerRank, BothNullOr]
  · simp [pointerRank, BothNullOr]
  · simp [pointerRank, BothNullOr, h]

/-- The same key and the same time of modification. -/
def SameKeyAndTime (collateKeyForFilename : Option CString → CString) (metaA metaB : MetaData) : Prop :=
  collateKeyForFilename metaA.name = collateKeyForFilename metaB.name ∧ metaA.mtime = metaB.mtime

/-- The comparison functions are total preorders. Hashs are compared as lists of bytes with `NULL` last, and equal bytes only are
equal; files and elements of a list of the server are equal when they have the same key and time, or are both `NULL`. -/
theorem comparisons_isTotalPreorder :
    IsTotalPreorder (fun g h : Option Hash => compareHashPointers (g.map Hash.bytes) (h.map Hash.bytes)) ∧
      (∀ g h : Option Hash, compareHashPointers (g.map Hash.bytes) (h.map Hash.bytes) = 0 ↔ g = h) ∧
      (∀ g h : Hash, compareHashPointers (some g.bytes) (some h.bytes) < 0 ↔ octets g.bytes < octets h.bytes) ∧
      (∀ g : Hash, compareHashPointers (some g.bytes) none < 0) ∧
      ∀ collateKeyForFilename : Option CString → CString,
        IsTotalPreorder (compareMetaDataPointers collateKeyForFilename) ∧
          (∀ metaA metaB, compareMetaDataPointers collateKeyForFilename metaA metaB = 0 ↔
            BothNullOr (SameKeyAndTime collateKeyForFilename) metaA metaB) ∧
          IsTotalPreorder (compareFilenamePointers collateKeyForFilename) ∧
          ∀ sa sb, compareFilenamePointers collateKeyForFilename sa sb = 0 ↔
            BothNullOr (fun sa sb => BothNullOr (SameKeyAndTime collateKeyForFilename) sa.metaData sb.metaData) sa sb := by
  refine ⟨ranks_compareHashPointers.isTotalPreorder, ?_, ?_, ?_, ?_⟩
  · intro g h
    rw [ranks_compareHashPointers.zero, pointerRank_eq_iff fun g h : Hash => octets_inj.trans Hash.ext_iff.symm]
    rcases g with _ | g <;> rcases h with _ | h <;> simp [BothNullOr]
  · intro g h
    exact (ranks_compareHashPointers.neg (some g) (some h)).trans WithTop.coe_lt_coe
  · intro g
    exact (ranks_compareHashPointers.neg (some g) none).mpr (WithTop.coe_lt_top _)
  · intro collateKeyForFilename
    have hmeta : ∀ metaA metaB : Option MetaData, pointerRank (metaDataRank collateKeyForFilename) metaA =
        pointerRank (metaDataRank collateKeyForFilename) metaB ↔ BothNullOr (SameKeyAndTime collateKeyForFilename) metaA metaB :=
      pointerRank_eq_iff fun _ _ => metaDataRank_eq_iff
    refine ⟨ranks_compareMetaDataPointers.isTotalPreorder, ?_, ranks_compareFilenamePointers.isTotalPreorder, ?_⟩
    · intro metaA metaB
      rw [ranks_compareMetaDataPointers.zero]
      exact hmeta metaA metaB
    · intro sa sb
      rw [ranks_compareFilenamePointers.zero]
      exact pointerRank_eq_iff (fun sa sb => hmeta sa.metaData sb.metaData) sa sb

end Sauvegarde
