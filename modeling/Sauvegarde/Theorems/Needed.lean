import Sauvegarde.Theorems.BlockStore
import Sauvegarde.Theorems.MinioFallback

/-!
# Blocks that are needed

What the server asks a client for: the list of the file backend, the list of the MinIO backend, and whether a block whose storing
failed is asked for again.
-/

namespace Sauvegarde

/-- The list asks for the hashs of `hs` that are not present: for each once, and in the order in which they first occur. -/
def AsksFor (present : Hash → Bool) (hs : List Hash) (needed : List HashData) : Prop :=
  ∃ gs, HashsAre needed gs ∧ (∀ g, g ∈ gs ↔ g ∈ hs ∧ present g = false) ∧ gs.Nodup ∧
    gs.Pairwise fun a b => hs.idxOf a < hs.idxOf b

/-- Whether `file_retrieve_data` gives the block of a hash. -/
def isRetrieved (backend : FileBackend) (files : Files) (h : Hash) : Bool :=
  (fileRetrieveData backend files (hexText h.bytes)).isSome

/-- Whether the block of a hash can be found in the bucket of the data: the bucket is accessible and has the key. -/
def isInBucket (s3 : Libs3) (backend : MinioBackend) (objects : Objects) (h : Hash) : Bool :=
  checkBucketAccess s3 backend.bucketnameData false &&
    checkKeyExistInBucket objects backend.bucketnameData (hashToString (some h.bytes))

namespace NeededAux

/-- A list with the hashs that are needed asks for what is not present. -/
theorem asksFor_of_neededHashs {present : Hash → Bool} {hs : List Hash} {needed : List HashData}
    (h : HashsAre needed (neededHashs present [] hs)) : AsksFor present hs needed := by
  refine ⟨_, h, fun g => ?_, ?_, pairwise_neededHashs present []⟩
  · rw [mem_neededHashs]
    simp
  · exact (pairwise_neededHashs present []).imp fun hlt heq => by rw [heq] at hlt; exact Nat.lt_irrefl _ hlt

/-- A block is retrieved when its file exists. -/
theorem isRetrieved_eq_hasBlock (backend : FileBackend) (files : Files) (h : Hash) :
    isRetrieved backend files h = hasBlock backend files h := by
  rw [isRetrieved, BlockStoreAux.fileRetrieveData_eq, Option.isSome_map, hasBlock_eq]

end NeededAux

open NeededAux

/-! ## Files -/

/-- `file_build_needed_hash_list` asks for the blocks that are not stored. -/
theorem fileBuildNeededHashList_asksFor (backend : FileBackend) (files : Files) {list : List HashData} {hs : List Hash}
    (h : HashsAre list hs) : AsksFor (isRetrieved backend files) hs (fileBuildNeededHashList backend files list) := by
  have hpresent : isRetrieved backend files = hasBlock backend files := funext (isRetrieved_eq_hasBlock backend files)
  rw [hpresent]
  exact asksFor_of_neededHashs (fileBuildNeededHashList_eq backend files h)

/-- Of two blocks with the same hash one is asked for. -/
theorem sevens_asksFor : HashsAre [plainBlock, zlibBlock] [sevens, sevens] ∧
    AsksFor (isRetrieved deepBackend fun _ => none) [sevens, sevens]
      (fileBuildNeededHashList deepBackend (fun _ => none) [plainBlock, zlibBlock]) :=
  ⟨rfl, fileBuildNeededHashList_asksFor deepBackend (fun _ => none) rfl⟩

/-! ## Objects -/

/-- `minio_build_needed_hash_list` asks for the blocks that cannot be found exactly when it can consult the bucket, or is asked for
nothing. -/
theorem minioBuildNeededHashList_asksFor_iff (s3 : Libs3) (backend : MinioBackend) (objects : Objects) {list : List HashData}
    {hs : List Hash} (h : HashsAre list hs) :
    AsksFor (isInBucket s3 backend objects) hs (minioBuildNeededHashList s3 backend objects list) ↔
      checkBucketAccess s3 backend.bucketnameData false = true ∨ hs = [] := by
  unfold minioBuildNeededHashList isInBucket
  by_cases haccess : checkBucketAccess s3 backend.bucketnameData false = true
  · rw [if_pos haccess, haccess, prependMissing_eq_prependAbsent]
    simp only [Bool.true_and, true_or, iff_true]
    exact asksFor_of_neededHashs (reverse_prependAbsent_eq _ h)
  · have hclosed : checkBucketAccess s3 backend.bucketnameData false = false := by simpa using haccess
    rw [if_neg haccess, hclosed]
    simp only [Bool.false_and, Bool.false_eq_true, false_or]
    constructor
    · rintro ⟨gs, hgs, hmem, -⟩
      have hnil : gs = [] := by simpa [HashsAre] using hgs.symm
      rcases hs with _ | ⟨g, hs⟩
      · rfl
      · have hasked := (hmem g).mpr ⟨List.mem_cons_self, rfl⟩
        rw [hnil] at hasked
        exact absurd hasked List.not_mem_nil
    · rintro rfl
      exact ⟨[], rfl, by simp, List.nodup_nil, List.Pairwise.nil⟩

/-- A bucket that is there is consulted. -/
theorem wholeLibs3_asksFor :
    AsksFor (isInBucket wholeLibs3 twoBuckets fun _ _ => none) [sevens]
        (minioBuildNeededHashList wholeLibs3 twoBuckets (fun _ _ => none) [plainBlock]) :=
  (minioBuildNeededHashList_asksFor_iff wholeLibs3 twoBuckets (fun _ _ => none) (show HashsAre [plainBlock] [sevens] from rfl)).mpr
    (Or.inl rfl)

/-- Without the bucket of the data nothing is asked for, although no block can be found. -/
theorem lostBucket_asksForNothing :
    ¬ AsksFor (isInBucket (lostBucket (CString.lit "testbucket")) twoBuckets fun _ _ => none) [sevens]
      (minioBuildNeededHashList (lostBucket (CString.lit "testbucket")) twoBuckets (fun _ _ => none) [plainBlock]) := by
  have hclosed : checkBucketAccess (lostBucket (CString.lit "testbucket")) twoBuckets.bucketnameData false = false := by decide
  rintro ⟨gs, hgs, hmem, -⟩
  rw [minioBuildNeededHashList, hclosed] at hgs
  have hnil : gs = [] := by simpa [HashsAre] using hgs.symm
  have hasked := (hmem sevens).mpr ⟨List.mem_cons_self, by rw [isInBucket, hclosed]; rfl⟩
  rw [hnil] at hasked
  exact absurd hasked List.not_mem_nil

/-! ## A block whose storing may fail -/

/-- A block is stored whole or not at all: it is asked for again if it was not stored before, or its bytes are retrieved. -/
def WholeOrNeeded (backend : FileBackend) (before after : Files) (h : Hash) (data : Bytes) : Prop :=
  (isRetrieved backend before h = false ∧ ∀ list hs, HashsAre list hs → h ∈ hs →
      ∃ hd ∈ fileBuildNeededHashList backend after list, hd.hash = some h.bytes) ∨
    ∃ hd, fileRetrieveData backend after (hexText h.bytes) = some hd ∧ hd.data = some data

/-- Without a failure a block is stored as `file_store_data` stores it. -/
theorem fileStoreDataOutcome_written (backend : FileBackend) (files : Files) {hd : HashData} {h : Hash} {data : Bytes}
    (hhd : hd.IsBlock h data) {n : Nat} (hn : data.length ≤ n) :
    fileStoreDataOutcome backend (.written n) files hd = fileStoreData backend files hd := by
  simp only [fileStoreDataOutcome, fileStoreData, hhd.hash, hhd.data, blockFilename_eq, (length_int64 hhd.read).2.1,
    List.take_length, List.take_of_length_le hn]

namespace NeededAux

/-- The file of a block after it was stored, or not. -/
theorem fileStoreDataOutcome_blockName (backend : FileBackend) (outcome : WriteOutcome) (files : Files) {hd : HashData} {h : Hash}
    {data : Bytes} (hhd : hd.IsBlock h data) :
    fileStoreDataOutcome backend outcome files hd (blockName backend h) =
      match outcome with
      | .notOpened => files (blockName backend h)
      | .written n => some (data.take n) := by
  have hname : blockFilename backend (some h.bytes) = some (blockName backend h) :=
    BlockStoreAux.blockFilename_eq_blockName backend h
  simp only [fileStoreDataOutcome, hhd.hash, hhd.data, hname, (length_int64 hhd.read).2.1, List.take_length]
  cases outcome with
  | notOpened => exact Function.update_of_ne (blockName_ne_meta backend h h) _ _
  | written n => exact Function.update_self ..

/-- Of a list that holds its hash the backend asks for a block that has no file. -/
theorem exists_needed_iff (backend : FileBackend) (files : Files) (h : Hash) :
    (∀ list hs, HashsAre list hs → h ∈ hs → ∃ hd ∈ fileBuildNeededHashList backend files list, hd.hash = some h.bytes) ↔
      files (blockName backend h) = none := by
  have hneeded : ∀ list hs, HashsAre list hs → h ∈ hs →
      ((∃ hd ∈ fileBuildNeededHashList backend files list, hd.hash = some h.bytes) ↔ hasBlock backend files h = false) := by
    intro list hs hlist hmem
    have heq := fileBuildNeededHashList_eq backend files hlist
    constructor
    · rintro ⟨hd, hhd, hhash⟩
      have hin : some h.bytes ∈ (neededHashs (hasBlock backend files) [] hs).map fun g => some g.bytes :=
        heq ▸ List.mem_map.mpr ⟨hd, hhd, hhash⟩
      obtain ⟨g, hg, hgh⟩ := List.mem_map.mp hin
      rw [← Hash.ext (Option.some.inj hgh)]
      exact (mem_neededHashs.mp hg).2.2
    · intro habsent
      have hin : some h.bytes ∈ (fileBuildNeededHashList backend files list).map HashData.hash :=
        heq ▸ List.mem_map.mpr ⟨h, mem_neededHashs.mpr ⟨hmem, List.not_mem_nil, habsent⟩, rfl⟩
      exact List.mem_map.mp hin
  have habsent : hasBlock backend files h = false ↔ files (blockName backend h) = none := by
    rw [hasBlock_eq]
    simp
  rw [← habsent]
  constructor
  · intro hall
    have hone : HashsAre [newHashDataAsIs none 0 (some h.bytes) 0 0] [h] := by
      simp [HashsAre, newHashDataAsIs]
    exact (hneeded _ [h] hone List.mem_cons_self).mp (hall _ _ hone List.mem_cons_self)
  · exact fun hnone list hs hlist hmem => (hneeded list hs hlist hmem).mpr hnone

/-- The bytes of a block are retrieved when they are its file. -/
theorem exists_retrieved_iff (backend : FileBackend) (files : Files) (h : Hash) (data : Bytes) :
    (∃ hd, fileRetrieveData backend files (hexText h.bytes) = some hd ∧ hd.data = some data) ↔
      files (blockName backend h) = some data := by
  rw [BlockStoreAux.fileRetrieveData_eq]
  cases files (blockName backend h) with
  | none => simp
  | some bytes => simp [newHashDataAsIs]

end NeededAux

/-- A block is stored whole or not at all exactly when the whole of it is written, or its file is not opened and was not there or had
its bytes already. -/
theorem wholeOrNeeded_iff (backend : FileBackend) (outcome : WriteOutcome) (files : Files) {hd : HashData} {h : Hash} {data : Bytes}
    (hhd : hd.IsBlock h data) :
    WholeOrNeeded backend files (fileStoreDataOutcome backend outcome files hd) h data ↔
      match outcome with
      | .notOpened => files (blockName backend h) = none ∨ files (blockName backend h) = some data
      | .written n => data.length ≤ n := by
  have hbefore : isRetrieved backend files h = false ↔ files (blockName backend h) = none := by
    rw [isRetrieved_eq_hasBlock, hasBlock_eq]
    simp
  unfold WholeOrNeeded
  rw [hbefore, exists_needed_iff, exists_retrieved_iff, fileStoreDataOutcome_blockName backend outcome files hhd]
  cases outcome with
  | notOpened => simp only [and_self]
  | written n => simp [List.take_eq_self_iff]

/-- A block of four bytes, all of them written, is stored whole. -/
theorem plainBlock_whole :
    WholeOrNeeded deepBackend (fun _ => none) (fileStoreDataOutcome deepBackend (.written 4) (fun _ => none) plainBlock) sevens
      (str "text") :=
  (wholeOrNeeded_iff deepBackend (.written 4) (fun _ => none) ⟨rfl, rfl, by decide⟩).mpr (by decide)

/-- When one byte is missing it is neither asked for again nor retrieved. -/
theorem plainBlock_truncated :
    ¬ WholeOrNeeded deepBackend (fun _ => none) (fileStoreDataOutcome deepBackend (.written 3) (fun _ => none) plainBlock) sevens
      (str "text") := by
  have hfile := fileStoreDataOutcome_blockName deepBackend (.written 3) (fun _ => none)
    (show plainBlock.IsBlock sevens (str "text") from ⟨rfl, rfl, by decide⟩)
  rintro (⟨-, hneeded⟩ | hretrieved)
  · rw [(exists_needed_iff _ _ _).mp hneeded] at hfile
    cases hfile
  · rw [(exists_retrieved_iff _ _ _ _).mp hretrieved] at hfile
    exact absurd hfile (by decide)

end Sauvegarde
