import Sauvegarde.Client.Carving
import Sauvegarde.Theorems.Cached
import Sauvegarde.Theorems.Restoring

/-!
# The size of a batch

`get_data_from_a_list_of_hashs` counts the bytes of a batch in 32 bits. How many blocks are in a batch depends on the size of the
file, and how long they are on the block size of the client that saved it: when the counter is right.
-/

namespace Sauvegarde

open Slices

/-- What a client with a block size reads of a file: no block is empty or longer than that, and together they are the file. -/
structure BlocksOfFile (blocksize : Int64) (size : UInt64) (reads : List Bytes) : Prop where
  notEmpty : ∀ text ∈ reads, 0 < text.length
  blocksize : ∀ text ∈ reads, (text.length : Int) ≤ blocksize.toInt
  whole : reads.flatten.length = size.toNat

/-- For every batch of every file of a size, in blocks of a length, the counter is the length of the buffer, and the buffer is the
blocks one behind the other. -/
def CountsBatches (z : Zlib) (blocksize : Int64) (size : UInt64) : Prop :=
  ∀ reads, BlocksOfFile blocksize size reads → ∀ i blocks,
    List.Forall₂ (HoldsText z) blocks (slice (calculateMaxNumberOfHashs size) reads i) →
      ∃ batch, addBlocks z ⟨none, 0⟩ (blocks.map some) = some batch ∧
        batch.size.toNat = (slice (calculateMaxNumberOfHashs size) reads i).flatten.length ∧
        batch.finalBuffer.getD [0] = (slice (calculateMaxNumberOfHashs size) reads i).flatten ++ [0]

namespace BatchSizeAux

open BatchAux RestoringAux

/-- A list of texts of bounded length is as long as that allows. -/
theorem length_flatten_le {texts : List Bytes} {n : Nat} (h : ∀ text ∈ texts, text.length ≤ n) :
    texts.flatten.length ≤ texts.length * n := by
  rw [List.length_flatten, ← List.length_map (f := List.length)]
  refine (List.sum_le_card_nsmul _ n fun length hlength => ?_).trans (le_of_eq (smul_eq_mul ..))
  obtain ⟨text, htext, rfl⟩ := List.mem_map.mp hlength
  exact h text htext

/-- A batch that fits is counted right. -/
theorem countsBatch_of_lt {z : Zlib} (hz : z.Inverts) {blocks : List HashData} {texts : List Bytes}
    (hblocks : List.Forall₂ (HoldsText z) blocks texts) (hfits : texts.flatten.length < 2 ^ 32) :
    ∃ batch, addBlocks z ⟨none, 0⟩ (blocks.map some) = some batch ∧ batch.size.toNat = texts.flatten.length ∧
      batch.finalBuffer.getD [0] = texts.flatten ++ [0] := by
  obtain ⟨batch, hadd, hholds⟩ := addBlocks_of_holdsText hz hblocks holdsTexts_start
  rw [List.nil_append] at hholds
  refine ⟨batch, hadd, ?_⟩
  by_cases hnil : texts = []
  · obtain ⟨hbuffer, hsize⟩ := hholds.nothing hnil
    simp [hnil, hbuffer, hsize]
  · obtain ⟨b, hbuffer, _, hmod, hexact⟩ := hholds.something hnil
    rw [hmod, hbuffer, hexact hfits, Nat.mod_eq_of_lt hfits]
    exact ⟨rfl, rfl⟩

/-- In blocks of a length the batch is within a product, and within the file. -/
theorem length_batch_le {blocksize : Int64} {size : UInt64} {reads : List Bytes} (h : BlocksOfFile blocksize size reads)
    (n i : Nat) :
    (slice n reads i).flatten.length ≤ size.toNat ∧ (slice n reads i).flatten.length ≤ n * blocksize.toInt.toNat := by
  have hsub : (slice n reads i).Sublist reads := (List.take_sublist _ _).trans (List.drop_sublist _ _)
  have hlength : (slice n reads i).length ≤ n := List.length_take_le ..
  refine ⟨h.whole ▸ hsub.flatten.length_le, ?_⟩
  have hbound : ∀ text ∈ slice n reads i, text.length ≤ blocksize.toInt.toNat := fun text htext => by
    have := h.blocksize text (hsub.subset htext)
    omega
  exact (length_flatten_le hbound).trans (Nat.mul_le_mul_right _ hlength)

/-- A file in blocks that are as long as they may be, but for the last one. -/
def fullBlocks (blocksize size : Nat) : List Bytes :=
  List.replicate (size / blocksize) (List.replicate blocksize 0) ++
    (if size % blocksize = 0 then [] else [List.replicate (size % blocksize) 0])

/-- They are as long as the file. -/
theorem length_fullBlocks (blocksize size : Nat) : (fullBlocks blocksize size).flatten.length = size := by
  have hdiv := Nat.div_add_mod' size blocksize
  rw [fullBlocks, List.flatten_append, List.length_append, List.flatten_replicate_replicate, List.length_replicate]
  split
  · rw [List.flatten_nil, List.length_nil]
    omega
  · rw [List.flatten_singleton, List.length_replicate]
    omega

/-- These blocks are those of a file. -/
theorem blocksOfFile_fullBlocks {blocksize : Int64} (hpos : 0 < blocksize) (size : UInt64) :
    BlocksOfFile blocksize size (fullBlocks blocksize.toInt.toNat size.toNat) := by
  have hb : 0 < blocksize.toInt := Int64.lt_iff_toInt_lt.mp hpos
  have hmod := Nat.mod_lt size.toNat (y := blocksize.toInt.toNat) (by omega)
  have hmem : ∀ text ∈ fullBlocks blocksize.toInt.toNat size.toNat,
      text.length = blocksize.toInt.toNat ∨ (text.length = size.toNat % blocksize.toInt.toNat ∧ 0 < text.length) := by
    intro text htext
    rcases List.mem_append.mp htext with htext | htext
    · exact Or.inl (by rw [List.eq_of_mem_replicate htext, List.length_replicate])
    · split at htext
      · exact absurd htext List.not_mem_nil
      · rw [List.mem_singleton.mp htext, List.length_replicate]
        exact Or.inr ⟨rfl, by omega⟩
  constructor
  · intro text htext
    have := hmem text htext
    omega
  · intro text htext
    have := hmem text htext
    omega
  · exact length_fullBlocks blocksize.toInt.toNat size.toNat

/-- Their first batch is too long for the counter, when the file is and so many blocks are. -/
theorem length_firstBatch_ge {n blocksize size : Nat} (hsize : 2 ^ 32 ≤ size)
    (hproduct : 2 ^ 32 ≤ n * blocksize) : 2 ^ 32 ≤ (slice n (fullBlocks blocksize size) 0).flatten.length := by
  rw [slice, Nat.zero_mul, List.drop_zero]
  by_cases hmany : n ≤ size / blocksize
  · -- the batch is full of whole blocks
    have htake : (fullBlocks blocksize size).take n = List.replicate n (List.replicate blocksize 0) := by
      rw [fullBlocks, List.take_append_of_le_length (by rwa [List.length_replicate]), List.take_replicate, min_eq_left hmany]
    rw [htake, List.flatten_replicate_replicate, List.length_replicate]
    exact hproduct
  · -- the batch is the whole file
    have hshort : (fullBlocks blocksize size).length ≤ n := by
      rw [fullBlocks, List.length_append, List.length_replicate]
      split <;> simp only [List.length_nil, List.length_singleton] <;> omega
    rw [List.take_of_length_le hshort, length_fullBlocks]
    exact hsize

/-- Texts are held by blocks that are not compressed. -/
theorem holdsText_plain (z : Zlib) {texts : List Bytes} (h : ∀ text ∈ texts, text.length < 2 ^ 63) :
    List.Forall₂ (HoldsText z)
      (texts.map fun text => newHashDataAsIs (some text) (Int64.ofNat text.length) none COMPRESS_NONE_TYPE 0) texts := by
  rw [List.forall₂_map_left_iff, List.forall₂_same]
  intro text htext
  exact ⟨⟨text, rfl, Int64.toInt_ofNat_of_lt (h text htext)⟩, Or.inl ⟨rfl, rfl⟩⟩

/-- How long a batch can be, as a natural number and as an integer. -/
theorem natCast_batchLimit (size : UInt64) {blocksize : Int64} (hpos : 0 < blocksize) :
    ((calculateMaxNumberOfHashs size * blocksize.toInt.toNat : Nat) : Int) = calculateMaxNumberOfHashs size * blocksize.toInt := by
  have hb : 0 < blocksize.toInt := Int64.lt_iff_toInt_lt.mp hpos
  rw [Nat.cast_mul, Int.toNat_of_nonneg hb.le]

/-- When a batch may be too long for the counter, there is a file for which the counter is wrong. -/
theorem not_countsBatches (z : Zlib) {blocksize : Int64} (hpos : 0 < blocksize) {size : UInt64} (hsize : 2 ^ 32 ≤ size.toNat)
    (hproduct : 2 ^ 32 ≤ calculateMaxNumberOfHashs size * blocksize.toInt) : ¬ CountsBatches z blocksize size := by
  intro hcounts
  have hlarge := blocksize.toInt_lt
  have hfile := blocksOfFile_fullBlocks hpos size
  have hshort : ∀ text ∈ slice (calculateMaxNumberOfHashs size) (fullBlocks blocksize.toInt.toNat size.toNat) 0,
      text.length < 2 ^ 63 := fun text htext => by
    have := hfile.blocksize text (mem_of_mem_slice htext)
    omega
  obtain ⟨batch, _, hcount, _⟩ := hcounts _ hfile 0 _ (holdsText_plain z hshort)
  have hcast := natCast_batchLimit size hpos
  have hlong : 2 ^ 32 ≤ (slice (calculateMaxNumberOfHashs size) (fullBlocks blocksize.toInt.toNat size.toNat) 0).flatten.length :=
    length_firstBatch_ge hsize (by omega)
  have hword := batch.size.toNat_lt
  omega

end BatchSizeAux

open BatchSizeAux

/-- With a fixed block size the counter is right exactly for files of less than 2^32 bytes, and when the blocks of one batch cannot
reach 2^32 bytes. -/
theorem countsBatches_iff {z : Zlib} (hz : z.Inverts) {opt : Options} (hfixed : opt.adaptive = false) (hpos : 0 < opt.blocksize)
    (size : UInt64) :
    CountsBatches z (calculateFileBlocksize opt size.toInt64).2 size ↔
      size.toNat < 2 ^ 32 ∨ calculateMaxNumberOfHashs size * opt.blocksize.toInt < 2 ^ 32 := by
  have hblocksize : (calculateFileBlocksize opt size.toInt64).2 = opt.blocksize := by simp [calculateFileBlocksize, hfixed]
  rw [hblocksize]
  constructor
  · intro hcounts
    by_contra hlong
    rw [not_or, not_lt, not_lt] at hlong
    exact not_countsBatches z hpos hlong.1 hlong.2 hcounts
  · intro hfits reads hfile i blocks hblocks
    obtain ⟨hsize, hproduct⟩ := length_batch_le hfile (calculateMaxNumberOfHashs size) i
    have hcast := natCast_batchLimit size hpos
    exact countsBatch_of_lt hz hblocks (by omega)

/-- The options of a client with a fixed block size. -/
def fixedBlocksize (blocksize : Int64) : Options := ⟨false, blocksize, defaultMain⟩

/-- Blocks of 16384 bytes are counted right in every batch of a file of 2^40 bytes. -/
theorem smallBlocks_counted :
    CountsBatches storingZlib (calculateFileBlocksize (fixedBlocksize 16384) (1099511627776 : UInt64).toInt64).2 1099511627776 :=
  (countsBatches_iff storingZlib_inverts (show (fixedBlocksize 16384).adaptive = false from rfl) (by decide) _).mpr
    (Or.inr (by decide))

/-- Blocks of 2^28 bytes are not, in a file of 2^32 bytes. -/
theorem largeBlocks_miscounted :
    ¬ CountsBatches storingZlib (calculateFileBlocksize (fixedBlocksize 268435456) (4294967296 : UInt64).toInt64).2 4294967296 :=
  not_countsBatches storingZlib (by decide) (by decide) (by decide)

end Sauvegarde
