import Mathlib.Data.List.ReduceOption
import Sauvegarde.Server.Get

/-!
# A batch is exact or an error

When `get_data_from_a_list_of_hashs` answers the blocks that were asked for, one behind the other, or `NULL`, and when it
answers something else.
-/

namespace Sauvegarde

/-- What `uncompress` is documented to do, for a format in which `inflate` tells what a compressed text stands for, and nothing for
one that is corrupted: it writes at most as many bytes as there is room for, success gives all of the text, and a lack of room
gives less than all, whatever stands behind. Without any room a text of one byte is a success too. -/
structure Zlib.Documented (z : Zlib) (inflate : Bytes → Option Bytes) : Prop where
  room : ∀ src n, (z.uncompress src n).2.length ≤ n
  ok : ∀ src n, 0 < n → (z.uncompress src n).1 = .ok → inflate src = some (z.uncompress src n).2
  bufError : ∀ src n text, (z.uncompress src n).1 = .bufError → inflate src = some text →
    ∃ rest, rest ≠ [] ∧ text = (z.uncompress src n).2 ++ rest

/-- A block as a backend gives it: there are data, and `read` is their length. -/
def HasData (hd : HashData) : Prop := ∃ data, hd.data = some data ∧ hd.read.toInt = data.length

/-- The uncompressed contents of a block; none when its data are corrupted or its compression is unknown. -/
def contents (inflate : Bytes → Option Bytes) (hd : HashData) : Option Bytes :=
  if hd.cmptype = COMPRESS_NONE_TYPE then hd.data
  else if hd.cmptype = COMPRESS_ZLIB_TYPE then hd.data.bind inflate
  else none

/-- The answer is the blocks asked for, one behind the other, with the length of that. -/
def IsBatchOf (inflate : Bytes → Option Bytes) (blocks : List (Option HashData)) (answer : Json) : Prop :=
  ∃ texts : List Bytes, blocks.map (fun hd => hd.bind (contents inflate)) = texts.map some ∧
    ∃ hd, convertJsonToHashData answer = some hd ∧ hd.data = some texts.flatten ∧ hd.read.toInt = texts.flatten.length

/-- The answer is exact or an error: it is no fault, and when it is not `NULL` it is the blocks asked for. -/
def ExactOrError (inflate : Bytes → Option Bytes) (blocks : List (Option HashData)) (answer : Option (Option Json)) : Prop :=
  match answer with
  | none => False
  | some none => True
  | some (some json) => IsBatchOf inflate blocks json

/-- A block that is taken over whole: it is not compressed, or it is with zlib, there is a length for the uncompressed data and
decompression succeeds with it; the length 0 is only for data that stand for nothing. -/
def TakenOver (z : Zlib) (inflate : Bytes → Option Bytes) (hd : HashData) : Prop :=
  hd.cmptype = COMPRESS_NONE_TYPE ∨
    (hd.cmptype = COMPRESS_ZLIB_TYPE ∧ hd.uncmplen ≠ -1 ∧
      (z.uncompress (hd.data.getD []) hd.uncmplen.toUInt64.toNat).1 = .ok ∧
      (hd.uncmplen = 0 → inflate (hd.data.getD []) = some []))

/-- A block that adds nothing: it is not there, or its compression is unknown. -/
def AddsNothing (hd : Option HashData) : Prop :=
  ∀ hd' ∈ hd, hd'.cmptype ≠ COMPRESS_NONE_TYPE ∧ hd'.cmptype ≠ COMPRESS_ZLIB_TYPE

/-- All blocks are there and taken over whole, and their length fits in 32 bits. -/
def WholeBatch (z : Zlib) (inflate : Bytes → Option Bytes) (blocks : List (Option HashData)) : Prop :=
  (∀ hd ∈ blocks, ∃ hd', hd = some hd' ∧ TakenOver z inflate hd') ∧
    (blocks.filterMap fun hd => hd.bind (contents inflate)).flatten.length < 2 ^ 32

namespace BatchAux

/-- What the loop makes of one block: the text it adds, none when it adds nothing; or a fault. -/
def textOf (z : Zlib) (hd : HashData) : Option (Option Bytes) :=
  if hd.cmptype = COMPRESS_NONE_TYPE then some hd.data
  else if hd.cmptype = COMPRESS_ZLIB_TYPE then
    if hd.uncmplen = -1 then none
    else
      match z.uncompress (hd.data.getD []) hd.uncmplen.toUInt64.toNat with
      | (.otherError, _) => none
      | (_, out) => some (some out)
  else some none

/-- The texts added so far are in the buffer, and the size is their length, each as far as 32 bits go. -/
structure HoldsTexts (batch : Batch) (texts : List Bytes) : Prop where
  nothing : texts = [] → batch.finalBuffer = none ∧ batch.size = 0
  something : texts ≠ [] → ∃ b, batch.finalBuffer = some b ∧ batch.size.toNat < b.length ∧
    batch.size.toNat = texts.flatten.length % 2 ^ 32 ∧ (texts.flatten.length < 2 ^ 32 → b = texts.flatten ++ [0])

/-- At the start there are no texts. -/
theorem holdsTexts_start : HoldsTexts ⟨none, 0⟩ [] := ⟨fun _ => ⟨rfl, rfl⟩, fun h => absurd rfl h⟩

/-- Text that is added goes behind the texts before it. -/
theorem addText_some {batch : Batch} {texts : List Bytes} (h : HoldsTexts batch texts) {text : Bytes} {len : UInt64}
    (hlen : len.toNat = text.length) :
    ∃ batch', addText batch (some text) len = some batch' ∧ HoldsTexts batch' (texts ++ [text]) := by
  have hsize : (batch.size + len.toUInt32).toNat = (batch.size.toNat + text.length) % 2 ^ 32 := by
    rw [UInt32.toNat_add, UInt64.toNat_toUInt32, hlen]
    omega
  by_cases hnil : texts = []
  · obtain ⟨hbuffer, hzero⟩ := h.nothing hnil
    have hzero' : batch.size.toNat = 0 := by
      rw [hzero]
      rfl
    refine ⟨⟨some (text ++ [0]), batch.size + len.toUInt32⟩, ?_, ⟨by simp, fun _ => ⟨text ++ [0], rfl, ?_, ?_, ?_⟩⟩⟩
    · simp only [addText, hbuffer, concatBuffer, hlen, le_refl, if_true, List.take_length, Option.map_some]
    · rw [hsize, List.length_append, List.length_singleton]
      omega
    · rw [hsize, hnil, List.nil_append, List.flatten_singleton]
      omega
    · simp [hnil]
  · obtain ⟨b, hbuffer, hlt, hmod, hexact⟩ := h.something hnil
    refine ⟨⟨some (b.take batch.size.toNat ++ text ++ [0]), batch.size + len.toUInt32⟩, ?_,
      ⟨by simp, fun _ => ⟨_, rfl, ?_, ?_, ?_⟩⟩⟩
    · simp only [addText, hbuffer, concatBuffer, hlen, le_refl, and_true, le_of_lt hlt, if_true, List.take_length,
        Option.map_some]
    · simp only [hsize, List.length_append, List.length_take, List.length_singleton]
      omega
    · simp only [hsize, List.flatten_append, List.flatten_cons, List.flatten_nil, List.append_nil, List.length_append]
      omega
    · simp only [List.flatten_append, List.flatten_cons, List.flatten_nil, List.append_nil, List.length_append]
      intro hfits
      have hwhole : batch.size.toNat = texts.flatten.length := by omega
      rw [hexact (by omega), hwhole, List.take_left']
      rfl

/-- A block without text changes nothing. -/
theorem addText_none {batch : Batch} {texts : List Bytes} (h : HoldsTexts batch texts) :
    ∃ batch', addText batch none 0 = some batch' ∧ HoldsTexts batch' texts := by
  by_cases hnil : texts = []
  · obtain ⟨hbuffer, hzero⟩ := h.nothing hnil
    refine ⟨⟨none, 0⟩, ?_, ⟨fun _ => ⟨rfl, rfl⟩, fun hne => absurd hnil hne⟩⟩
    simp [addText, hbuffer, concatBuffer, hzero]
  · obtain ⟨b, hbuffer, hlt, hmod, hexact⟩ := h.something hnil
    refine ⟨⟨some (b.take batch.size.toNat ++ [0]), batch.size⟩, ?_, ⟨fun he => absurd he hnil, fun _ =>
      ⟨_, rfl, ?_, hmod, fun hfits => ?_⟩⟩⟩
    · simp [addText, hbuffer, concatBuffer, le_of_lt hlt]
    · simp only [List.length_append, List.length_take, List.length_singleton]
      omega
    · have hwhole : batch.size.toNat = texts.flatten.length := by omega
      rw [hexact hfits, hwhole, List.take_left']
      rfl

/-- The size of the room for a text wraps for one length only. -/
theorem toUInt64_add_one_eq_zero_iff {len : Int64} : len.toUInt64 + 1 = 0 ↔ len = -1 := by
  constructor
  · intro hzero
    have hmax : len.toUInt64 = -1 := by
      have hminus := congrArg (· + (-1 : UInt64)) hzero
      simpa [add_assoc] using hminus
    have hback := congrArg UInt64.toInt64 hmax
    simpa using hback
  · rintro rfl
    decide

/-- One turn with a compressed block. -/
theorem addBlock_zlib {z : Zlib} {inflate : Bytes → Option Bytes} (hz : z.Documented inflate) {batch : Batch}
    {texts : List Bytes} (h : HoldsTexts batch texts) {hd : HashData} (hzlib : hd.cmptype = COMPRESS_ZLIB_TYPE) {data : Bytes}
    (hdata : hd.data = some data) (hlen : hd.read.toUInt64.toNat = data.length) :
    match textOf z hd with
    | none => addBlock z batch (some hd) = none
    | some text => ∃ batch', addBlock z batch (some hd) = some batch' ∧ HoldsTexts batch' (texts ++ text.toList) := by
  have hne : COMPRESS_ZLIB_TYPE ≠ COMPRESS_NONE_TYPE := by decide
  simp only [textOf, addBlock, hzlib, hne, if_false, if_true, uncompressBuffer, zlibUncompressBuffer, hdata,
    Option.getD_some, hlen, List.take_length, toUInt64_add_one_eq_zero_iff]
  by_cases hwrap : hd.uncmplen = -1
  · simp only [if_pos hwrap]
  · have hroom := hz.room data hd.uncmplen.toUInt64.toNat
    have hmax := hd.uncmplen.toUInt64.toNat_lt
    simp only [if_neg hwrap]
    rcases hun : z.uncompress data hd.uncmplen.toUInt64.toNat with ⟨ret, out⟩
    rw [hun] at hroom
    have hout : (UInt64.ofNat out.length).toNat = out.length := by
      rw [UInt64.toNat_ofNat']
      exact Nat.mod_eq_of_lt (by simp only at hroom; omega)
    cases ret with
    | ok => exact addText_some h hout
    | bufError => exact addText_some h hout
    | otherError => rfl

/-- One turn of the loop adds the text of the block, or is a fault. -/
theorem addBlock_spec {z : Zlib} {inflate : Bytes → Option Bytes} (hz : z.Documented inflate) {batch : Batch}
    {texts : List Bytes} (h : HoldsTexts batch texts) {hd : HashData} (hhd : HasData hd) :
    match textOf z hd with
    | none => addBlock z batch (some hd) = none
    | some text => ∃ batch', addBlock z batch (some hd) = some batch' ∧ HoldsTexts batch' (texts ++ text.toList) := by
  obtain ⟨data, hdata, hread⟩ := hhd
  obtain ⟨_, hlen, _, _⟩ := length_int64 hread
  by_cases hnone : hd.cmptype = COMPRESS_NONE_TYPE
  · obtain ⟨batch', hadd, hholds⟩ := addText_some h hlen
    simp only [textOf, addBlock, hnone, if_true, hdata]
    exact ⟨batch', hadd, hholds⟩
  · by_cases hzlib : hd.cmptype = COMPRESS_ZLIB_TYPE
    · exact addBlock_zlib hz h hzlib hdata hlen
    · obtain ⟨batch', hadd, hholds⟩ := addText_none h
      simp only [textOf, addBlock, hnone, hzlib, if_false, uncompressBuffer, initCompress, Option.toList_none,
        List.append_nil]
      exact ⟨batch', hadd, hholds⟩

/-- What the loop makes of one turn, be the block there or not. -/
def textOfBlock (z : Zlib) : Option HashData → Option (Option Bytes)
  | none => some none
  | some hd => textOf z hd

/-- The loop adds the texts of all blocks, or one of them is a fault. -/
theorem addBlocks_spec {z : Zlib} {inflate : Bytes → Option Bytes} (hz : z.Documented inflate)
    (blocks : List (Option HashData)) (hdata : ∀ hd ∈ blocks, ∀ hd' ∈ hd, HasData hd') :
    ∀ {batch : Batch} {texts : List Bytes}, HoldsTexts batch texts →
      ((∃ hd ∈ blocks, textOfBlock z hd = none) ∧ addBlocks z batch blocks = none) ∨
      ∃ ts : List (Option Bytes), blocks.map (textOfBlock z) = ts.map some ∧
        ∃ batch', addBlocks z batch blocks = some batch' ∧ HoldsTexts batch' (texts ++ ts.reduceOption) := by
  induction blocks with
  | nil => intro batch texts h; exact Or.inr ⟨[], rfl, batch, rfl, by simpa [List.reduceOption] using h⟩
  | cons hd blocks ih =>
    intro batch texts h
    have ih' := @ih fun hd hmem => hdata hd (List.mem_cons_of_mem _ hmem)
    have hturn : match textOfBlock z hd with
        | none => addBlock z batch hd = none
        | some text => ∃ batch', addBlock z batch hd = some batch' ∧ HoldsTexts batch' (texts ++ text.toList) := by
      cases hd with
      | none => exact ⟨batch, rfl, by simpa using h⟩
      | some hd => exact addBlock_spec hz h (hdata _ List.mem_cons_self hd rfl)
    rcases htext : textOfBlock z hd with _ | text
    · rw [htext] at hturn
      exact Or.inl ⟨⟨hd, List.mem_cons_self, htext⟩, by rw [addBlocks, hturn, Option.bind_none]⟩
    · rw [htext] at hturn
      obtain ⟨batch', hadd, hholds⟩ := hturn
      rcases ih' hholds with ⟨⟨hd', hmem, hfault⟩, hnone⟩ | ⟨ts, hts, batch'', hadd', hholds'⟩
      · exact Or.inl ⟨⟨hd', List.mem_cons_of_mem _ hmem, hfault⟩, by rw [addBlocks, hadd, Option.bind_some, hnone]⟩
      · refine Or.inr ⟨text :: ts, by rw [List.map_cons, List.map_cons, htext, hts], batch'', ?_, ?_⟩
        · rw [addBlocks, hadd, Option.bind_some, hadd']
        · rw [List.append_assoc] at hholds'
          cases text with
          | none => simpa [List.reduceOption_cons_of_none] using hholds'
          | some text => simpa [List.reduceOption_cons_of_some] using hholds'

/-- There is no room for one length only. -/
theorem toNat_toUInt64_eq_zero_iff {len : Int64} : len.toUInt64.toNat = 0 ↔ len = 0 := by
  constructor
  · intro hzero
    have hlen : len.toUInt64 = 0 := UInt64.toNat_inj.mp hzero
    have hback := congrArg UInt64.toInt64 hlen
    simpa using hback
  · rintro rfl
    decide

/-- The text of a block is at most its contents, and as long only when the block is taken over whole. -/
theorem textOf_le_contents {z : Zlib} {inflate : Bytes → Option Bytes} (hz : z.Documented inflate) {hd : HashData}
    {c : Bytes} (hc : contents inflate hd = some c) {text : Option Bytes} (ht : textOf z hd = some text) :
    ∃ t, text = some t ∧ t.length ≤ c.length ∧ (t.length = c.length → TakenOver z inflate hd) := by
  unfold contents at hc
  unfold textOf at ht
  split_ifs at hc ht with hnone hzlib hwrap
  · rw [Option.some.injEq] at ht
    exact ⟨c, ht.symm.trans hc, le_refl _, fun _ => Or.inl hnone⟩
  · obtain ⟨data, hdata, hinflate⟩ := Option.bind_eq_some_iff.mp hc
    rw [hdata, Option.getD_some] at ht
    rcases hun : z.uncompress data hd.uncmplen.toUInt64.toNat with ⟨ret, out⟩
    rw [hun] at ht
    cases ret with
    | ok =>
      rw [Option.some.injEq] at ht
      have htaken : (hd.uncmplen = 0 → c = []) → TakenOver z inflate hd := fun hnothing =>
        Or.inr ⟨hzlib, hwrap, by rw [hdata, Option.getD_some, hun],
          fun hzero => by rw [hdata, Option.getD_some, hinflate, hnothing hzero]⟩
      by_cases hzero : hd.uncmplen = 0
      · -- there was no room, and nothing was written
        have hroom := hz.room data hd.uncmplen.toUInt64.toNat
        rw [hun, toNat_toUInt64_eq_zero_iff.mpr hzero] at hroom
        have hnil : out = [] := List.length_eq_zero_iff.mp (Nat.le_zero.mp hroom)
        refine ⟨out, ht.symm, by rw [hnil]; exact Nat.zero_le _, fun heq => htaken fun _ => ?_⟩
        rw [hnil] at heq
        exact List.length_eq_zero_iff.mp heq.symm
      · have hpos : 0 < hd.uncmplen.toUInt64.toNat :=
          Nat.pos_iff_ne_zero.mpr fun hnull => hzero (toNat_toUInt64_eq_zero_iff.mp hnull)
        have hok := hz.ok data hd.uncmplen.toUInt64.toNat hpos (by rw [hun])
        rw [hun, hinflate, Option.some.injEq] at hok
        exact ⟨out, ht.symm, by rw [hok], fun _ => htaken fun hnull => absurd hnull hzero⟩
    | bufError =>
      obtain ⟨rest, hrest, hbuf⟩ := hz.bufError data hd.uncmplen.toUInt64.toNat c (by rw [hun]) hinflate
      rw [hun] at hbuf
      rw [Option.some.injEq] at ht
      simp only at hbuf
      have hpos := List.length_pos_iff.mpr hrest
      refine ⟨out, ht.symm, by rw [hbuf, List.length_append]; omega, fun heq => ?_⟩
      rw [hbuf, List.length_append] at heq
      omega
    | otherError => exact absurd ht (by simp)

/-- A block that is taken over whole has contents, and they are its text. -/
theorem textOf_of_takenOver {z : Zlib} {inflate : Bytes → Option Bytes} (hz : z.Documented inflate) {hd : HashData}
    (hhd : HasData hd) (h : TakenOver z inflate hd) : ∃ c, contents inflate hd = some c ∧ textOf z hd = some (some c) := by
  obtain ⟨data, hdata, _⟩ := hhd
  rcases h with hnone | ⟨hzlib, hwrap, hok, hnothing⟩
  · exact ⟨data, by rw [contents, if_pos hnone, hdata], by rw [textOf, if_pos hnone, hdata]⟩
  · have hne : ¬ hd.cmptype = COMPRESS_NONE_TYPE := by
      rw [hzlib]
      decide
    rw [hdata, Option.getD_some] at hok hnothing
    refine ⟨(z.uncompress data hd.uncmplen.toUInt64.toNat).2, ?_, ?_⟩
    · rw [contents, if_neg hne, if_pos hzlib, hdata, Option.bind_some]
      by_cases hzero : hd.uncmplen = 0
      · have hroom := hz.room data hd.uncmplen.toUInt64.toNat
        rw [toNat_toUInt64_eq_zero_iff.mpr hzero, Nat.le_zero, List.length_eq_zero_iff] at hroom
        rw [hnothing hzero, toNat_toUInt64_eq_zero_iff.mpr hzero, hroom]
      · exact hz.ok _ _ (Nat.pos_iff_ne_zero.mpr fun hnull => hzero (toNat_toUInt64_eq_zero_iff.mp hnull)) hok
    · rw [textOf, if_neg hne, if_pos hzlib, if_neg hwrap, hdata, Option.getD_some]
      rcases hun : z.uncompress data hd.uncmplen.toUInt64.toNat with ⟨ret, out⟩
      rw [hun] at hok
      simp only at hok
      rw [hok]

/-- The texts of blocks that all have contents are together at most as long as these, and as long only when all blocks are
taken over whole; there are none only when there are no blocks. -/
theorem texts_le_contents {z : Zlib} {inflate : Bytes → Option Bytes} (hz : z.Documented inflate)
    (blocks : List (Option HashData)) : ∀ {cs : List Bytes} {ts : List (Option Bytes)},
    blocks.map (fun hd => hd.bind (contents inflate)) = cs.map some → blocks.map (textOfBlock z) = ts.map some →
      ts.reduceOption.flatten.length ≤ cs.flatten.length ∧
        (ts.reduceOption.flatten.length = cs.flatten.length → ∀ hd ∈ blocks, ∃ hd', hd = some hd' ∧ TakenOver z inflate hd') ∧
        (ts.reduceOption = [] → blocks = []) := by
  induction blocks with
  | nil =>
    intro cs ts hc ht
    have hcs : cs = [] := by simpa using hc
    have hts : ts = [] := by simpa using ht
    simp [hcs, hts, List.reduceOption]
  | cons hd blocks ih =>
    intro cs ts hc ht
    rcases cs with _ | ⟨c, cs⟩
    · simp at hc
    rcases ts with _ | ⟨text, ts⟩
    · simp at ht
    simp only [List.map_cons, List.cons.injEq] at hc ht
    obtain ⟨hd', rfl, hcont⟩ := Option.bind_eq_some_iff.mp hc.1
    obtain ⟨t, rfl, hle, heq⟩ := textOf_le_contents hz hcont ht.1
    obtain ⟨hle', heq', _⟩ := ih hc.2 ht.2
    simp only [List.reduceOption_cons_of_some, List.flatten_cons, List.length_append]
    refine ⟨by omega, fun h => ?_, by simp⟩
    rw [List.forall_mem_cons]
    exact ⟨⟨hd', rfl, heq (by omega)⟩, heq' (by omega)⟩

/-- Blocks that are all taken over whole have contents, and these are their texts. -/
theorem texts_of_takenOver {z : Zlib} {inflate : Bytes → Option Bytes} (hz : z.Documented inflate)
    (blocks : List (Option HashData)) (hdata : ∀ hd ∈ blocks, ∀ hd' ∈ hd, HasData hd')
    (h : ∀ hd ∈ blocks, ∃ hd', hd = some hd' ∧ TakenOver z inflate hd') :
    ∃ cs : List Bytes, blocks.map (fun hd => hd.bind (contents inflate)) = cs.map some ∧
      blocks.map (textOfBlock z) = (cs.map some).map some ∧
      blocks.filterMap (fun hd => hd.bind (contents inflate)) = cs := by
  induction blocks with
  | nil => exact ⟨[], rfl, rfl, rfl⟩
  | cons hd blocks ih =>
    obtain ⟨cs, hc, ht, hf⟩ := ih (fun hd hmem => hdata hd (List.mem_cons_of_mem _ hmem))
      fun hd hmem => h hd (List.mem_cons_of_mem _ hmem)
    obtain ⟨hd', rfl, htaken⟩ := h hd List.mem_cons_self
    obtain ⟨c, hcont, htext⟩ := textOf_of_takenOver hz (hdata _ List.mem_cons_self hd' rfl) htaken
    refine ⟨c :: cs, ?_, ?_, ?_⟩
    · rw [List.map_cons, hc, Option.bind_some, hcont, List.map_cons]
    · rw [List.map_cons, ht, textOfBlock, htext, List.map_cons, List.map_cons]
    · simp [hcont, hf]

/-- A block adds nothing when it is no fault and has no text. -/
theorem addsNothing_iff {z : Zlib} {hd : Option HashData} (hdata : ∀ hd' ∈ hd, HasData hd') :
    AddsNothing hd ↔ textOfBlock z hd = some none := by
  cases hd with
  | none => simp [AddsNothing, textOfBlock]
  | some hd =>
    obtain ⟨data, hsome, _⟩ := hdata hd rfl
    simp only [AddsNothing, Option.mem_some, forall_eq', textOfBlock, textOf]
    split_ifs with hnone hzlib hwrap
    · simp [hnone, hsome]
    · simp [hzlib]
    · split <;> simp [hzlib]
    · simp [hnone, hzlib]

/-- There are no texts exactly when every block adds nothing. -/
theorem reduceOption_eq_nil_iff {z : Zlib} (blocks : List (Option HashData))
    (hdata : ∀ hd ∈ blocks, ∀ hd' ∈ hd, HasData hd') : ∀ {ts : List (Option Bytes)},
    blocks.map (textOfBlock z) = ts.map some → (ts.reduceOption = [] ↔ ∀ hd ∈ blocks, AddsNothing hd) := by
  induction blocks with
  | nil =>
    intro ts ht
    have hts : ts = [] := by simpa using ht
    simp [hts, List.reduceOption]
  | cons hd blocks ih =>
    intro ts ht
    rcases ts with _ | ⟨text, ts⟩
    · simp at ht
    simp only [List.map_cons, List.cons.injEq] at ht
    rw [List.forall_mem_cons, addsNothing_iff (z := z) (hdata hd List.mem_cons_self), ht.1,
      ← ih (fun hd hmem => hdata hd (List.mem_cons_of_mem _ hmem)) ht.2]
    cases text with
    | none => simp [List.reduceOption_cons_of_none]
    | some text => simp [List.reduceOption_cons_of_some]

/-- The bytes behind the length of a block are not sent. -/
theorem convertHashDataToJson_take {b : Bytes} {n : Int64} {h : Option Bytes} {cmptype : Int16} {uncmplen : Int64} :
    convertHashDataToJson (newHashDataAsIs (some b) n h cmptype uncmplen) =
      convertHashDataToJson (newHashDataAsIs (some (b.take n.toNatClampNeg)) n h cmptype uncmplen) := by
  simp only [convertHashDataToJson, newHashDataAsIs, gBase64Encode, List.take_take, min_self, ne_eq, reduceCtorEq,
    not_false_eq_true]

/-- The answer made of texts that are in the buffer is a block of `size` bytes. -/
theorem answer_of_holds {batch : Batch} {texts : List Bytes} (h : HoldsTexts batch texts) (hne : texts ≠ []) (aHash : Hash) :
    ∃ json hd, convertHashDataToString (newHashDataAsIs batch.finalBuffer batch.size.toUInt64.toInt64 (some aHash.bytes)
      COMPRESS_NONE_TYPE batch.size.toUInt64.toInt64) = some json ∧ convertJsonToHashData json = some hd ∧
      hd.read.toInt = batch.size.toNat ∧ hd.data = batch.finalBuffer.map (List.take batch.size.toNat) := by
  obtain ⟨b, hbuffer, hlt, _, _⟩ := h.something hne
  have hsmall := batch.size.toNat_lt
  have hint : batch.size.toUInt64.toInt64.toInt = batch.size.toNat := by
    rw [← UInt64.ofNat_toNat (x := batch.size.toUInt64), UInt32.toNat_toUInt64, UInt64.toInt64_ofNat',
      Int64.toInt_ofNat_of_lt (by omega)]
  obtain ⟨_, _, hclamp, _⟩ := length_int64 hint
  have hblock : (newHashDataAsIs (some (b.take batch.size.toNat)) batch.size.toUInt64.toInt64 (some aHash.bytes)
      COMPRESS_NONE_TYPE batch.size.toUInt64.toInt64).IsBlock aHash (b.take batch.size.toNat) := by
    refine ⟨rfl, rfl, ?_⟩
    rw [newHashDataAsIs, hint, List.length_take, min_eq_left (le_of_lt hlt)]
  obtain ⟨json, hjson, hback⟩ := convertJsonToHashData_of_isBlock hblock
  refine ⟨json, _, ?_, hback, hint, by rw [hbuffer]; rfl⟩
  rw [convertHashDataToString, hbuffer, convertHashDataToJson_take, hclamp, ← convertHashDataToString,
    convertHashDataToString_eq hblock, hjson]

end BatchAux

open BatchAux

/-- Texts that are in the buffer make an answer that is exact just when all blocks are taken over whole and short enough. -/
theorem isBatchOf_iff {z : Zlib} {inflate : Bytes → Option Bytes} (hz : z.Documented inflate)
    {blocks : List (Option HashData)} (hdata : ∀ hd ∈ blocks, ∀ hd' ∈ hd, HasData hd') {ts : List (Option Bytes)}
    (hts : blocks.map (textOfBlock z) = ts.map some) {batch : Batch} (h : HoldsTexts batch ts.reduceOption)
    (hne : ts.reduceOption ≠ []) {json : Json} {hd : HashData} (hback : convertJsonToHashData json = some hd)
    (hread : hd.read.toInt = batch.size.toNat) (hbuffer : hd.data = batch.finalBuffer.map (List.take batch.size.toNat)) :
    IsBatchOf inflate blocks json ↔ WholeBatch z inflate blocks := by
  obtain ⟨b, hb, _, hmod, hexact⟩ := h.something hne
  constructor
  · rintro ⟨cs, hcs, hd', hback', _, hread'⟩
    rw [hback, Option.some.injEq] at hback'
    rw [← hback', hread, Nat.cast_inj] at hread'
    obtain ⟨hle, htaken, _⟩ := texts_le_contents hz blocks hcs hts
    have hlen : ts.reduceOption.flatten.length = cs.flatten.length := by omega
    refine ⟨htaken hlen, ?_⟩
    obtain ⟨cs', hcs', _, hfilter⟩ := texts_of_takenOver hz blocks hdata (htaken hlen)
    have hsame : cs' = cs := List.map_injective_iff.mpr (Option.some_injective _) (hcs'.symm.trans hcs)
    rw [hfilter, hsame]
    omega
  · rintro ⟨htaken, hfits⟩
    obtain ⟨cs, hcs, htexts, hfilter⟩ := texts_of_takenOver hz blocks hdata htaken
    have hall : ts = cs.map some :=
      List.map_injective_iff.mpr (Option.some_injective _) (hts.symm.trans htexts)
    have hreduce : ts.reduceOption = cs := by simp [hall, List.reduceOption]
    rw [hfilter] at hfits
    rw [hreduce] at hmod hexact
    have hsize : batch.size.toNat = cs.flatten.length := by omega
    refine ⟨cs, hcs, hd, hback, ?_, by rw [hread, hsize]⟩
    rw [hbuffer, hb, hexact hfits, hsize, Option.map_some, List.take_left']
    rfl

/-- The answer is exact or an error exactly when all blocks are there, are taken over whole and are shorter than 2^32 bytes
together, or when none of them adds anything. -/
theorem exactOrError_iff (sha256 : Bytes → Hash) {z : Zlib} {inflate : Bytes → Option Bytes} (hz : z.Documented inflate)
    (retrieveData : Option CString → Option HashData) (hdata : ∀ hex hd, retrieveData hex = some hd → HasData hd)
    (header : Option CString) :
    ExactOrError inflate (requestedBlocks retrieveData header) (getDataFromAListOfHashs sha256 z retrieveData header) ↔
      WholeBatch z inflate (requestedBlocks retrieveData header) ∨
        ∀ hd ∈ requestedBlocks retrieveData header, AddsNothing hd := by
  have hblocks : ∀ hd ∈ requestedBlocks retrieveData header, ∀ hd' ∈ hd, HasData hd' := by
    intro hd hmem hd' hd'mem
    obtain ⟨headerHd, _, rfl⟩ := List.mem_map.mp hmem
    exact hdata _ _ hd'mem
  rw [getDataFromAListOfHashs]
  generalize requestedBlocks retrieveData header = blocks at hblocks ⊢
  rcases addBlocks_spec hz blocks hblocks holdsTexts_start with ⟨⟨hd, hmem, hfault⟩, hadd⟩ | ⟨ts, hts, batch, hadd, hholds⟩
  · rw [hadd]
    refine ⟨False.elim, fun h => ?_⟩
    rcases h with ⟨htaken, _⟩ | hnothing
    · obtain ⟨hd', rfl, hd'taken⟩ := htaken hd hmem
      obtain ⟨c, _, htext⟩ := textOf_of_takenOver hz (hblocks _ hmem hd' rfl) hd'taken
      exact absurd (hfault.symm.trans htext) (by simp)
    · have htext := (addsNothing_iff (z := z) (hblocks hd hmem)).mp (hnothing hd hmem)
      exact absurd (hfault.symm.trans htext) (by simp)
  · rw [hadd, Option.map_some]
    rw [List.nil_append] at hholds
    rw [← reduceOption_eq_nil_iff blocks hblocks hts]
    by_cases hnil : ts.reduceOption = []
    · obtain ⟨hbuffer, hsize⟩ := hholds.nothing hnil
      simp [hnil, hbuffer, ExactOrError, convertHashDataToString, convertHashDataToJson, newHashDataAsIs]
    · obtain ⟨json, hd, hjson, hback, hread, hdataEq⟩ :=
        answer_of_holds hholds hnil (sha256 ((batch.finalBuffer.getD []).take batch.size.toNat))
      simp only [hjson, ExactOrError, hnil, or_false]
      exact isBatchOf_iff hz hblocks hts hholds hnil hback hread hdataEq

/-- What zlib makes of the text "ab". -/
def deflatedAb : Bytes := [120, 156, 75, 76, 2, 0, 1, 38, 0, 196]

/-- Zlib, as far as it is about the compressed text of "ab"; without room it is an error. -/
def abZlib : Zlib where
  compress2 := fun _ => deflatedAb
  uncompress := fun src n =>
    if src = deflatedAb ∧ 0 < n then (if 2 ≤ n then .ok else .bufError, (str "ab").take n) else (.otherError, [])

/-- The text that the compressed text of "ab" stands for. -/
def abInflate (src : Bytes) : Option Bytes := if src = deflatedAb then some (str "ab") else none

/-- On the compressed text of "ab" zlib does what it is documented to do. -/
theorem documented_abZlib : abZlib.Documented abInflate where
  room := fun src n => by
    simp only [abZlib]
    split_ifs <;> simp [List.length_take]
  ok := fun src n _ h => by
    simp only [abZlib] at h ⊢
    split_ifs at h ⊢ with hsrc hroom
    rw [abInflate, if_pos hsrc.1, List.take_of_length_le hroom]
  bufError := fun src n text h htext => by
    simp only [abZlib] at h ⊢
    split_ifs at h ⊢ with hsrc hroom
    rw [abInflate, if_pos hsrc.1, Option.some.injEq] at htext
    refine ⟨(str "ab").drop n, fun hnil => ?_, by rw [← htext, List.take_append_drop]⟩
    have hlen := congrArg List.length hnil
    rw [List.length_drop] at hlen
    have : (str "ab").length = 2 := by decide
    simp only [List.length_nil] at hlen
    omega

/-- A store with one block, the text "ab", compressed. -/
def abStore (hex : Option CString) : Option HashData :=
  if hex = hashToString (some (List.replicate 32 7)) then
    some (newHashDataAsIs (some deflatedAb) 10 (some (List.replicate 32 7)) COMPRESS_ZLIB_TYPE 2)
  else none

/-- The store gives data with their length. -/
theorem hasData_abStore (hex : Option CString) (hd : HashData) (h : abStore hex = some hd) : HasData hd := by
  rw [abStore] at h
  split_ifs at h
  rw [Option.some.injEq] at h
  exact ⟨deflatedAb, by rw [← h]; rfl, by rw [← h]; rfl⟩

/-- The text of a header that asks for blocks. -/
def headerOf (hs : List Hash) : Option CString := (hashsText hs).map CString.ofBytes

/-- A digest that is the same for all texts. -/
def someDigest (_ : Bytes) : Hash := ⟨List.replicate 32 0, rfl⟩

/-- The blocks of a request for the one that is in the store, and before it one that is not. -/
theorem requestedBlocks_abStore :
    requestedBlocks abStore (headerOf [⟨List.replicate 32 7, rfl⟩]) = [abStore (hashToString (some (List.replicate 32 7)))] ∧
    requestedBlocks abStore (headerOf [⟨List.replicate 32 8, rfl⟩, ⟨List.replicate 32 7, rfl⟩]) =
      [none, abStore (hashToString (some (List.replicate 32 7)))] := by
  decide

/-- The answer for the block that is in the store is exact. -/
theorem storedBlock_exactOrError :
    ExactOrError abInflate (requestedBlocks abStore (headerOf [⟨List.replicate 32 7, rfl⟩]))
      (getDataFromAListOfHashs someDigest abZlib abStore (headerOf [⟨List.replicate 32 7, rfl⟩])) := by
  refine (exactOrError_iff someDigest documented_abZlib abStore hasData_abStore _).mpr (Or.inl ?_)
  rw [requestedBlocks_abStore.1]
  refine ⟨fun hd hmem => ⟨_, List.mem_singleton.mp hmem, Or.inr (by decide)⟩, by decide⟩

/-- A block that is not in the store is left out, and the answer is the block behind it. -/
theorem missingBlock_leftOut :
    ¬ ExactOrError abInflate
      (requestedBlocks abStore (headerOf [⟨List.replicate 32 8, rfl⟩, ⟨List.replicate 32 7, rfl⟩]))
      (getDataFromAListOfHashs someDigest abZlib abStore
        (headerOf [⟨List.replicate 32 8, rfl⟩, ⟨List.replicate 32 7, rfl⟩])) := by
  rw [getDataFromAListOfHashs, requestedBlocks_abStore.2]
  have hadd : addBlocks abZlib ⟨none, 0⟩ [none, abStore (hashToString (some (List.replicate 32 7)))] =
      some ⟨some (str "ab" ++ [0]), 2⟩ := by decide
  have htexts : HoldsTexts ⟨some (str "ab" ++ [0]), 2⟩ [str "ab"] :=
    ⟨by simp, fun _ => ⟨_, rfl, by decide, by decide, fun _ => rfl⟩⟩
  obtain ⟨json, _, hjson, _⟩ := answer_of_holds htexts (by simp) (someDigest (str "ab"))
  intro hexact
  simp only [hadd, Option.map_some] at hexact
  simp only [someDigest] at hjson hexact
  rw [hjson] at hexact
  obtain ⟨texts, hall, _⟩ := hexact
  rcases texts with _ | ⟨text, texts⟩
  · simp at hall
  · simp at hall

end Sauvegarde
