import Sauvegarde.Theorems.BigFile
import Sauvegarde.Theorems.BlockStore

/-!
# Every requested block is posted once

What `send_all_data_to_server` and `send_data_to_server` post for an answer of the server: exactly the blocks it asks for, in its
order, as long as the `gint` that the first of them counts in does not overflow.
-/

namespace Sauvegarde

/-- The requests of a run are these bodies, posted one after the other; a body is kept for later just when its post fails. -/
inductive Delivered (url : String) : List Json → List ClientEvent → Prop where
  | nil : Delivered url [] []
  | posted {bodies : List Json} {trace : List ClientEvent} (body answer : Json) (held : List HashData) :
      Delivered url bodies trace → Delivered url (body :: bodies) (⟨.postUrl url (some body) held, some answer⟩ :: trace)
  | kept {bodies : List Json} {trace : List ClientEvent} (body : Json) (held : List HashData) :
      Delivered url bodies trace → Delivered url (body :: bodies)
        (⟨.postUrl url (some body) held, (none : Option Json)⟩ :: ⟨.dbSaveBuffer url (some body) held, ()⟩ :: trace)

/-- The blocks that a request brings to the server; they do not depend on what it has. -/
def broughtBlocks (url : String) (body : Json) : List HashData :=
  (processReceivedData none (fun _ => none) url body).dataQueue

/-- The blocks are delivered in requests of one or more of them. -/
def DeliveredInBatches (blocks : List HashData) (trace : List ClientEvent) : Prop :=
  ∃ bodies, Delivered "/Data_Array.json" bodies trace ∧ bodies.flatMap (broughtBlocks "/Data_Array.json") = blocks ∧
    ∀ body ∈ bodies, broughtBlocks "/Data_Array.json" body ≠ []

/-- The blocks are delivered in a request each. -/
def DeliveredOneByOne (blocks : List HashData) (trace : List ClientEvent) : Prop :=
  ∃ bodies, Delivered "/Data.json" bodies trace ∧ bodies.map (broughtBlocks "/Data.json") = blocks.map fun hd => [hd]

/-- An answer asks for blocks of a list: it lists hashs of the list, each at most as often as the list has it. -/
def AsksForBlocks (answer : Json) (list : List HashData) (gs : List Hash) : Prop :=
  HashsAre (listedHashs answer) gs ∧ ∃ hs, HashsAre list hs ∧ gs.Subperm hs

/-- Whatever blocks of the list an answer asks for, `send_all_data_to_server` posts them, and the sum that it counts in a `gint` fits
from one flush to the next. -/
def PostsRequested (main : MainStruct) (list : List HashData) : Prop :=
  ∀ answer gs, AsksForBlocks answer list gs → ∃ picked, HashsAre picked gs ∧ picked.Subperm list ∧
    Fits main.buffersize.toInt 0 (picked.map fun hd => hd.read.toInt) ∧
      (sendAllDataToServer main list (some answer)).AllRuns (· ≠ .crash) fun trace _ => DeliveredInBatches picked trace

namespace SendingAux

open SavingAux BigFileAux

/-! ## Requests -/

/-- More bodies are delivered. -/
theorem delivered_append {url : String} {bodies bodies' : List Json} {trace trace' : List ClientEvent}
    (h : Delivered url bodies trace) (h' : Delivered url bodies' trace') : Delivered url (bodies ++ bodies') (trace ++ trace') := by
  induction h with
  | nil => exact h'
  | posted body answer held _ ih => exact Delivered.posted body answer held ih
  | kept body held _ ih => exact Delivered.kept body held ih

/-- `insert_array_in_root_and_send` delivers one body, with the blocks of the array. -/
theorem insertArrayInRootAndSend_delivers {sent : List HashData} (hsent : AllBlocks sent) (hne : sent ≠ []) (held : List HashData) :
    (insertArrayInRootAndSend (blockArray sent) held).AllRuns (· ≠ .crash) fun trace _ => DeliveredInBatches sent trace := by
  obtain ⟨body, hbody, hqueue⟩ := dataArray_queue hsent
  have hone : ∀ trace, Delivered "/Data_Array.json" [body] trace → DeliveredInBatches sent trace := by
    intro trace h
    refine ⟨[body], h, ?_, ?_⟩
    · rw [List.flatMap_singleton, broughtBlocks, hqueue]
    · rw [List.forall_mem_singleton, broughtBlocks, hqueue]
      exact hne
  unfold insertArrayInRootAndSend
  rw [hbody]
  refine Prog.allRuns_call.mpr ⟨by simp, ?_⟩
  rintro (_ | answer)
  · exact Prog.allRuns_call.mpr ⟨by simp, fun _ => Prog.allRuns_ret.mpr (hone _ (Delivered.kept body held Delivered.nil))⟩
  · exact Prog.allRuns_ret.mpr (hone _ (Delivered.posted body answer held Delivered.nil))

/-- Nothing is delivered without a request. -/
theorem deliveredInBatches_nil : DeliveredInBatches [] [] := ⟨[], Delivered.nil, rfl, fun _ hbody => absurd hbody List.not_mem_nil⟩

/-- Batches after batches. -/
theorem deliveredInBatches_append {blocks blocks' : List HashData} {trace trace' : List ClientEvent}
    (h : DeliveredInBatches blocks trace) (h' : DeliveredInBatches blocks' trace') :
    DeliveredInBatches (blocks ++ blocks') (trace ++ trace') := by
  obtain ⟨bodies, hdelivered, hblocks, hne⟩ := h
  obtain ⟨bodies', hdelivered', hblocks', hne'⟩ := h'
  refine ⟨bodies ++ bodies', delivered_append hdelivered hdelivered', ?_, fun body hbody => ?_⟩
  · rw [List.flatMap_append, hblocks, hblocks']
  · exact (List.mem_append.mp hbody).elim (hne body) (hne' body)

/-! ## The loops -/

/-- The loop of `send_all_data_to_server`, as long as the counter fits. -/
theorem sendAllLoop_delivers {limit : Int64} {hashList : List HashData} :
    ∀ {list sent picked : List HashData} {bytes : Int32}, AllBlocks list → AllBlocks sent →
      pickedBlocks list hashList = some picked → Fits limit.toInt bytes.toInt (picked.map fun hd => hd.read.toInt) →
      0 ≤ bytes.toInt → (sent ≠ [] ↔ 0 < bytes.toInt) →
      (sendAllLoop limit list (blockArray sent) bytes hashList).AllRuns (· ≠ .crash) fun trace rest =>
        rest = remainingBlocks list hashList ∧ DeliveredInBatches (sent ++ picked) trace := by
  induction hashList with
  | nil =>
    intro list sent picked bytes _ hsent hpicked _ _ hcounted
    obtain rfl := Option.some.inj hpicked
    rw [List.append_nil, sendAllLoop_nil hcounted]
    split
    · rename_i hnil
      rw [hnil]
      exact Prog.allRuns_ret.mpr ⟨rfl, deliveredInBatches_nil⟩
    · rename_i hne
      refine (insertArrayInRootAndSend_delivers hsent hne list).bind fun trace _ h => ?_
      refine Prog.allRuns_ret.mpr ⟨rfl, ?_⟩
      rwa [List.append_nil]
  | cons hashData hashList ih =>
    intro list sent picked bytes hlist hsent hpicked hfits hbytes _
    obtain ⟨found, picked, hfound, hmem, hpicked', rfl⟩ := pickedBlocks_cons hpicked
    have hread := hlist.read_pos hmem
    have hsent' := hlist.concat hsent hmem
    obtain ⟨bytes', hsum, hturn⟩ := sendAllLoop_cons limit sent hashList hfound hbytes hread.le hfits.1
    have hfits' := hfits.2
    have hmove : sent ++ found :: picked = (sent ++ [found]) ++ picked := by simp
    rw [hturn, hmove]
    rw [← hsum] at hfits'
    split
    · -- the array is flushed, and the counter starts again
      rename_i hflush
      rw [if_pos hflush] at hfits'
      have hfits0 : Fits limit.toInt (0 : Int32).toInt (picked.map fun hd => hd.read.toInt) := hfits'
      have hnext := ih (hlist.removed hashData.hash) allBlocks_nil hpicked' hfits0 (le_refl 0) (by simp)
      refine (insertArrayInRootAndSend_delivers hsent' (by simp) _).bind fun trace _ h => hnext.mono ?_
      rintro trace' rest ⟨hrest', h'⟩
      exact ⟨hrest', deliveredInBatches_append h h'⟩
    · rename_i hflush
      rw [if_neg hflush] at hfits'
      have hpos : 0 < bytes'.toInt := by omega
      exact ih (hlist.removed _) hsent' hpicked' hfits' hpos.le (iff_of_true (by simp) hpos)

/-- The loop of `send_data_to_server`. -/
theorem sendLoop_delivers {hashList : List HashData} : ∀ {list picked : List HashData}, AllBlocks list →
    pickedBlocks list hashList = some picked → (sendLoop list hashList).AllRuns (· ≠ .crash) fun trace rest =>
      rest = remainingBlocks list hashList ∧ DeliveredOneByOne picked trace := by
  induction hashList with
  | nil =>
    intro list picked _ hpicked
    obtain rfl := Option.some.inj hpicked
    exact Prog.allRuns_ret.mpr ⟨rfl, [], Delivered.nil, rfl⟩
  | cons hashData hashList ih =>
    intro list picked hlist hpicked
    obtain ⟨found, picked, hfound, hmem, hpicked', rfl⟩ := pickedBlocks_cons hpicked
    obtain ⟨g, data, hblock, _⟩ := hlist found hmem
    obtain ⟨body, hbody, hqueue⟩ := data_queue hblock
    have hnext := ih (hlist.removed hashData.hash) hpicked'
    unfold sendLoop
    rw [hfound]
    simp only [hbody]
    refine Prog.allRuns_call.mpr ⟨by simp, ?_⟩
    rintro (_ | answer)
    · refine Prog.allRuns_call.mpr ⟨by simp, fun _ => hnext.mono ?_⟩
      rintro trace rest ⟨hrest', bodies, hdelivered, hblocks⟩
      refine ⟨hrest', body :: bodies, Delivered.kept body list hdelivered, ?_⟩
      rw [List.map_cons, hblocks, broughtBlocks, hqueue, List.map_cons]
    · refine hnext.mono ?_
      rintro trace rest ⟨hrest', bodies, hdelivered, hblocks⟩
      refine ⟨hrest', body :: bodies, Delivered.posted body answer list hdelivered, ?_⟩
      rw [List.map_cons, hblocks, broughtBlocks, hqueue, List.map_cons]

/-! ## The functions -/

/-- `send_all_data_to_server`, when the sum of the lengths fits. -/
theorem sendAllDataToServer_delivers {main : MainStruct} {list picked : List HashData} {answer : Json} (hlist : AllBlocks list)
    (hpicked : pickedBlocks list (listedHashs answer) = some picked)
    (hfits : Fits main.buffersize.toInt 0 (picked.map fun hd => hd.read.toInt)) :
    (sendAllDataToServer main list (some answer)).AllRuns (· ≠ .crash) fun trace rest =>
      rest = remainingBlocks list (listedHashs answer) ∧ DeliveredInBatches picked trace := by
  rw [sendAllDataToServer_eq main hpicked]
  rw [← Int32.toInt_toInt64] at hfits
  exact sendAllLoop_delivers hlist allBlocks_nil hpicked hfits (le_refl 0) (by simp)

/-- `send_data_to_server`. -/
theorem sendDataToServer_delivers {list picked : List HashData} {answer : Json} (hlist : AllBlocks list)
    (hpicked : pickedBlocks list (listedHashs answer) = some picked) :
    (sendDataToServer list (some answer)).AllRuns (· ≠ .crash) fun trace rest =>
      rest = remainingBlocks list (listedHashs answer) ∧ DeliveredOneByOne picked trace := by
  rw [sendDataToServer_eq hpicked]
  exact sendLoop_delivers hlist hpicked

/-- The lengths of blocks are not negative. -/
theorem read_nonneg {list : List HashData} (hlist : AllBlocks list) : ∀ r ∈ list.map (fun hd => hd.read.toInt), 0 ≤ r := by
  intro r hr
  obtain ⟨hd, hhd, rfl⟩ := List.mem_map.mp hr
  exact (hlist.read_pos hhd).le

end SendingAux

open SendingAux BigFileAux

/-- For blocks of less than 2^31 bytes together, and an answer that asks for some of them, no requested block is missing; both functions
deliver the requested blocks, each once and in the order of the answer, and give back the others. -/
theorem requestedBlocks_postedOnce (main : MainStruct) {list : List HashData} (hblocks : AllBlocks list)
    (hlength : totalRead list < 2 ^ 31) {answer : Json} {gs : List Hash} (hanswer : AsksForBlocks answer list gs) :
    ∃ picked rest, HashsAre picked gs ∧ (picked ++ rest).Perm list ∧ rest.Sublist list ∧
      (sendAllDataToServer main list (some answer)).AllRuns (· ≠ .crash)
        (fun trace left => left = rest ∧ DeliveredInBatches picked trace) ∧
      (sendDataToServer list (some answer)).AllRuns (· ≠ .crash)
        (fun trace left => left = rest ∧ DeliveredOneByOne picked trace) := by
  obtain ⟨hlisted, hs, hhashs, hsub⟩ := hanswer
  obtain ⟨picked, hpicked, hgs⟩ := pickedBlocks_of_subperm hhashs hlisted hsub
  have hperm := perm_pickedBlocks hpicked
  have hsum : totalRead picked + totalRead (remainingBlocks list (listedHashs answer)) = totalRead list := by
    rw [totalRead, totalRead, totalRead, ← List.sum_append, ← List.map_append, (hperm.map _).sum_eq]
  have hall : ∀ hd ∈ picked ++ remainingBlocks list (listedHashs answer), ∃ h bytes, hd.IsBlock h bytes ∧ 0 < bytes.length :=
    fun hd hhd => hblocks hd (hperm.subset hhd)
  have hrest : 0 ≤ totalRead (remainingBlocks list (listedHashs answer)) :=
    List.sum_nonneg (read_nonneg fun hd hhd => hall hd (List.mem_append_right _ hhd))
  have hpos := read_nonneg fun hd hhd => hall hd (List.mem_append_left _ hhd)
  have htotal : 0 + (picked.map fun hd => hd.read.toInt).sum < 2 ^ 31 := by
    rw [totalRead] at hsum
    omega
  have hfits := fits_of_sum_lt main.buffersize_pos.le hpos htotal le_rfl
  exact ⟨picked, remainingBlocks list (listedHashs answer), hgs, hperm, sublist_remainingBlocks _ _,
    sendAllDataToServer_delivers hblocks hpicked hfits, sendDataToServer_delivers hblocks hpicked⟩

/-- An answer that asks for a block. -/
def sevensAnswer : Json := hashListRoot (convertHashListToJson [plainBlock])

/-- Of two blocks with the same hash one is delivered when it is asked for once, and the other one is given back. -/
theorem sevensAnswer_postedOnce :
    (sendDataToServer [plainBlock, plainBlock] (some sevensAnswer)).AllRuns (· ≠ .crash)
      (fun trace left => left = [plainBlock] ∧ DeliveredOneByOne [plainBlock] trace) := by
  have hblocks : AllBlocks [plainBlock, plainBlock] := by
    intro hd hhd
    obtain rfl : hd = plainBlock := by simpa using hhd
    exact ⟨sevens, str "text", ⟨rfl, rfl, rfl⟩, by decide⟩
  have hanswer : AsksForBlocks sevensAnswer [plainBlock, plainBlock] [sevens] :=
    ⟨listedHashs_hashListRoot rfl, [sevens, sevens], rfl, List.singleton_subperm_iff.mpr List.mem_cons_self⟩
  obtain ⟨picked, rest, hpicked, hperm, _, _, hruns⟩ :=
    requestedBlocks_postedOnce defaultMain hblocks (show totalRead [plainBlock, plainBlock] < 2 ^ 31 by decide) hanswer
  have hall : picked ++ rest = List.replicate 2 plainBlock := List.perm_replicate.mp hperm
  have hone : picked.length = 1 := by simpa using congrArg List.length hpicked
  obtain ⟨hd, rfl⟩ := List.length_eq_one_iff.mp hone
  obtain ⟨rfl, rfl⟩ : hd = plainBlock ∧ rest = [plainBlock] := by simpa using hall
  exact hruns

/-! ## The counter -/

namespace SendingAux

variable {sha256 : Bytes → Hash} {z : Zlib} {main : MainStruct}

/-- The blocks of the lists are made of buffers of the file. -/
theorem mem_handedLists (failed : Bool) (reads : List Bytes) : ∀ {list : List HashData} {readBytes : UInt64},
    ∀ batch ∈ handedLists sha256 z main failed reads list readBytes, ∀ hd ∈ batch,
      hd ∈ list ∨ ∃ buffer ∈ reads, hd = hashDataOfBuffer sha256 z main.cmptype buffer := by
  induction reads with
  | nil =>
    intro list readBytes batch hbatch hd hhd
    rw [handedLists] at hbatch
    split at hbatch
    · exact Or.inl (List.mem_singleton.mp hbatch ▸ hhd)
    · exact absurd hbatch List.not_mem_nil
  | cons buffer reads ih =>
    intro list readBytes batch hbatch hd hhd
    have hcons : hd ∈ hashDataOfBuffer sha256 z main.cmptype buffer :: list →
        hd ∈ list ∨ ∃ buffer' ∈ buffer :: reads, hd = hashDataOfBuffer sha256 z main.cmptype buffer' := by
      intro hmem
      rcases List.mem_cons.mp hmem with heq | hmem
      · exact Or.inr ⟨buffer, List.mem_cons_self, heq⟩
      · exact Or.inl hmem
    have hlater : (∃ buffer' ∈ reads, hd = hashDataOfBuffer sha256 z main.cmptype buffer') →
        ∃ buffer' ∈ buffer :: reads, hd = hashDataOfBuffer sha256 z main.cmptype buffer' := by
      rintro ⟨buffer', hbuffer', heq⟩
      exact ⟨buffer', List.mem_cons_of_mem _ hbuffer', heq⟩
    unfold handedLists at hbatch
    dsimp only at hbatch
    split at hbatch
    · rcases List.mem_cons.mp hbatch with rfl | hbatch
      · exact hcons hhd
      · rcases ih batch hbatch hd hhd with hnil | hread
        · exact absurd hnil List.not_mem_nil
        · exact Or.inr (hlater hread)
    · rcases ih batch hbatch hd hhd with hmem | hread
      · exact hcons hmem
      · exact Or.inr (hlater hread)

/-- So it is for a whole file. -/
theorem mem_handed {source : FileSource} : ∀ list ∈ source.handed sha256 z main, ∀ hd ∈ list,
    ∃ buffer ∈ source.blocks, hd = hashDataOfBuffer sha256 z main.cmptype buffer := by
  intro list hlist hd hhd
  unfold FileSource.handed at hlist
  split at hlist
  · rcases mem_handedLists _ _ list hlist hd hhd with hnil | ⟨buffer, hbuffer, heq⟩
    · exact absurd hnil List.not_mem_nil
    · exact ⟨buffer, source.mem_blocks_of_mem_reads hbuffer, heq⟩
  · exact absurd hlist List.not_mem_nil

/-- Two lists with the same hashs are the same when a hash stands for one block only. -/
theorem eq_of_hashs_eq {list : List HashData} (hone : ∀ a ∈ list, ∀ b ∈ list, a.hash = b.hash → a = b) :
    ∀ {l l' : List HashData}, (∀ a ∈ l, a ∈ list) → (∀ a ∈ l', a ∈ list) →
      l.map HashData.hash = l'.map HashData.hash → l = l' := by
  intro l
  induction l with
  | nil =>
    intro l' _ _ heq
    exact (List.map_eq_nil_iff.mp heq.symm).symm
  | cons a l ih =>
    intro l' hl hl' heq
    rcases l' with _ | ⟨a', l'⟩
    · simp at heq
    · simp only [List.map_cons, List.cons.injEq] at heq
      obtain ⟨ha, hl⟩ := List.forall_mem_cons.mp hl
      obtain ⟨ha', hl'⟩ := List.forall_mem_cons.mp hl'
      rw [hone a ha a' ha' heq.1, ih hl hl' heq.2]

/-- An answer can ask for any blocks of a list, in any order. -/
theorem asksForBlocks_of_subperm {list selection : List HashData} (hlist : AllBlocks list) (hsub : selection.Subperm list) :
    ∃ gs, HashsAre selection gs ∧ AsksForBlocks (hashListRoot (convertHashListToJson selection)) list gs := by
  have hhashed : ∀ {l : List HashData}, (∀ hd ∈ l, hd ∈ list) → ∃ hs, HashsAre l hs := fun hl => by
    refine AllHashed.exists_hashs fun hd hhd => ?_
    obtain ⟨h, bytes, hblock, _⟩ := hlist hd (hl hd hhd)
    exact ⟨h, hblock.hash⟩
  obtain ⟨hs, hhs⟩ := hhashed fun _ hhd => hhd
  obtain ⟨gs, hgs⟩ := hhashed fun hd hhd => hsub.subset hhd
  have hinj : Function.Injective fun h : Hash => some h.bytes := fun a b heq => Hash.ext (Option.some.inj heq)
  refine ⟨gs, hgs, listedHashs_hashListRoot hgs, hs, hhs, ?_⟩
  obtain ⟨part, hperm, hpart⟩ := hsub
  have hmap : (selection.map HashData.hash).Subperm (list.map HashData.hash) :=
    ⟨part.map HashData.hash, hperm.map _, hpart.map _⟩
  rw [show selection.map HashData.hash = _ from hgs, show list.map HashData.hash = _ from hhs] at hmap
  exact (List.map_subperm_map_iff hinj).mp hmap

/-- Blocks that stay below the limit of the counter are posted. -/
theorem postsRequested_of_staysBelow {list : List HashData} (hlist : AllBlocks list)
    (h : StaysBelow main.buffersize.toInt list) : PostsRequested main list := by
  rintro answer gs ⟨hlisted, hs, hhashs, hsub⟩
  obtain ⟨picked, hpicked, hgs⟩ := pickedBlocks_of_subperm hhashs hlisted hsub
  have hpart : picked.Subperm list := (List.sublist_append_left picked _).subperm.trans (perm_pickedBlocks hpicked).subperm
  have hfits : Fits main.buffersize.toInt (totalRead []) (picked.map fun hd => hd.read.toInt) :=
    fits_of_staysBelow main.buffersize_pos h picked hpart main.buffersize_pos
  refine ⟨picked, hgs, hpart, hfits, ?_⟩
  exact (sendAllDataToServer_delivers hlist hpicked hfits).mono fun _ _ hrun => hrun.2

/-- Blocks that are posted whatever is asked for stay below the limit, when a hash stands for one block only. -/
theorem staysBelow_of_postsRequested {list : List HashData} (hlist : AllBlocks list)
    (hone : ∀ a ∈ list, ∀ b ∈ list, a.hash = b.hash → a = b) (h : PostsRequested main list) :
    StaysBelow main.buffersize.toInt list := by
  intro selection hd hsub hshort
  obtain ⟨gs, hgs, hasks⟩ := asksForBlocks_of_subperm hlist hsub
  obtain ⟨picked, hpicked, hpart, hfits, _⟩ := h _ gs hasks
  have hsame : picked = selection ++ [hd] :=
    eq_of_hashs_eq hone (fun a ha => hpart.subset ha) (fun a ha => hsub.subset ha)
      ((show picked.map HashData.hash = _ from hpicked).trans (show _ = (selection ++ [hd]).map HashData.hash from hgs.symm))
  have hpos := read_nonneg fun a ha => hlist a (hsub.subset (List.mem_append_left [hd] ha))
  rw [hsame, List.map_append, List.map_singleton] at hfits
  have hlt := lt_of_fits hpos (by rwa [zero_add]) hfits
  rwa [zero_add] at hlt

end SendingAux

/-- What SHA-256 promises of the blocks of a file: different blocks have different hashs. -/
def TellsApart (sha256 : Bytes → Hash) (blocks : List Bytes) : Prop := ∀ a ∈ blocks, ∀ b ∈ blocks, sha256 a = sha256 b → a = b

/-- With a block size and a buffer size, and for a file whose blocks SHA-256 tells apart, the counter never overflows and every requested
block is posted exactly when, in each list that is handed over, no block reaches 2^31 bytes together with other blocks of the list that
are shorter than the buffer size. -/
theorem postsRequested_iff (sha256 : Bytes → Hash) {z : Zlib} (hz : z.Writes) (main : MainStruct) {source : FileSource}
    (hone : TellsApart sha256 source.blocks) :
    (∀ list ∈ source.handed sha256 z main, PostsRequested main list) ↔
      ∀ list ∈ source.handed sha256 z main, StaysBelow main.buffersize.toInt list := by
  have hblocks : ∀ list ∈ source.handed sha256 z main, AllBlocks list := by
    intro list hlist hd hhd
    obtain ⟨buffer, hbuffer, rfl⟩ := mem_handed list hlist hd hhd
    exact ⟨sha256 buffer, isBlock_hashDataOfBuffer sha256 hz main.cmptype_allowed (source.blocks_len buffer hbuffer)⟩
  refine ⟨fun h list hlist => ?_, fun h list hlist => postsRequested_of_staysBelow (hblocks list hlist) (h list hlist)⟩
  refine staysBelow_of_postsRequested (hblocks list hlist) (fun a ha b hb heq => ?_) (h list hlist)
  obtain ⟨buffer, hbuffer, rfl⟩ := mem_handed list hlist a ha
  obtain ⟨buffer', hbuffer', rfl⟩ := mem_handed list hlist b hb
  rw [hash_hashDataOfBuffer, hash_hashDataOfBuffer, Option.some.injEq] at heq
  rw [hone buffer hbuffer buffer' hbuffer' (Hash.ext heq)]

/-- The one block of a small file stays below. -/
theorem helloFile_postsRequested :
    PostsRequested defaultMain [hashDataOfBuffer zeroDigest storingZlib COMPRESS_NONE_TYPE (str "hello")] := by
  have hone : TellsApart zeroDigest (helloFile true).source.blocks := by
    intro a ha b hb _
    rw [List.mem_singleton.mp ha, List.mem_singleton.mp hb]
  have hhanded : (helloFile true).source.handed zeroDigest storingZlib defaultMain =
      [[hashDataOfBuffer zeroDigest storingZlib COMPRESS_NONE_TYPE (str "hello")]] := by decide
  refine (postsRequested_iff zeroDigest storingZlib_writes defaultMain hone).mpr ?_ _ (hhanded ▸ List.mem_singleton_self _)
  intro list hlist selection hd hsub _
  rw [hhanded] at hlist
  obtain rfl := List.mem_singleton.mp hlist
  have hlength := hsub.length_le
  obtain rfl : selection = [] := List.length_eq_zero_iff.mp (by simpa using hlength)
  obtain rfl := List.mem_singleton.mp (hsub.subset List.mem_cons_self)
  decide

/-- The greatest buffer size that the options take. -/
def greatestMain : MainStruct := { defaultMain with buffersize := 2147483647, buffersize_pos := by decide }

/-- Two blocks of one GiB are blocks that a file can have. -/
theorem SendingAux.hugeBlocks_len {block : Bytes} (hblock : block.length = 1073741824) :
    ∀ b ∈ [block, block], 0 < b.length ∧ b.length < 2 ^ 63 := by
  simp [hblock]

/-- A file that is read in two blocks of one GiB. -/
def hugeSource (block : Bytes) (hblock : block.length = 1073741824) : FileSource :=
  ⟨true, [block, block], none, SendingAux.hugeBlocks_len hblock⟩

namespace SendingAux

/-- Both blocks are handed over in one list. -/
theorem handed_hugeSource (sha256 : Bytes → Hash) (z : Zlib) {block : Bytes} (hblock : block.length = 1073741824) :
    (hugeSource block hblock).handed sha256 z greatestMain =
      [List.replicate 2 (hashDataOfBuffer sha256 z COMPRESS_NONE_TYPE block)] := by
  have hfull : greatestMain.isFull (0 + UInt64.ofNat block.length) = false := by
    rw [hblock]
    decide
  have hfull' : greatestMain.isFull (0 + UInt64.ofNat block.length + UInt64.ofNat block.length) = true := by
    rw [hblock]
    decide
  simp only [FileSource.handed, hugeSource, FileSource.reads, handedLists, hfull, hfull', if_true, Bool.false_eq_true, if_false,
    Option.isSome_none]
  rfl

/-- The counter wraps at the second block: nothing is sent. -/
theorem sendAllLoop_overflow {hd e e' : HashData} (hread : hd.read = 1073741824) (he : isHash e.hash hd = true)
    (he' : isHash e'.hash hd = true) : sendAllLoop 2147483647 [hd, hd] [] 0 [e, e'] = .ret [] := by
  have hfind : findHashInList [hd, hd] e.hash = some hd := List.find?_cons_of_pos he
  have hfind' : findHashInList [hd] e'.hash = some hd := List.find?_cons_of_pos he'
  have hremove : removeLink [hd, hd] e.hash = [hd] := List.eraseP_cons_of_pos he
  have hremove' : removeLink [hd] e'.hash = [] := List.eraseP_cons_of_pos he'
  rw [sendAllLoop, hfind, hremove]
  simp only [hread]
  rw [if_neg (by decide), sendAllLoop, hfind', hremove']
  simp only [hread]
  rw [if_neg (by decide), sendAllLoop, if_neg (by decide)]
  rfl

/-- When both blocks are asked for, nothing is sent. -/
theorem sendAllDataToServer_overflow {hd : HashData} {h : Hash} (hread : hd.read = 1073741824) (hhash : hd.hash = some h.bytes) :
    sendAllDataToServer greatestMain [hd, hd] (some (hashListRoot (convertHashListToJson [hd, hd]))) = .ret [] := by
  have hhashs : HashsAre [hd, hd] [h, h] := by
    rw [HashsAre, List.map_cons, List.map_cons, hhash]
    rfl
  have hlisted := listedHashs_hashListRoot hhashs
  unfold sendAllDataToServer
  simp only [Option.bind_some, Json.loads]
  rw [if_pos (by simp)]
  unfold listedHashs at hlisted
  generalize extractHashsFromArray (hashListRoot (convertHashListToJson [hd, hd])) "hash_list" = listed at hlisted
  obtain ⟨e, e', rfl⟩ : ∃ e e', listed = [e, e'] := List.length_eq_two.mp (by simpa using congrArg List.length hlisted)
  simp only [HashsAre, List.map_cons, List.map_nil, List.cons.injEq, and_true] at hlisted
  have hfound : ∀ e : HashData, e.hash = some h.bytes → isHash e.hash hd = true := by
    intro e he
    rw [he, isHash_eq hhash, decide_eq_true_eq]
  exact sendAllLoop_overflow hread (hfound e hlisted.1) (hfound e' hlisted.2)

/-- So the requested blocks are not posted. -/
theorem not_postsRequested {hd : HashData} {h : Hash} (hread : hd.read = 1073741824) (hhash : hd.hash = some h.bytes) :
    ¬ PostsRequested greatestMain [hd, hd] := by
  intro hposts
  have hhashs : HashsAre [hd, hd] [h, h] := by
    rw [HashsAre, List.map_cons, List.map_cons, hhash]
    rfl
  obtain ⟨picked, hpicked, _, _, hruns⟩ :=
    hposts _ [h, h] ⟨listedHashs_hashListRoot hhashs, [h, h], hhashs, List.Subperm.refl _⟩
  rw [sendAllDataToServer_overflow hread hhash] at hruns
  obtain ⟨bodies, hdelivered, hblocks, _⟩ := Prog.allRuns_ret.mp hruns
  cases hdelivered
  rw [← hblocks] at hpicked
  exact absurd (congrArg List.length hpicked) (by simp)

end SendingAux

/-- With the greatest buffer size the counter wraps at the second block of one GiB, and no block is posted. -/
theorem hugeBlocks_notPosted :
    ¬ ∀ list ∈ (hugeSource (List.replicate 1073741824 0) List.length_replicate).handed zeroDigest storingZlib greatestMain,
      PostsRequested greatestMain list := by
  rw [handed_hugeSource]
  intro h
  have hread : (hashDataOfBuffer zeroDigest storingZlib COMPRESS_NONE_TYPE (List.replicate 1073741824 0)).read = 1073741824 := by
    rw [hashDataOfBuffer, newHashData, List.length_replicate]
    rfl
  exact not_postsRequested hread (hash_hashDataOfBuffer zeroDigest COMPRESS_NONE_TYPE _) (h _ (List.mem_singleton_self _))

end Sauvegarde
