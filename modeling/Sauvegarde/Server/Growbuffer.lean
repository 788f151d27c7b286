import Sauvegarde.Extern.Glib
import Sauvegarde.Lib.Memory
import Sauvegarde.Lib.Ring

/-!
# Grow buffers

`growbuffer` of minio_interface.c: bytes in a ring of blocks that are allocated when they are needed and given back when they are
read. What malloc answers is a parameter: the address of a block, with what its memory holds. There is no result when a block is
used that is not allocated, or memory outside of its bytes.
-/

namespace Sauvegarde

open LinkedList (Store IsRing lastAddress firstAddress)

/-- `sizeof(buf->data)`. -/
def growbufferDataSize : Nat := 64 * 1024

/-- `growbuffer` without its links. -/
structure Growbuffer where
  size : Nat
  start : Nat
  data : Bytes
  length_data : data.length = growbufferDataSize

/-- The blocks in memory, and the pointer to the first of a ring. -/
structure Growbuffers where
  store : Store Growbuffer
  gb : Option Nat

/-- No block is allocated. -/
def Growbuffers.empty : Growbuffers := ⟨fun _ => none, none⟩

/-- malloc gives an address where nothing is allocated. -/
def MallocDocumented (malloc : Store Growbuffer → Option (Nat × Growbuffer)) : Prop :=
  ∀ store a buf, malloc store = some (a, buf) → store a = none

/-- malloc finds memory whenever there are finitely many blocks. -/
def MallocSucceeds (malloc : Store Growbuffer → Option (Nat × Growbuffer)) : Prop :=
  ∀ (store : Store Growbuffer) (addresses : List Nat), (∀ a, store a ≠ none → a ∈ addresses) → malloc store ≠ none

variable (malloc : Store Growbuffer → Option (Nat × Growbuffer))

/-- A new block behind the others: no address when there is no memory. -/
def newGrowbuffer (s : Growbuffers) : Option (Option Nat × Growbuffers) :=
  match malloc s.store with
  | none => some (none, s)
  | some (address, buf) =>
    (LinkedList.insertLast s.store s.gb address { buf with size := 0, start := 0 }).map fun (store, gb) =>
      (some address, ⟨store, gb⟩)

/-- The block the next bytes go into: the last one, `(*gb)->prev`, or a new one when there is none or it is full. -/
def growbufferWithRoom (s : Growbuffers) : Option (Option Nat × Growbuffers) :=
  match s.gb with
  | none => newGrowbuffer malloc s
  | some gb =>
    (s.store gb).bind fun first =>
      match first.prev with
      | none => newGrowbuffer malloc s
      | some buf =>
        (s.store buf).bind fun cell =>
          if cell.data.size = growbufferDataSize then newGrowbuffer malloc s else some (some buf, s)

/-- `memcpy(&(buf->data[buf->size]), data, toCopy)`, and the new size. -/
def Growbuffer.copyIn (buf : Growbuffer) (data : Bytes) : Option Growbuffer :=
  match h : Memory.write buf.data buf.size data with
  | none => none
  | some written => some ⟨buf.size + data.length, buf.start, written, (Memory.length_write h).trans buf.length_data⟩

/-- The loop of `growbuffer_append`, with a bound on its turns: whether there was memory for all. -/
def growbufferAppendLoop : Nat → Bytes → Growbuffers → Option (Bool × Growbuffers)
  | _, [], s => some (true, s)
  | 0, _ :: _, _ => none
  | turns + 1, byte :: bytes, s =>
    let data := byte :: bytes
    (growbufferWithRoom malloc s).bind fun (buf, s) =>
      match buf with
      | none => some (false, s)
      | some buf =>
        (s.store buf).bind fun cell =>
          let toCopy := growbufferDataSize - cell.data.size
          let toCopy := if toCopy > data.length then data.length else toCopy
          (cell.data.copyIn (data.take toCopy)).bind fun filled =>
            (LinkedList.modify s.store buf fun c => { c with data := filled }).bind fun store =>
              growbufferAppendLoop turns (data.drop toCopy) ⟨store, s.gb⟩

/-- `growbuffer_append`: the length of the data, or zero when there is no memory for all of them. -/
def growbufferAppend (s : Growbuffers) (data : Bytes) : Option (Nat × Growbuffers) :=
  (growbufferAppendLoop malloc data.length data s).map fun (whole, s) => (if whole then data.length else 0, s)

/-- `growbuffer_read`: at most `amt` bytes, all from the first block. -/
def growbufferRead (s : Growbuffers) (amt : Nat) : Option (Bytes × Growbuffers) :=
  match s.gb with
  | none => some ([], s)
  | some buf =>
    (s.store buf).bind fun cell =>
      let amtReturn := if cell.data.size > amt then amt else cell.data.size
      (Memory.read cell.data.data cell.data.start amtReturn).bind fun buffer =>
        (LinkedList.modify s.store buf fun c =>
            { c with data := { c.data with start := c.data.start + amtReturn, size := c.data.size - amtReturn } }).bind fun store =>
          if cell.data.size - amtReturn = 0 then
            (LinkedList.removeFirst store buf).map fun (store, gb) => (buffer, ⟨store, gb⟩)
          else some (buffer, ⟨store, s.gb⟩)

/-- `growbuffer_destroy`, with a bound on the turns of its loop: the blocks that are left in memory. -/
def growbufferDestroy (fuel : Nat) (s : Growbuffers) : Option (Store Growbuffer) :=
  (LinkedList.destroy fuel s.store s.gb).map Prod.fst

/-! ## Blocks -/

/-- The bytes that are still to be read from a block. -/
def Growbuffer.bytes (buf : Growbuffer) : Bytes := (buf.data.drop buf.start).take buf.size

/-- A block of a ring: its bytes are in it. -/
structure Growbuffer.Valid (buf : Growbuffer) : Prop where
  pos : 0 < buf.size
  le : buf.start + buf.size ≤ growbufferDataSize

/-- The bytes of a ring, from the first block to the last. -/
def growbufferContents (elements : List (Nat × Growbuffer)) : Bytes := elements.flatMap fun element => element.2.bytes

@[simp] theorem growbufferContents_append (elements elements' : List (Nat × Growbuffer)) :
    growbufferContents (elements ++ elements') = growbufferContents elements ++ growbufferContents elements' :=
  List.flatMap_append

@[simp] theorem growbufferContents_singleton (a : Nat) (buf : Growbuffer) : growbufferContents [(a, buf)] = buf.bytes := by
  simp [growbufferContents]

theorem growbufferContents_cons (a : Nat) (buf : Growbuffer) (elements : List (Nat × Growbuffer)) :
    growbufferContents ((a, buf) :: elements) = buf.bytes ++ growbufferContents elements := by
  simp [growbufferContents]

/-- A block with room that was not read from takes the bytes behind its own. -/
theorem Growbuffer.copyIn_eq {buf : Growbuffer} {data : Bytes} (hstart : buf.start = 0)
    (hfits : buf.size + data.length ≤ growbufferDataSize) :
    ∃ filled : Growbuffer, buf.copyIn data = some filled ∧ filled.bytes = buf.bytes ++ data ∧ filled.start = 0 ∧
      filled.size = buf.size + data.length := by
  have hfilled : Memory.Filled buf.data buf.size buf.bytes :=
    ⟨by rw [buf.length_data]; omega, by rw [bytes, hstart, List.drop_zero]⟩
  obtain ⟨written, hwrite, hwritten, hlength⟩ := Memory.write_filled hfilled
    (show buf.size + data.length ≤ buf.data.length by rwa [buf.length_data])
  refine ⟨⟨buf.size + data.length, buf.start, written, hlength.trans buf.length_data⟩, ?_, ?_, hstart, rfl⟩
  · unfold copyIn
    split
    · next h => rw [hwrite] at h; exact absurd h (Option.some_ne_none _)
    · next written' h =>
      rw [hwrite] at h
      obtain rfl := Option.some.inj h
      rfl
  · rw [bytes, hstart, List.drop_zero]
    exact hwritten.take

/-- The bytes of a block are split where it is read to. -/
theorem Growbuffer.bytes_split (buf : Growbuffer) {n : Nat} (hn : n ≤ buf.size) :
    buf.bytes = (buf.data.drop buf.start).take n ++
      Growbuffer.bytes { buf with start := buf.start + n, size := buf.size - n } := by
  conv_lhs => rw [bytes, ← Nat.add_sub_cancel' hn, List.take_add, List.drop_drop]
  rfl

/-! ## Rings of blocks -/

/-- The blocks are a ring that holds these bytes. -/
structure Growbuffers.Holds (s : Growbuffers) (elements : List (Nat × Growbuffer)) (contents : Bytes) : Prop where
  ring : IsRing s.store s.gb elements
  valid : ∀ element ∈ elements, element.2.Valid
  contents : growbufferContents elements = contents

/-- No byte of the last block was read. -/
def LastUnread (elements : List (Nat × Growbuffer)) : Prop := ∀ element ∈ elements.getLast?, element.2.start = 0

theorem Growbuffers.empty_holds : Growbuffers.empty.Holds [] [] :=
  ⟨LinkedList.isRing_empty, fun _ h => absurd h List.not_mem_nil, rfl⟩

/-- The last block is where the pointer before the first one leads. -/
theorem Growbuffers.Holds.last {s : Growbuffers} {elements : List (Nat × Growbuffer)} {contents : Bytes}
    (h : s.Holds elements contents) : (s.gb = none ∧ elements = []) ∨
      ∃ first cell before buf block lastCell, s.gb = some first ∧ s.store first = some cell ∧ cell.prev = some buf ∧
        elements = before ++ [(buf, block)] ∧ s.store buf = some lastCell ∧ lastCell.data = block := by
  rcases h.ring.first_cell with ⟨hgb, rfl⟩ | ⟨first, x, rest, rfl, hgb, behind, hcell⟩
  · exact Or.inl ⟨hgb, rfl⟩
  · right
    rcases h.ring.segment.last_cases with ⟨hnil, -, -⟩ | ⟨before, buf, block, heq, hlast, p, -, hbuf⟩
    · exact absurd hnil (List.cons_ne_nil _ _)
    · exact ⟨first, _, before, buf, block, _, hgb, hcell, hlast, heq, hbuf, rfl⟩

variable {malloc}

/-- A new block is the last of the ring, and empty. -/
theorem newGrowbuffer_eq (hmalloc : MallocDocumented malloc) {s : Growbuffers} {elements : List (Nat × Growbuffer)}
    (hring : IsRing s.store s.gb elements) : (newGrowbuffer malloc s = some (none, s) ∧ ¬ MallocSucceeds malloc) ∨
      ∃ (a : Nat) (block : Growbuffer) (s' : Growbuffers), newGrowbuffer malloc s = some (some a, s') ∧ block.start = 0 ∧
        block.size = 0 ∧ IsRing s'.store s'.gb (elements ++ [(a, block)]) := by
  unfold newGrowbuffer
  rcases hm : malloc s.store with _ | ⟨a, buf⟩
  · exact Or.inl ⟨rfl, fun hmemory => hmemory s.store _ hring.owned hm⟩
  · obtain ⟨store, gb, hinsert, hring'⟩ := hring.insertLast (hmalloc _ _ _ hm) { buf with size := 0, start := 0 }
    exact Or.inr ⟨a, _, ⟨store, gb⟩, by simp only [hinsert, Option.map_some], rfl, rfl, hring'⟩

/-- The block that the next bytes go into is the last of the ring, and has room for one at least. -/
theorem growbufferWithRoom_eq (hmalloc : MallocDocumented malloc) {s : Growbuffers} {elements : List (Nat × Growbuffer)}
    {contents : Bytes} (h : s.Holds elements contents) (hunread : LastUnread elements) :
    (growbufferWithRoom malloc s = some (none, s) ∧ ¬ MallocSucceeds malloc) ∨
      ∃ (a : Nat) (block : Growbuffer) (before : List (Nat × Growbuffer)) (s' : Growbuffers),
        growbufferWithRoom malloc s = some (some a, s') ∧ IsRing s'.store s'.gb (before ++ [(a, block)]) ∧ block.start = 0 ∧
          block.size < growbufferDataSize ∧ (∀ element ∈ before, element.2.Valid) ∧
            growbufferContents before ++ block.bytes = contents := by
  have hnew : (newGrowbuffer malloc s = some (none, s) ∧ ¬ MallocSucceeds malloc) ∨
      ∃ (a : Nat) (block : Growbuffer) (before : List (Nat × Growbuffer)) (s' : Growbuffers),
        newGrowbuffer malloc s = some (some a, s') ∧ IsRing s'.store s'.gb (before ++ [(a, block)]) ∧ block.start = 0 ∧
          block.size < growbufferDataSize ∧ (∀ element ∈ before, element.2.Valid) ∧
            growbufferContents before ++ block.bytes = contents := by
    rcases newGrowbuffer_eq hmalloc h.ring with hnone | ⟨a, block, s', heq, hstart, hsize, hring⟩
    · exact Or.inl hnone
    · refine Or.inr ⟨a, block, elements, s', heq, hring, hstart, by rw [hsize]; decide, h.valid, ?_⟩
      rw [Growbuffer.bytes, hsize, List.take_zero, List.append_nil, h.contents]
  rcases h.last with ⟨hgb, -⟩ | ⟨first, cell, before, buf, block, lastCell, hgb, hfirst, hprev, rfl, hlast, rfl⟩
  · simpa only [growbufferWithRoom, hgb] using hnew
  · simp only [growbufferWithRoom, hgb, hfirst, Option.bind_some, hprev, hlast]
    split
    · exact hnew
    · next hsize =>
      have hle : lastCell.data.start + lastCell.data.size ≤ growbufferDataSize := (h.valid (buf, lastCell.data) (by simp)).le
      refine Or.inr ⟨buf, lastCell.data, before, s, rfl, h.ring, hunread (buf, lastCell.data) (by simp), by omega,
        fun element helement => h.valid element (List.mem_append_left _ helement), ?_⟩
      rw [← h.contents, growbufferContents_append, growbufferContents_singleton]

/-- The loop puts the bytes behind those in the ring: all of them, or a first part of them when there is no memory for more. -/
theorem growbufferAppendLoop_eq (hmalloc : MallocDocumented malloc) (turns : Nat) :
    ∀ (data : Bytes) {s : Growbuffers} {elements : List (Nat × Growbuffer)} {contents : Bytes}, s.Holds elements contents →
      LastUnread elements → data.length ≤ turns →
        ∃ (whole : Bool) (s' : Growbuffers) (kept rest : Bytes) (elements' : List (Nat × Growbuffer)),
          growbufferAppendLoop malloc turns data s = some (whole, s') ∧ data = kept ++ rest ∧
            s'.Holds elements' (contents ++ kept) ∧ LastUnread elements' ∧ (whole = true ↔ rest = []) ∧
              (MallocSucceeds malloc → whole = true) := by
  induction turns with
  | zero =>
    intro data s elements contents h hunread hturns
    obtain rfl := List.length_eq_zero_iff.mp (Nat.le_zero.mp hturns)
    exact ⟨true, s, [], [], elements, by rw [growbufferAppendLoop], rfl, by rwa [List.append_nil], hunread, by simp, fun _ => rfl⟩
  | succ turns ih =>
    intro data s elements contents h hunread hturns
    rcases data with _ | ⟨byte, bytes⟩
    · exact ⟨true, s, [], [], elements, by rw [growbufferAppendLoop], rfl, by rwa [List.append_nil], hunread, by simp, fun _ => rfl⟩
    · simp only [growbufferAppendLoop]
      generalize hdata : byte :: bytes = data at hturns ⊢
      have hpos : 0 < data.length := by rw [← hdata]; exact Nat.succ_pos _
      rcases growbufferWithRoom_eq hmalloc h hunread with
        ⟨hnone, hfails⟩ | ⟨a, block, before, s₁, heq, hring, hstart, hroom, hvalid, hcontents⟩
      · rw [hnone]
        exact ⟨false, s, [], data, elements, rfl, rfl, by rwa [List.append_nil], hunread,
          by simp [List.ne_nil_of_length_pos hpos], fun hmemory => absurd hmemory hfails⟩
      · obtain ⟨_, _, -, -, _, hcell, -⟩ := LinkedList.segment_append.mp hring.segment
        generalize htoCopy : (if growbufferDataSize - block.size > data.length then data.length
          else growbufferDataSize - block.size) = toCopy
        have hle : toCopy ≤ data.length ∧ toCopy + block.size ≤ growbufferDataSize ∧ 0 < toCopy := by
          rw [← htoCopy]
          split <;> omega
        have hlength : (data.take toCopy).length = toCopy := List.length_take_of_le hle.1
        obtain ⟨filled, hfilled, hbytes, hstart', hsize⟩ := block.copyIn_eq hstart
          (show block.size + (data.take toCopy).length ≤ growbufferDataSize by omega)
        obtain ⟨store, hmodify, hring'⟩ := hring.modify_data fun _ => filled
        -- the block holds what was copied, and the loop goes on with what is left
        have hholds : Growbuffers.Holds ⟨store, s₁.gb⟩ (before ++ [(a, filled)]) (contents ++ data.take toCopy) := by
          refine ⟨hring', fun element helement => ?_, ?_⟩
          · rcases List.mem_append.mp helement with hmem | hmem
            · exact hvalid element hmem
            · rw [List.mem_singleton.mp hmem]
              exact ⟨show 0 < filled.size by omega, show filled.start + filled.size ≤ _ by omega⟩
          · rw [growbufferContents_append, growbufferContents_singleton, hbytes, ← List.append_assoc, hcontents]
        obtain ⟨whole, s', kept, rest, elements', hloop, hsplit, hholds', hunread', hwhole, hmemory⟩ :=
          ih (data.drop toCopy) hholds (fun element helement => by simp at helement; rwa [← helement])
            (by rw [List.length_drop]; omega)
        refine ⟨whole, s', data.take toCopy ++ kept, rest, elements', ?_, ?_, by rwa [← List.append_assoc], hunread', hwhole, hmemory⟩
        · rw [heq, Option.bind_some]
          simp only [hcell, Option.bind_some, htoCopy, hfilled, hmodify]
          exact hloop
        · rw [List.append_assoc, ← hsplit, List.take_append_drop]

/-- `growbuffer_append` puts data behind the bytes in the ring: all of them when it returns their length, and a first part when there
is no memory for more. -/
theorem growbufferAppend_eq (hmalloc : MallocDocumented malloc) (data : Bytes) {s : Growbuffers}
    {elements : List (Nat × Growbuffer)} {contents : Bytes} (h : s.Holds elements contents) (hunread : LastUnread elements) :
    ∃ (s' : Growbuffers) (kept rest : Bytes) (elements' : List (Nat × Growbuffer)),
      growbufferAppend malloc s data = some (if rest = [] then data.length else 0, s') ∧ data = kept ++ rest ∧
        s'.Holds elements' (contents ++ kept) ∧ LastUnread elements' ∧ (MallocSucceeds malloc → rest = []) := by
  obtain ⟨whole, s', kept, rest, elements', hloop, hsplit, hholds, hunread', hwhole, hmemory⟩ :=
    growbufferAppendLoop_eq hmalloc data.length data h hunread le_rfl
  refine ⟨s', kept, rest, elements', ?_, hsplit, hholds, hunread', fun hm => hwhole.mp (hmemory hm)⟩
  rw [growbufferAppend, hloop, Option.map_some]
  simp only [hwhole]

/-- `growbuffer_read` takes bytes from the start of the ring, at least one when there are any and it is asked for some. -/
theorem growbufferRead_eq (amt : Nat) {s : Growbuffers} {elements : List (Nat × Growbuffer)} {contents : Bytes}
    (h : s.Holds elements contents) : ∃ (buffer rest : Bytes) (s' : Growbuffers) (elements' : List (Nat × Growbuffer)),
      growbufferRead s amt = some (buffer, s') ∧ contents = buffer ++ rest ∧ s'.Holds elements' rest ∧ buffer.length ≤ amt ∧
        (0 < amt → contents ≠ [] → buffer ≠ []) := by
  rcases h.ring.first_cell with ⟨hgb, rfl⟩ | ⟨first, block, after, rfl, hgb, behind, hcell⟩
  · refine ⟨[], contents, s, [], by rw [growbufferRead, hgb], rfl, h, Nat.zero_le _, fun _ hne => absurd ?_ hne⟩
    rw [← h.contents]
    rfl
  · have hle : block.start + block.size ≤ growbufferDataSize := (h.valid (first, block) List.mem_cons_self).le
    have hpos : 0 < block.size := (h.valid (first, block) List.mem_cons_self).pos
    generalize hamt : (if block.size > amt then amt else block.size) = n
    have hn : n ≤ block.size ∧ n ≤ amt ∧ (0 < amt → 0 < n) := by
      rw [← hamt]
      split <;> omega
    obtain ⟨store, hmodify, hring⟩ := @IsRing.modify_data _ s.store s.gb [] after first block h.ring
      fun buf => { buf with start := buf.start + n, size := buf.size - n }
    have hread : Memory.read block.data block.start n = some ((block.data.drop block.start).take n) :=
      Memory.read_eq (by rw [block.length_data]; omega)
    have hcontents : contents = (block.data.drop block.start).take n ++
        (Growbuffer.bytes { block with start := block.start + n, size := block.size - n } ++ growbufferContents after) := by
      rw [← h.contents, growbufferContents_cons, block.bytes_split hn.1, List.append_assoc]
    have hlength : ((block.data.drop block.start).take n).length = n :=
      List.length_take_of_le (by rw [List.length_drop, block.length_data]; omega)
    have hvalid : ∀ element ∈ after, element.2.Valid := fun element helement => h.valid element (List.mem_cons_of_mem _ helement)
    have hne : 0 < amt → contents ≠ [] → (block.data.drop block.start).take n ≠ [] := fun hamt _ =>
      List.ne_nil_of_length_pos (by rw [hlength]; exact hn.2.2 hamt)
    rw [growbufferRead, hgb]
    simp only [hcell, Option.bind_some, hamt, hread, hmodify]
    split_ifs with hsize
    · -- the block was read to its end, and is given back
      rw [hgb] at hring
      obtain ⟨store', hremove, hring'⟩ := hring.removeFirst
      refine ⟨_, growbufferContents after, ⟨store', firstAddress after⟩, after, by rw [hremove]; rfl, ?_,
        ⟨hring', hvalid, rfl⟩, hlength.trans_le hn.2.1, hne⟩
      rw [hcontents, Growbuffer.bytes, hsize, List.take_zero, List.nil_append]
    · refine ⟨_, _, ⟨store, some first⟩, _, rfl, hcontents, ⟨hgb ▸ hring, fun element helement => ?_, rfl⟩,
        hlength.trans_le hn.2.1, hne⟩
      rcases List.mem_cons.mp helement with rfl | hmem
      · exact ⟨show 0 < block.size - n by omega, show block.start + n + (block.size - n) ≤ _ by omega⟩
      · exact hvalid element hmem

end Sauvegarde
