import Sauvegarde.Lib.Refinement
import Sauvegarde.Server.CompleteUpload

/-!
# Grow buffers are queues

Over every run of appends and reads: a grow buffer hands out its bytes once and in the order they came, whatever the sizes, and gives
its blocks back. An append writes at `data[size]` of the last block, so that none may come while that block is read from. `put_object`
appends the whole message that completes an upload before any of it is read.
-/

namespace Sauvegarde

open Refinement (Traces)

/-- What is asked of a grow buffer. -/
inductive GrowbufferOp where
  | append (data : Bytes)
  | read (amt : Nat)

/-- What it answers: the value that `growbuffer_append` returns, and the bytes that `growbuffer_read` hands out. -/
inductive GrowbufferEvent where
  | appended (data : Bytes) (returned : Nat)
  | delivered (amt : Nat) (buffer : Bytes)

/-- One step. -/
def growbufferStep (malloc : LinkedList.Store Growbuffer → Option (Nat × Growbuffer)) (s : Growbuffers) :
    GrowbufferOp → Option (Growbuffers × List GrowbufferEvent)
  | .append data => (growbufferAppend malloc s data).map fun (returned, s) => (s, [.appended data returned])
  | .read amt => (growbufferRead s amt).map fun (buffer, s) => (s, [.delivered amt buffer])

/-- No byte of the last block was read, the one that is before the first. -/
def Growbuffers.LastUnread (s : Growbuffers) : Prop :=
  ∀ gb ∈ s.gb, ∀ first ∈ s.store gb, ∀ buf ∈ first.prev, ∀ last ∈ s.store buf, last.data.start = 0

/-- An append finds the last block as it was written. -/
def AppendsUnread (s : Growbuffers) : GrowbufferOp → Prop
  | .append _ => s.LastUnread
  | .read _ => True

/-- A queue of bytes. It takes all that it is given, or says that there is no memory and takes less; and it hands out its first bytes,
some when it is asked for some. -/
inductive ByteQueue (memory : Prop) : Bytes → GrowbufferEvent → Bytes → Prop where
  | appended (queue data : Bytes) : ByteQueue memory queue (.appended data data.length) (queue ++ data)
  | outOfMemory (queue kept rest : Bytes) : ¬ memory → rest ≠ [] →
      ByteQueue memory queue (.appended (kept ++ rest) 0) (queue ++ kept)
  | delivered (amt : Nat) (buffer rest : Bytes) : buffer.length ≤ amt → (0 < amt → buffer ++ rest ≠ [] → buffer ≠ []) →
      ByteQueue memory (buffer ++ rest) (.delivered amt buffer) rest

/-- The bytes that were given to it. -/
def appendedBytes (trace : List GrowbufferEvent) : Bytes :=
  trace.flatMap fun
    | .appended data _ => data
    | .delivered _ _ => []

/-- The bytes that it handed out. -/
def deliveredBytes (trace : List GrowbufferEvent) : Bytes :=
  trace.flatMap fun
    | .appended _ _ => []
    | .delivered _ buffer => buffer

namespace GrowbufferAux

variable {malloc : LinkedList.Store Growbuffer → Option (Nat × Growbuffer)}

/-- The blocks hold the bytes of the queue. -/
def Queued (s : Growbuffers) (queue : Bytes) : Prop := ∃ elements, s.Holds elements queue

/-- With memory for all, what was given is what was handed out and what is left. -/
theorem ByteQueue.conserves {memory : Prop} (hmemory : memory) {trace : List GrowbufferEvent} {queue : Bytes}
    (h : Traces (ByteQueue memory) [] trace queue) : appendedBytes trace = deliveredBytes trace ++ queue := by
  have hstep : ∀ trace a event a', appendedBytes trace = deliveredBytes trace ++ a → ByteQueue memory a event a' →
      appendedBytes (trace ++ [event]) = deliveredBytes (trace ++ [event]) ++ a' := by
    intro trace a event a' hinv hnext
    cases hnext with
    | appended _ data => simp_all [appendedBytes, deliveredBytes]
    | outOfMemory _ _ _ hno => exact absurd hmemory hno
    | delivered _ buffer rest => simp_all [appendedBytes, deliveredBytes]
  have hinv := h.invariant hstep (show appendedBytes [] = deliveredBytes [] ++ [] from rfl)
  rwa [List.nil_append] at hinv

theorem lastUnread_elements {s : Growbuffers} {elements : List (Nat × Growbuffer)} {contents : Bytes}
    (h : s.Holds elements contents) (hunread : s.LastUnread) : LastUnread elements := by
  rcases h.last with ⟨-, rfl⟩ | ⟨first, cell, before, buf, block, lastCell, hgb, hfirst, hprev, rfl, hlast, rfl⟩
  · exact fun _ helement => absurd helement (by simp)
  · intro element helement
    obtain rfl : (buf, lastCell.data) = element := by simpa using helement
    exact hunread first hgb cell hfirst buf hprev lastCell hlast

/-- Every step is one of the queue. -/
theorem growbufferStep_queued (hmalloc : MallocDocumented malloc) {s : Growbuffers} {queue : Bytes} (op : GrowbufferOp)
    (h : Queued s queue) (hunread : AppendsUnread s op) :
    ∃ s' events queue', growbufferStep malloc s op = some (s', events) ∧ Traces (ByteQueue (MallocSucceeds malloc)) queue events queue' ∧
      Queued s' queue' := by
  obtain ⟨elements, hholds⟩ := h
  cases op with
  | append data =>
    obtain ⟨s', kept, rest, elements', heq, rfl, hholds', -, hmemory⟩ :=
      growbufferAppend_eq hmalloc data hholds (lastUnread_elements hholds hunread)
    refine ⟨s', _, queue ++ kept, by rw [growbufferStep, heq]; rfl, ?_, elements', hholds'⟩
    by_cases hrest : rest = []
    · rw [if_pos hrest, hrest, List.append_nil]
      exact .single (.appended queue kept)
    · rw [if_neg hrest]
      exact .single (.outOfMemory queue kept rest (fun hm => hrest (hmemory hm)) hrest)
  | read amt =>
    obtain ⟨buffer, rest, s', elements', heq, rfl, hholds', hle, hne⟩ := growbufferRead_eq amt hholds
    exact ⟨s', _, rest, by rw [growbufferStep, heq]; rfl, .single (.delivered amt buffer rest hle hne), elements', hholds'⟩

theorem lastUnread_state {s : Growbuffers} {elements : List (Nat × Growbuffer)} {contents : Bytes}
    (h : s.Holds elements contents) (hunread : LastUnread elements) : s.LastUnread := by
  intro gb hgb first hfirst buf hbuf last hlast
  rcases h.last with ⟨hnone, -⟩ | ⟨gb', cell, before, buf', block, lastCell, hgb', hfirst', hprev, rfl, hlast', rfl⟩
  · exact absurd (hnone.symm.trans hgb).symm (Option.some_ne_none gb)
  · obtain rfl := Option.some.inj (hgb'.symm.trans hgb)
    obtain rfl := Option.some.inj (hfirst'.symm.trans hfirst)
    obtain rfl := Option.some.inj (hprev.symm.trans hbuf)
    obtain rfl := Option.some.inj (hlast'.symm.trans hlast)
    exact hunread (buf', lastCell.data) (by simp)

theorem along_reads (amts : List Nat) : ∀ s : Growbuffers, Runs.Along (growbufferStep malloc) AppendsUnread s (amts.map .read) := by
  induction amts with
  | nil => exact fun _ => trivial
  | cons amt amts ih => exact fun s => ⟨trivial, fun s' _ _ => ih s'⟩

/-- Appends that come before every read find the last block as it was written. -/
theorem along_appends (hmalloc : MallocDocumented malloc) (amts : List Nat) (datas : List Bytes) :
    ∀ {s : Growbuffers} {elements : List (Nat × Growbuffer)} {contents : Bytes}, s.Holds elements contents → LastUnread elements →
      Runs.Along (growbufferStep malloc) AppendsUnread s (datas.map .append ++ amts.map .read) := by
  induction datas with
  | nil => exact fun _ _ => along_reads amts _
  | cons data datas ih =>
    intro s elements contents hholds hunread
    refine ⟨lastUnread_state hholds hunread, fun s' events hstep => ?_⟩
    obtain ⟨s₁, kept, rest, elements', heq, -, hholds', hunread', -⟩ := growbufferAppend_eq hmalloc data hholds hunread
    rw [growbufferStep, heq, Option.map_some] at hstep
    obtain ⟨rfl, -⟩ := Prod.mk.inj (Option.some.inj hstep)
    exact ih hholds' hunread'

/-- Whatever is in the ring, `growbuffer_destroy` gives all of it back. -/
theorem Queued.destroy {s : Growbuffers} {queue : Bytes} (h : Queued s queue) :
    ∃ turns, ∀ fuel ≥ turns, growbufferDestroy fuel s = some fun _ => none := by
  obtain ⟨elements, hholds⟩ := h
  exact ⟨elements.length + 1, fun fuel hfuel => by rw [growbufferDestroy, hholds.ring.destroy hfuel, Option.map_some]⟩

end GrowbufferAux

open GrowbufferAux

/-- malloc that takes a free address whenever there is one. -/
noncomputable def someFreeAddress (store : LinkedList.Store Growbuffer) : Option (Nat × Growbuffer) :=
  open Classical in
  if h : ∃ a, store a = none then some (h.choose, ⟨0, 0, List.replicate growbufferDataSize 0, List.length_replicate⟩) else none

theorem someFreeAddress_documented : MallocDocumented someFreeAddress := by
  intro store a buf h
  unfold someFreeAddress at h
  split at h
  · next hfree => exact (Prod.mk.inj (Option.some.inj h)).1 ▸ hfree.choose_spec
  · exact absurd h.symm (Option.some_ne_none _)

theorem someFreeAddress_succeeds : MallocSucceeds someFreeAddress := by
  intro store addresses haddresses
  have hbound : ∃ n, ∀ a ∈ addresses, a < n := by
    clear haddresses
    induction addresses with
    | nil => exact ⟨0, fun _ h => absurd h List.not_mem_nil⟩
    | cons a addresses ih =>
      obtain ⟨n, hn⟩ := ih
      exact ⟨max n (a + 1), List.forall_mem_cons.mpr ⟨by omega, fun b hb => (hn b hb).trans_le (le_max_left _ _)⟩⟩
  obtain ⟨n, hn⟩ := hbound
  have hfree : ∃ a, store a = none := ⟨n, by_contra fun h => lt_irrefl n (hn n (haddresses n h))⟩
  rw [someFreeAddress, dif_pos hfree]
  exact Option.some_ne_none _

/-- In every run in which no append comes while the last block is read from, a grow buffer answers as a queue of bytes, without an
access to memory that is not its own: with memory for all, what it was given is what it handed out and what is left. And
`growbuffer_destroy` then gives back every block. -/
theorem growbuffer_isQueue {malloc : LinkedList.Store Growbuffer → Option (Nat × Growbuffer)} (hmalloc : MallocDocumented malloc)
    (ops : List GrowbufferOp) (hunread : Runs.Along (growbufferStep malloc) AppendsUnread Growbuffers.empty ops) :
    ∃ s trace queue, Runs.execute (growbufferStep malloc) Growbuffers.empty ops = some (s, trace) ∧
      Traces (ByteQueue (MallocSucceeds malloc)) [] trace queue ∧
        (MallocSucceeds malloc → appendedBytes trace = deliveredBytes trace ++ queue) ∧
          ∃ turns, ∀ fuel ≥ turns, growbufferDestroy fuel s = some fun _ => none := by
  have hstep : ∀ s queue op, Queued s queue → AppendsUnread s op → ∃ s' events queue',
      growbufferStep malloc s op = some (s', events) ∧ Traces (ByteQueue (MallocSucceeds malloc)) queue events queue' ∧
        Queued s' queue' := fun s queue op hqueued hop => growbufferStep_queued hmalloc op hqueued hop
  obtain ⟨s, trace, queue, hrun, htrace, hqueued⟩ :=
    Refinement.execute_refines hstep ops ⟨[], Growbuffers.empty_holds⟩ hunread
  exact ⟨s, trace, queue, hrun, htrace, fun hmemory => ByteQueue.conserves hmemory htrace, hqueued.destroy⟩

/-- Two texts that are appended, and read in three pieces. -/
theorem growbuffer_isQueue_twoTexts :
    ∃ s trace queue, Runs.execute (growbufferStep someFreeAddress) Growbuffers.empty
        ([str "<CompleteMultipartUpload>", str "</CompleteMultipartUpload>"].map .append ++ [10, 100, 100].map .read) =
          some (s, trace) ∧
      Traces (ByteQueue (MallocSucceeds someFreeAddress)) [] trace queue ∧
        (MallocSucceeds someFreeAddress → appendedBytes trace = deliveredBytes trace ++ queue) ∧
          ∃ turns, ∀ fuel ≥ turns, growbufferDestroy fuel s = some fun _ => none :=
  growbuffer_isQueue someFreeAddress_documented _
    (along_appends someFreeAddress_documented _ _ Growbuffers.empty_holds fun _ h => absurd h (by simp))

/-! ## The message that completes an upload -/

/-- With memory for all, and parts whose texts fit in the buffer they are printed into, the message is read from its start on, by
whatever buffers in whatever attempts, each of which announces what the ones before it have left. Buffers that are not empty get to
its end, and `growbuffer_destroy` gives back every block wherever they stop. -/
theorem completeUpload_sendsMessage {malloc : LinkedList.Store Growbuffer → Option (Nat × Growbuffer)}
    (hmalloc : MallocDocumented malloc) (hmemory : MallocSucceeds malloc) {buf : Bytes} (hbuf : buf.length = 256)
    {etags : List CString} (hparts : ∀ part ∈ completeParts 0 etags, part.length < 256) :
    ∃ manager, completeMessage malloc buf etags = some manager ∧ manager.remaining = (completeXml etags).length ∧
      ∀ sizes, ∃ sent rest manager', sendMessage manager sizes = some (sent, manager') ∧ completeXml etags = sent ++ rest ∧
        manager'.remaining = rest.length ∧ sent.length ≤ sizes.sum ∧
          ((∀ size ∈ sizes, 0 < size) → rest = [] ∨ sizes.length ≤ sent.length) ∧
            ∃ turns, ∀ fuel ≥ turns, growbufferDestroy fuel manager'.gb = some fun _ => none := by
  obtain ⟨manager, elements, hmessage, hholds, hremaining⟩ := completeMessage_eq hmalloc hmemory hbuf hparts
  refine ⟨manager, hmessage, hremaining, fun sizes => ?_⟩
  obtain ⟨sent, rest, manager', elements', hsend, hsplit, hholds', hremaining', hsum, hahead⟩ := sendMessage_eq sizes hholds hremaining
  exact ⟨sent, rest, manager', hsend, hsplit, hremaining', hsum, hahead, Queued.destroy ⟨elements', hholds'⟩⟩

/-- A part whose tag has at most 195 bytes fits. -/
theorem length_completePart_lt {number : Nat} (hnumber : number < 10 ^ 9) {etag : CString} (hetag : etag.bytes.length ≤ 195) :
    (completePart number etag).length < 256 := by
  have hprint := Decimal.length_print_le (show 0 < 9 by decide) hnumber
  have hopen : (str "<Part><PartNumber>").length = 18 := by decide
  have hmiddle : (str "</PartNumber><ETag>").length = 19 := by decide
  have hclose : (str "</ETag></Part>").length = 14 := by decide
  simp only [completePart, List.length_append, hopen, hmiddle, hclose]
  omega

/-- Two parts. -/
theorem completeUpload_sendsMessage_twoParts :
    ∃ manager, completeMessage someFreeAddress (List.replicate 256 0) [CString.lit "7ac66c", CString.lit "d2f2ee"] = some manager ∧
      manager.remaining = (completeXml [CString.lit "7ac66c", CString.lit "d2f2ee"]).length ∧
        ∀ sizes, ∃ sent rest manager', sendMessage manager sizes = some (sent, manager') ∧
          completeXml [CString.lit "7ac66c", CString.lit "d2f2ee"] = sent ++ rest ∧ manager'.remaining = rest.length ∧
            sent.length ≤ sizes.sum ∧ ((∀ size ∈ sizes, 0 < size) → rest = [] ∨ sizes.length ≤ sent.length) ∧
              ∃ turns, ∀ fuel ≥ turns, growbufferDestroy fuel manager'.gb = some fun _ => none :=
  completeUpload_sendsMessage someFreeAddress_documented someFreeAddress_succeeds List.length_replicate
    (List.forall_mem_cons.mpr ⟨length_completePart_lt (by decide) (by decide),
      List.forall_mem_cons.mpr ⟨length_completePart_lt (by decide) (by decide), fun _ h => absurd h List.not_mem_nil⟩⟩)

end Sauvegarde
