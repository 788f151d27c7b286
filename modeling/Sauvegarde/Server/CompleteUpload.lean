import Sauvegarde.Lib.Decimal
import Sauvegarde.Server.Growbuffer

/-!
# Completing an upload

The end of `put_object` for an object in several parts: a message with the number and the tag of every part is put together in a grow
buffer, and libs3 has it read from there. The request may be tried again.
-/

namespace Sauvegarde

/-- What `UploadManager` holds of the message. -/
structure UploadManager where
  gb : Growbuffers
  remaining : Nat

/-- The text that is printed for a part. -/
def completePart (number : Nat) (etag : CString) : Bytes :=
  str "<Part><PartNumber>" ++ Decimal.print number ++ str "</PartNumber><ETag>" ++ etag.bytes ++ str "</ETag></Part>"

/-- `snprintf(buf, sizeof(buf), …)` into a buffer of 256 bytes, and then as many bytes from it as the text is long: there is no result
when that reads behind the buffer. -/
def printPart (buf text : Bytes) : Option (Bytes × Bytes) :=
  (Memory.write buf 0 (text.take 255 ++ [0])).bind fun buf => (Memory.read buf 0 text.length).map fun part => (part, buf)

/-- The loop over the parts, from the one before this number on: `size` counts what was appended. -/
def appendParts (malloc : LinkedList.Store Growbuffer → Option (Nat × Growbuffer)) :
    Nat → List CString → Bytes → Growbuffers → Nat → Option (Growbuffers × Nat)
  | _, [], _, gb, size => some (gb, size)
  | i, etag :: etags, buf, gb, size =>
    (printPart buf (completePart (i + 1) etag)).bind fun (part, buf) =>
      (growbufferAppend malloc gb part).bind fun (n, gb) => appendParts malloc (i + 1) etags buf gb (size + n)

/-- The message is put together: `buf` holds what was on the stack. -/
def completeMessage (malloc : LinkedList.Store Growbuffer → Option (Nat × Growbuffer)) (buf : Bytes) (etags : List CString) :
    Option UploadManager :=
  (growbufferAppend malloc Growbuffers.empty (str "<CompleteMultipartUpload>")).bind fun (size, gb) =>
    (appendParts malloc 0 etags buf gb size).bind fun (gb, size) =>
      (growbufferAppend malloc gb (str "</CompleteMultipartUpload>")).map fun (n, gb) => ⟨gb, size + n⟩

/-- `multipartPutXmlCallback`: the bytes put into the buffer. -/
def multipartPutXmlCallback (manager : UploadManager) (bufferSize : Nat) : Option (Bytes × UploadManager) :=
  if manager.remaining ≠ 0 then
    let toRead := if manager.remaining > bufferSize then bufferSize else manager.remaining
    (growbufferRead manager.gb toRead).map fun (buffer, gb) => (buffer, ⟨gb, manager.remaining - buffer.length⟩)
  else some ([], manager)

/-- The buffers that libs3 has filled in all attempts, one behind the other. An attempt announces `manager.remaining`, and begins where
the one before it ended. -/
def sendMessage (manager : UploadManager) : List Nat → Option (Bytes × UploadManager)
  | [] => some ([], manager)
  | bufferSize :: sizes =>
    (multipartPutXmlCallback manager bufferSize).bind fun (buffer, manager) =>
      (sendMessage manager sizes).map fun (content, manager) => (buffer ++ content, manager)

/-! ## The message -/

/-- The texts of the parts, the first of which has the number behind this one. -/
def completeParts : Nat → List CString → List Bytes
  | _, [] => []
  | i, etag :: etags => completePart (i + 1) etag :: completeParts (i + 1) etags

/-- The message for an object in parts with these tags. -/
def completeXml (etags : List CString) : Bytes :=
  str "<CompleteMultipartUpload>" ++ (completeParts 0 etags).flatten ++ str "</CompleteMultipartUpload>"

/-- A text that fits in the buffer with its terminating zero is read back. -/
theorem printPart_eq {buf text : Bytes} (hbuf : buf.length = 256) (htext : text.length < 256) :
    ∃ buf' : Bytes, printPart buf text = some (text, buf') ∧ buf'.length = 256 := by
  have htake : text.take 255 = text := List.take_of_length_le (by omega)
  have hfits : 0 + (text ++ [0]).length ≤ buf.length := by
    rw [List.length_append, List.length_singleton]
    omega
  obtain ⟨buf', hwrite, hfilled, hlength⟩ := Memory.write_filled (⟨Nat.zero_le _, rfl⟩ : Memory.Filled buf 0 []) hfits
  refine ⟨buf', ?_, hlength.trans hbuf⟩
  have hprefix : buf'.take text.length = text := by
    have htaken := hfilled.take
    rw [Nat.zero_add, List.nil_append, List.length_append, List.length_singleton] at htaken
    have hmin : min text.length (text.length + 1) = text.length := by omega
    rw [← hmin, ← List.take_take, htaken, List.take_left]
  rw [printPart, htake, hwrite, Option.bind_some, Memory.read_eq (by rw [hlength]; omega), List.drop_zero, hprefix, Option.map_some]

variable {malloc : LinkedList.Store Growbuffer → Option (Nat × Growbuffer)}

/-- With memory for all, data go behind those in the ring. -/
theorem growbufferAppend_whole (hmalloc : MallocDocumented malloc) (hmemory : MallocSucceeds malloc) (data : Bytes)
    {s : Growbuffers} {elements : List (Nat × Growbuffer)} {contents : Bytes} (h : s.Holds elements contents)
    (hunread : LastUnread elements) : ∃ (s' : Growbuffers) (elements' : List (Nat × Growbuffer)),
      growbufferAppend malloc s data = some (data.length, s') ∧ s'.Holds elements' (contents ++ data) ∧ LastUnread elements' := by
  obtain ⟨s', kept, rest, elements', heq, rfl, hholds, hunread', hrest⟩ := growbufferAppend_eq hmalloc data h hunread
  obtain rfl := hrest hmemory
  rw [if_pos rfl] at heq
  exact ⟨s', elements', heq, by rwa [List.append_nil], hunread'⟩

/-- The parts go into the ring one behind the other. -/
theorem appendParts_eq (hmalloc : MallocDocumented malloc) (hmemory : MallocSucceeds malloc) (etags : List CString) :
    ∀ {i : Nat} {buf : Bytes} {s : Growbuffers} {elements : List (Nat × Growbuffer)} {contents : Bytes} {size : Nat},
      buf.length = 256 → (∀ part ∈ completeParts i etags, part.length < 256) → s.Holds elements contents →
        LastUnread elements → size = contents.length →
          ∃ (s' : Growbuffers) (elements' : List (Nat × Growbuffer)),
            appendParts malloc i etags buf s size = some (s', (contents ++ (completeParts i etags).flatten).length) ∧
              s'.Holds elements' (contents ++ (completeParts i etags).flatten) ∧ LastUnread elements' := by
  induction etags with
  | nil =>
    intro i buf s elements contents size _ _ hholds hunread hsize
    rw [completeParts, List.flatten_nil, List.append_nil, appendParts, hsize]
    exact ⟨s, elements, rfl, hholds, hunread⟩
  | cons etag etags ih =>
    intro i buf s elements contents size hbuf hparts hholds hunread hsize
    rw [completeParts, List.forall_mem_cons] at hparts
    obtain ⟨buf', hprint, hbuf'⟩ := printPart_eq hbuf hparts.1
    obtain ⟨s₁, elements₁, happend, hholds₁, hunread₁⟩ :=
      growbufferAppend_whole hmalloc hmemory (completePart (i + 1) etag) hholds hunread
    obtain ⟨s', elements', hrest, hholds', hunread'⟩ :=
      ih hbuf' hparts.2 hholds₁ hunread₁ (show size + (completePart (i + 1) etag).length = _ by rw [List.length_append, hsize])
    rw [List.append_assoc, ← List.flatten_cons, ← completeParts] at hrest hholds'
    refine ⟨s', elements', ?_, hholds', hunread'⟩
    rw [appendParts, hprint, Option.bind_some]
    simp only [happend, Option.bind_some]
    exact hrest

/-- The ring holds the message, and its length is what remains to be sent. -/
theorem completeMessage_eq (hmalloc : MallocDocumented malloc) (hmemory : MallocSucceeds malloc) {buf : Bytes} {etags : List CString}
    (hbuf : buf.length = 256) (hparts : ∀ part ∈ completeParts 0 etags, part.length < 256) :
    ∃ (manager : UploadManager) (elements : List (Nat × Growbuffer)), completeMessage malloc buf etags = some manager ∧
      manager.gb.Holds elements (completeXml etags) ∧ manager.remaining = (completeXml etags).length := by
  obtain ⟨s₁, elements₁, hstart, hholds₁, hunread₁⟩ := growbufferAppend_whole hmalloc hmemory (str "<CompleteMultipartUpload>")
    Growbuffers.empty_holds fun _ h => absurd h (by simp)
  rw [List.nil_append] at hholds₁
  obtain ⟨s₂, elements₂, hloop, hholds₂, hunread₂⟩ := appendParts_eq hmalloc hmemory etags hbuf hparts hholds₁ hunread₁ rfl
  obtain ⟨s₃, elements₃, hend, hholds₃, -⟩ := growbufferAppend_whole hmalloc hmemory (str "</CompleteMultipartUpload>")
    hholds₂ hunread₂
  refine ⟨⟨s₃, (completeXml etags).length⟩, elements₃, ?_, hholds₃, rfl⟩
  rw [completeMessage, hstart, Option.bind_some]
  simp only [hloop, Option.bind_some, hend, Option.map_some, completeXml, List.length_append]

/-- The callback takes bytes from what remains, some when there are any and it is asked for some. -/
theorem multipartPutXmlCallback_eq (bufferSize : Nat) {manager : UploadManager} {elements : List (Nat × Growbuffer)}
    {contents : Bytes} (h : manager.gb.Holds elements contents) (hremaining : manager.remaining = contents.length) :
    ∃ (buffer rest : Bytes) (manager' : UploadManager) (elements' : List (Nat × Growbuffer)),
      multipartPutXmlCallback manager bufferSize = some (buffer, manager') ∧ contents = buffer ++ rest ∧
        buffer.length ≤ bufferSize ∧ manager'.gb.Holds elements' rest ∧ manager'.remaining = rest.length ∧
          (0 < bufferSize → contents ≠ [] → buffer ≠ []) := by
  by_cases hzero : manager.remaining = 0
  · obtain rfl := List.length_eq_zero_iff.mp (hremaining.symm.trans hzero)
    exact ⟨[], [], manager, elements, by rw [multipartPutXmlCallback, if_neg (not_not_intro hzero)], rfl, Nat.zero_le _, h,
      hremaining, fun _ hne => absurd rfl hne⟩
  · generalize htoRead : (if manager.remaining > bufferSize then bufferSize else manager.remaining) = toRead
    have hle : toRead ≤ bufferSize ∧ (0 < bufferSize → 0 < toRead) := by
      rw [← htoRead]
      split <;> omega
    obtain ⟨buffer, rest, gb, elements', hread, rfl, hholds, hlength, hne⟩ := growbufferRead_eq toRead h
    refine ⟨buffer, rest, ⟨gb, manager.remaining - buffer.length⟩, elements', ?_, rfl, hlength.trans hle.1, hholds, ?_,
      fun hpos => hne (hle.2 hpos)⟩
    · simp only [multipartPutXmlCallback, if_pos hzero, htoRead, hread, Option.map_some]
    · show manager.remaining - buffer.length = rest.length
      rw [hremaining, List.length_append]
      omega

/-- The callbacks take the message from its start on, and get ahead while something remains. -/
theorem sendMessage_eq (sizes : List Nat) : ∀ {manager : UploadManager} {elements : List (Nat × Growbuffer)} {contents : Bytes},
    manager.gb.Holds elements contents → manager.remaining = contents.length →
      ∃ (sent rest : Bytes) (manager' : UploadManager) (elements' : List (Nat × Growbuffer)),
        sendMessage manager sizes = some (sent, manager') ∧ contents = sent ++ rest ∧ manager'.gb.Holds elements' rest ∧
          manager'.remaining = rest.length ∧ sent.length ≤ sizes.sum ∧
            ((∀ size ∈ sizes, 0 < size) → rest = [] ∨ sizes.length ≤ sent.length) := by
  induction sizes with
  | nil =>
    intro manager elements contents h hremaining
    exact ⟨[], contents, manager, elements, rfl, rfl, h, hremaining, le_rfl, fun _ => Or.inr le_rfl⟩
  | cons size sizes ih =>
    intro manager elements contents h hremaining
    obtain ⟨buffer, rest, manager₁, elements₁, hcallback, rfl, hlength, hholds₁, hremaining₁, hne⟩ :=
      multipartPutXmlCallback_eq size h hremaining
    obtain ⟨sent, rest', manager', elements', hsend, rfl, hholds', hremaining', hsum, hahead⟩ := ih hholds₁ hremaining₁
    refine ⟨buffer ++ sent, rest', manager', elements', ?_, (List.append_assoc ..).symm, hholds', hremaining', ?_, fun hpos => ?_⟩
    · rw [sendMessage, hcallback, Option.bind_some]
      simp only [hsend, Option.map_some]
    · rw [List.length_append, List.sum_cons]
      omega
    · obtain ⟨hsize, hsizes⟩ := List.forall_mem_cons.mp hpos
      by_cases hcontents : buffer ++ (sent ++ rest') = []
      · exact Or.inl (List.append_eq_nil_iff.mp (List.append_eq_nil_iff.mp hcontents).2).2
      · have hbuffer := List.length_pos_iff.mpr (hne hsize hcontents)
        refine (hahead hsizes).imp id fun hle => ?_
        rw [List.length_append, List.length_cons]
        omega

end Sauvegarde
