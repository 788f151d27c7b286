import Sauvegarde.Libcdpfgl.Communique

/-!
# Upload and download of one request

`read_data` and `write_data` both count in the field `pos`: the first chunk of an answer overwrites the position in the buffer
that is sent, and bytes sent after it move the position at which the next chunk is put. What is sent and what is received are
right only for the orders of the calls named by `Undisturbed`, and for answers of at most 2^32 chunks, whose numbers do not wrap.
-/

namespace Sauvegarde

namespace Callback

/-- Whether the call is one of `read_data`. -/
def isRead : Callback → Bool
  | read _ => true
  | write _ => false

/-- The bytes a call asks for. -/
def asked : Callback → Nat
  | read size => size
  | write _ => 0

/-- The bytes a call delivers. -/
def delivered : Callback → Bytes
  | read _ => []
  | write chunk => chunk

/-- libcurl asks for at least one byte and delivers at least one. -/
def Nonempty : Callback → Prop
  | read size => 0 < size
  | write chunk => chunk ≠ []

end Callback

/-- The bytes of the answer that calls deliver. -/
def received (cs : List Callback) : Bytes := cs.flatMap Callback.delivered

/-- The bytes calls ask for. -/
def askedFor (cs : List Callback) : Nat := (cs.map Callback.asked).sum

/-- The number of chunks that calls deliver. -/
def chunkCount (cs : List Callback) : Nat := cs.countP fun cb => !cb.isRead

@[simp] theorem received_nil : received [] = [] := rfl

@[simp] theorem received_cons (cb : Callback) (cs : List Callback) : received (cb :: cs) = cb.delivered ++ received cs := rfl

@[simp] theorem received_append (cs cs' : List Callback) : received (cs ++ cs') = received cs ++ received cs' := by
  simp [received]

@[simp] theorem chunkCount_nil : chunkCount [] = 0 := rfl

@[simp] theorem chunkCount_read (size : Nat) (cs : List Callback) : chunkCount (.read size :: cs) = chunkCount cs := by
  simp [chunkCount, Callback.isRead]

@[simp] theorem chunkCount_write (chunk : Bytes) (cs : List Callback) : chunkCount (.write chunk :: cs) = chunkCount cs + 1 := by
  simp [chunkCount, Callback.isRead]

@[simp] theorem chunkCount_append (cs cs' : List Callback) : chunkCount (cs ++ cs') = chunkCount cs + chunkCount cs' := by
  simp [chunkCount]

@[simp] theorem askedFor_cons (cb : Callback) (cs : List Callback) : askedFor (cb :: cs) = cb.asked + askedFor cs := by
  simp [askedFor]

/-- The upload was read to its end: the last call of `read_data` handed out nothing, and no other did. -/
def ReadToEnd (handed : List Bytes) : Prop := ∃ sent, handed = sent ++ [[]] ∧ ∀ bytes ∈ sent, bytes ≠ []

/-- The buffer holds the bytes received, and is `NULL` when there were none. -/
def BufferHolds (buffer : Option Bytes) (bytes : Bytes) : Prop :=
  if bytes = [] then buffer = none else buffer = some (bytes ++ [0])

/-- The calls before the first chunk. -/
def beforeAnswer (cs : List Callback) : List Callback := cs.takeWhile Callback.isRead

/-- The chunks received before `read_data` is called again. -/
def firstChunks (cs : List Callback) : List Callback := (cs.dropWhile Callback.isRead).takeWhile fun cb => !cb.isRead

/-- The calls from the first `read_data` after a chunk on. -/
def afterChunks (cs : List Callback) : List Callback := (cs.dropWhile Callback.isRead).dropWhile fun cb => !cb.isRead

/-- The orders of the calls in which upload and download do not disturb each other: there is no answer and no buffer left from
before; or there is an answer and `read_data` is not called after its first chunk, or everything was sent before that chunk
and at the next `read_data` as much was received as was sent, or as much was received as was sent at the next `read_data` and
no chunk follows. -/
def Undisturbed (length : Nat) (buffer : Option Bytes) (cs : List Callback) : Prop :=
  let sent := min length (askedFor (beforeAnswer cs))
  let got := (received (firstChunks cs)).length
  (received cs = [] → buffer = none) ∧
    (afterChunks cs = [] ∨ (sent = length ∧ length ≤ got) ∨ (sent = got ∧ received (afterChunks cs) = []))

namespace StreamsAux

theorem run_append (t : Transfer) (cs cs' : List Callback) : t.run (cs ++ cs') = (t.run cs).run cs' := by
  simp [Transfer.run]

theorem run_cons (t : Transfer) (cb : Callback) (cs : List Callback) : t.run (cb :: cs) = (t.step cb).run cs := rfl

theorem step_read (t : Transfer) (size : Nat) :
    t.step (.read size) = ⟨(readData t.comm size).1, t.handed ++ [(readData t.comm size).2], t.overread⟩ := rfl

/-- The calls are the reads before the answer, the first chunks, and what comes after. -/
theorem split_eq (cs : List Callback) : cs = beforeAnswer cs ++ firstChunks cs ++ afterChunks cs := by
  rw [List.append_assoc, firstChunks, afterChunks, List.takeWhile_append_dropWhile, beforeAnswer,
    List.takeWhile_append_dropWhile]

/-- What the calls never change: what is sent and how long it is. -/
structure Sends (comm : Comm) (readbuffer : Bytes) : Prop where
  readBytes : comm.readBytes = readbuffer
  length : comm.length = readbuffer.length

/-- The bytes one call of `read_data` hands out are the next ones, as many as asked for and there are. -/
theorem readData_spec {comm : Comm} {readbuffer : Bytes} (h : Sends comm readbuffer) (size : Nat) :
    (readData comm size).2 = (readbuffer.drop comm.pos).take size ∧
      Sends (readData comm size).1 readbuffer ∧
      (readData comm size).1.pos = comm.pos + (readData comm size).2.length ∧
      (readData comm size).1.seq = comm.seq ∧ (readData comm size).1.buffer = comm.buffer := by
  have hlen := h.length
  have hbytes := h.readBytes
  unfold readData
  split_ifs with hend hcut
  · have hnil : readbuffer.drop comm.pos = [] := List.drop_eq_nil_of_le (by omega)
    exact ⟨by rw [hnil, List.take_nil], h, by simp, rfl, rfl⟩
  · refine ⟨?_, ⟨hbytes, hlen⟩, ?_, rfl, rfl⟩
    · rw [hbytes, List.take_of_length_le (by simp only [List.length_drop]; omega),
        List.take_of_length_le (by simp only [List.length_drop]; omega)]
    · simp only [hbytes, List.length_take, List.length_drop]
      omega
  · refine ⟨by rw [hbytes], ⟨hbytes, hlen⟩, ?_, rfl, rfl⟩
    simp only [hbytes, List.length_take, List.length_drop]
    omega

/-- What calls of `read_data` in a row hand out of what is left of the buffer. -/
def handedOf (left : Bytes) : List Callback → List Bytes
  | [] => []
  | cb :: cs => left.take cb.asked :: handedOf (left.drop cb.asked) cs

/-- Together it is the beginning of what is left, as long as was asked for. -/
theorem flatten_handedOf (cs : List Callback) : ∀ left : Bytes, (handedOf left cs).flatten = left.take (askedFor cs) := by
  induction cs with
  | nil => intro left; simp [handedOf, askedFor]
  | cons cb cs ih =>
    intro left
    rw [handedOf, List.flatten_cons, ih, askedFor_cons, List.take_add]

/-- When the last call hands out nothing, all that was left was handed out. -/
theorem flatten_handedOf_of_end (cs : List Callback) (hcs : ∀ cb ∈ cs, 0 < cb.asked) :
    ∀ {left : Bytes} {sent : List Bytes}, handedOf left cs = sent ++ [[]] → (handedOf left cs).flatten = left := by
  induction cs with
  | nil => intro left sent h; simp [handedOf] at h
  | cons cb cs ih =>
    intro left sent h
    have hasked := hcs cb List.mem_cons_self
    rw [handedOf] at h
    rw [handedOf, List.flatten_cons]
    rcases sent with _ | ⟨bytes, sent⟩
    · simp only [List.nil_append, List.cons.injEq, List.take_eq_nil_iff] at h
      obtain ⟨hleft | hleft, hrest⟩ := h
      · omega
      · rw [hrest, hleft]
        simp
    · simp only [List.cons_append, List.cons.injEq] at h
      rw [ih (fun cb hcb => hcs cb (List.mem_cons_of_mem _ hcb)) h.2, List.take_append_drop]

/-- Calls of `read_data` in a row hand out the next bytes and change nothing but the position. -/
theorem run_reads {readbuffer : Bytes} {cs : List Callback} (hcs : ∀ cb ∈ cs, cb.isRead = true) :
    ∀ {t : Transfer}, Sends t.comm readbuffer →
      (t.run cs).handed = t.handed ++ handedOf (readbuffer.drop t.comm.pos) cs ∧ Sends (t.run cs).comm readbuffer ∧
        (t.run cs).comm.pos = t.comm.pos + (handedOf (readbuffer.drop t.comm.pos) cs).flatten.length ∧
        (t.run cs).comm.seq = t.comm.seq ∧ (t.run cs).comm.buffer = t.comm.buffer ∧
        (t.run cs).overread = t.overread := by
  induction cs with
  | nil => intro t h; exact ⟨by simp [Transfer.run, handedOf], h, by simp [Transfer.run, handedOf], rfl, rfl, rfl⟩
  | cons cb cs ih =>
    intro t h
    cases cb with
    | write chunk => exact absurd (hcs _ List.mem_cons_self) (by simp [Callback.isRead])
    | read size =>
      obtain ⟨hout, hsends, hpos, hseq, hbuffer⟩ := readData_spec h size
      obtain ⟨hhanded, hsends', hpos', hseq', hbuffer', hover⟩ :=
        ih (fun cb hcb => hcs cb (List.mem_cons_of_mem _ hcb)) (t := t.step (.read size)) hsends
      have hleft : readbuffer.drop (readData t.comm size).1.pos = (readbuffer.drop t.comm.pos).drop size := by
        rw [hpos, hout, List.drop_drop, List.length_take]
        rcases Nat.le_total size (readbuffer.drop t.comm.pos).length with hle | hle
        · rw [Nat.min_eq_left hle]
        · rw [Nat.min_eq_right hle]
          simp only [List.length_drop] at hle ⊢
          rw [List.drop_eq_nil_of_le (by omega), List.drop_eq_nil_of_le (by omega)]
      rw [step_read] at hhanded hsends' hpos' hseq' hbuffer' hover
      rw [hleft] at hhanded hpos'
      rw [run_cons, step_read, handedOf, Callback.asked]
      refine ⟨?_, hsends', ?_, hseq'.trans hseq, hbuffer'.trans hbuffer, hover⟩
      · rw [hhanded, hout, List.append_assoc, List.singleton_append]
      · rw [hpos', hpos, hout, List.flatten_cons, List.length_append]
        omega

/-- Each call of `read_data` adds one to what was handed out, be it nothing. -/
theorem run_handed (cs : List Callback) : ∀ t : Transfer,
    ∃ handed, (t.run cs).handed = t.handed ++ handed ∧ (handed = [] → ∀ cb ∈ cs, cb.isRead = false) := by
  induction cs with
  | nil => intro t; exact ⟨[], by simp [Transfer.run], by simp⟩
  | cons cb cs ih =>
    intro t
    obtain ⟨handed, hhanded, hnil⟩ := ih (t.step cb)
    cases cb with
    | read size =>
      refine ⟨(readData t.comm size).2 :: handed, ?_, by simp⟩
      rw [run_cons, hhanded, step_read, List.append_assoc, List.singleton_append]
    | write chunk =>
      have hsame : (t.step (.write chunk)).handed = t.handed := by
        simp only [Transfer.step]
        split <;> rfl
      refine ⟨handed, by rw [run_cons, hhanded, hsame], fun h => ?_⟩
      rw [List.forall_mem_cons]
      exact ⟨rfl, hnil h⟩

/-- No chunk of those that are left has the number 0, when the next one has this number. -/
def Numbered (seq : UInt32) (left : Nat) : Prop := left = 0 ∨ (0 < seq.toNat ∧ seq.toNat + left ≤ 2 ^ 32)

theorem Numbered.ne_zero {seq : UInt32} {left : Nat} (h : Numbered seq (left + 1)) : seq ≠ 0 := by
  rintro rfl
  rcases h with h | ⟨h, -⟩
  · omega
  · exact absurd h (by decide)

theorem Numbered.succ {seq : UInt32} {left : Nat} (h : Numbered seq (left + 1)) : Numbered (seq + 1) left := by
  rcases h with h | ⟨hpos, hle⟩
  · omega
  · by_cases hleft : left = 0
    · exact Or.inl hleft
    · have hsucc : (seq + 1).toNat = seq.toNat + 1 := by
        rw [UInt32.toNat_add, UInt32.toNat_one, Nat.mod_eq_of_lt (by omega)]
      exact Or.inr (by omega)

/-- The first chunk has the number 0, and the others have not when they are few. -/
theorem numbered_first {left : Nat} (h : left < 2 ^ 32) : Numbered (0 + 1) left := by
  have hone : ((0 : UInt32) + 1).toNat = 1 := by decide
  exact Or.inr (by omega)

/-- After chunks with no byte sent between them: the buffer holds them, and the position is its length. -/
structure Clean (t : Transfer) (bytes : Bytes) (left : Nat) : Prop where
  buffer : t.comm.buffer = some (bytes ++ [0])
  pos : t.comm.pos = bytes.length
  seq : Numbered t.comm.seq left
  overread : t.overread = false

/-- The first chunk starts the buffer, wherever the position was. -/
theorem step_first {t : Transfer} (hseq : t.comm.seq = 0) (hover : t.overread = false) (chunk : Bytes) {left : Nat}
    (hleft : left < 2 ^ 32) :
    Clean (t.step (.write chunk)) chunk left ∧ (t.step (.write chunk)).handed = t.handed := by
  simp only [Transfer.step, writeData, hseq, if_true, copyBuffer, List.take_length]
  exact ⟨⟨rfl, rfl, numbered_first hleft, hover⟩, trivial⟩

/-- The next chunk goes behind the others. -/
theorem step_next {t : Transfer} {bytes : Bytes} {left : Nat} (h : Clean t bytes (left + 1)) (chunk : Bytes) :
    Clean (t.step (.write chunk)) (bytes ++ chunk) left ∧ (t.step (.write chunk)).handed = t.handed := by
  have hconcat : concatBuffer t.comm.buffer t.comm.pos (some chunk) chunk.length = some (some (bytes ++ chunk ++ [0])) := by
    rw [h.buffer, h.pos, concatBuffer, if_pos ⟨by simp, le_refl _⟩, List.take_left', List.take_length]
    rfl
  simp only [Transfer.step, writeData, h.seq.ne_zero, if_false, hconcat, Option.map_some]
  exact ⟨⟨rfl, by simp [h.pos], h.seq.succ, h.overread⟩, trivial⟩

/-- A call of the transfer leaves alone what is sent. -/
theorem sends_step {t : Transfer} {readbuffer : Bytes} (h : Sends t.comm readbuffer) (cb : Callback) :
    Sends (t.step cb).comm readbuffer := by
  cases cb with
  | read size => exact (readData_spec h size).2.1
  | write chunk =>
    simp only [Transfer.step, writeData]
    split
    · rename_i comm hcomm
      split_ifs at hcomm
      · rw [Option.some.injEq] at hcomm
        subst hcomm
        exact ⟨h.readBytes, h.length⟩
      · obtain ⟨concat, _, rfl⟩ := Option.map_eq_some_iff.mp hcomm
        exact ⟨h.readBytes, h.length⟩
    · exact ⟨h.readBytes, h.length⟩

/-- Chunks in a row after the first keep the buffer clean. -/
theorem run_chunks {readbuffer : Bytes} {cs : List Callback} (hcs : ∀ cb ∈ cs, cb.isRead = false) {left : Nat} :
    ∀ {t : Transfer} {bytes : Bytes}, Clean t bytes (chunkCount cs + left) → Sends t.comm readbuffer →
      Clean (t.run cs) (bytes ++ received cs) left ∧ (t.run cs).handed = t.handed ∧ Sends (t.run cs).comm readbuffer := by
  induction cs with
  | nil => intro t bytes h hsends; exact ⟨by simpa [Transfer.run, chunkCount] using h, rfl, hsends⟩
  | cons cb cs ih =>
    intro t bytes h hsends
    cases cb with
    | read size => exact absurd (hcs _ List.mem_cons_self) (by simp [Callback.isRead])
    | write chunk =>
      rw [chunkCount_write, Nat.succ_add] at h
      obtain ⟨hclean, hhanded⟩ := step_next h chunk
      obtain ⟨hclean', hhanded', hsends'⟩ :=
        ih (fun cb hcb => hcs cb (List.mem_cons_of_mem _ hcb)) hclean (sends_step hsends _)
      refine ⟨?_, hhanded'.trans hhanded, hsends'⟩
      rw [run_cons, received_cons, ← List.append_assoc]
      exact hclean'

/-- The position is past what was received, and the buffer too long or read past its end. -/
def Shifted (t : Transfer) (got left : Nat) : Prop :=
  got < t.comm.pos ∧ Numbered t.comm.seq left ∧ (t.overread = true ∨ ∃ b, t.comm.buffer = some b ∧ got + 1 < b.length)

/-- A chunk received after bytes were sent since the last one is put in the wrong place. -/
theorem step_shifts {t : Transfer} (bytes : Bytes) (hbuffer : t.comm.buffer = some (bytes ++ [0]))
    (hpos : bytes.length < t.comm.pos) {left : Nat} (hseq : Numbered t.comm.seq (left + 1)) (chunk : Bytes) :
    Shifted (t.step (.write chunk)) (bytes ++ chunk).length left := by
  simp only [Transfer.step, writeData, hseq.ne_zero, if_false, hbuffer, concatBuffer, le_refl, and_true, List.length_append]
  split_ifs with hle
  · refine ⟨by simpa using hpos, hseq.succ, Or.inr ⟨_, rfl, ?_⟩⟩
    simp only [List.length_append, List.length_take, List.length_cons, List.length_nil] at hle ⊢
    omega
  · exact ⟨by simpa using hpos, hseq.succ, Or.inl rfl⟩

/-- From then on nothing sets it right. -/
theorem step_shifted {t : Transfer} {readbuffer : Bytes} (hsends : Sends t.comm readbuffer) {got left : Nat} (cb : Callback)
    (h : Shifted t got (chunkCount [cb] + left)) : Shifted (t.step cb) (got + cb.delivered.length) left := by
  obtain ⟨hpos, hseq, hbuffer⟩ := h
  cases cb with
  | read size =>
    obtain ⟨_, _, hpos', hseq', hbuffer'⟩ := readData_spec hsends size
    rw [chunkCount_read, chunkCount_nil, Nat.zero_add] at hseq
    refine ⟨?_, by rw [Transfer.step, hseq']; exact hseq, ?_⟩
    · simp only [Transfer.step, hpos', Callback.delivered, List.length_nil]
      omega
    · simpa [Transfer.step, hbuffer', Callback.delivered] using hbuffer
  | write chunk =>
    rw [chunkCount_write, chunkCount_nil, Nat.zero_add, Nat.add_comm] at hseq
    simp only [Transfer.step, writeData, hseq.ne_zero, if_false, Callback.delivered]
    rcases hbuffer with hover | ⟨b, hb, hlen⟩
    · split
      · rename_i comm hcomm
        obtain ⟨concat, _, rfl⟩ := Option.map_eq_some_iff.mp hcomm
        exact ⟨by simpa using hpos, hseq.succ, Or.inl hover⟩
      · exact ⟨by simpa using hpos, hseq.succ, Or.inl rfl⟩
    · simp only [hb, concatBuffer, le_refl, and_true]
      split_ifs with hle
      · refine ⟨by simpa using hpos, hseq.succ, Or.inr ⟨_, rfl, ?_⟩⟩
        simp only [List.length_append, List.length_take, List.length_cons, List.length_nil]
        omega
      · exact ⟨by simpa using hpos, hseq.succ, Or.inl rfl⟩

/-- Nor do all the calls that follow. -/
theorem run_shifted {readbuffer : Bytes} {left : Nat} (cs : List Callback) : ∀ {t : Transfer} {got : Nat},
    Sends t.comm readbuffer → Shifted t got (chunkCount cs + left) →
      Shifted (t.run cs) (got + (received cs).length) left := by
  induction cs with
  | nil => intro t got _ h; simpa [Transfer.run] using h
  | cons cb cs ih =>
    intro t got hsends h
    rw [show cb :: cs = [cb] ++ cs from rfl, chunkCount_append, Nat.add_assoc] at h
    have hstep := ih (sends_step hsends cb) (step_shifted hsends cb h)
    rw [run_cons, received_cons, List.length_append, ← Nat.add_assoc]
    exact hstep

/-- The end of the upload is the last thing handed out. -/
theorem eq_nil_of_readToEnd {before after : List Bytes} (h : ReadToEnd (before ++ [] :: after)) : after = [] := by
  obtain ⟨sent, heq, hsent⟩ := h
  rcases List.eq_nil_or_concat after with rfl | ⟨after, last, rfl⟩
  · rfl
  · have hprefix : before ++ [] :: after = sent := by
      have h : (before ++ [] :: after) ++ [last] = sent ++ [[]] := by simpa using heq
      exact (List.append_inj' h rfl).1
    exact absurd rfl (hsent [] (by rw [← hprefix]; simp))

/-- When the upload ends in the second of two parts, that part ends with nothing. -/
theorem readToEnd_right {before after : List Bytes} (h : ReadToEnd (before ++ after)) (hne : after ≠ []) :
    ∃ sent, after = sent ++ [[]] := by
  obtain ⟨sent, heq, _⟩ := h
  obtain ⟨after, last, rfl⟩ := (List.eq_nil_or_concat after).resolve_left hne
  refine ⟨after, ?_⟩
  have h : (before ++ after) ++ [last] = sent ++ [[]] := by simpa using heq
  rw [List.concat_eq_append, (List.append_inj' h rfl).2]

/-- What was received is nothing only if there was no chunk. -/
theorem isRead_of_received_nil {cs : List Callback} (hcs : ∀ cb ∈ cs, cb.Nonempty) (h : received cs = []) :
    ∀ cb ∈ cs, cb.isRead = true := by
  intro cb hcb
  cases cb with
  | read size => rfl
  | write chunk =>
    have hchunk : chunk = [] := by
      simp only [received, List.flatMap_eq_nil_iff] at h
      exact h _ hcb
    exact absurd hchunk (hcs _ hcb)

/-- Calls of `read_data` receive nothing. -/
theorem received_of_isRead {cs : List Callback} (h : ∀ cb ∈ cs, cb.isRead = true) : received cs = [] := by
  simp only [received, List.flatMap_eq_nil_iff]
  intro cb hcb
  cases cb with
  | read size => rfl
  | write chunk => exact absurd (h _ hcb) (by simp [Callback.isRead])

theorem chunkCount_of_isRead {cs : List Callback} (h : ∀ cb ∈ cs, cb.isRead = true) : chunkCount cs = 0 := by
  rw [chunkCount, List.countP_eq_zero]
  intro cb hcb
  simp [h cb hcb]

/-- A list cut short and continued from another point is whole only if the two points are the same. -/
theorem take_append_drop_iff {bytes : Bytes} {m n : Nat} (hn : n < bytes.length) :
    bytes.take m ++ bytes.drop n = bytes ↔ min bytes.length m = n := by
  constructor
  · intro h
    have hlength := congrArg List.length h
    simp only [List.length_append, List.length_take, List.length_drop] at hlength
    omega
  · intro h
    have hm : m = n := by omega
    rw [hm, List.take_append_drop]

theorem take_eq_self_iff {bytes : Bytes} {m : Nat} : bytes.take m = bytes ↔ min bytes.length m = bytes.length := by
  rw [List.take_eq_self_iff]
  omega

/-- The parts of the calls of a transfer: reads, then chunks, then calls that begin with a read. -/
theorem split_spec (cs : List Callback) :
    (∀ cb ∈ beforeAnswer cs, cb.isRead = true) ∧ (∀ cb ∈ firstChunks cs, cb.isRead = false) ∧
      (firstChunks cs = [] → afterChunks cs = []) ∧ ∀ cb ∈ (afterChunks cs).head?, cb.isRead = true := by
  refine ⟨fun cb hcb => List.mem_takeWhile_imp hcb, fun cb hcb => ?_, fun h => ?_, fun cb hcb => ?_⟩
  · simpa using List.mem_takeWhile_imp hcb
  · have hhead := List.head?_dropWhile_not Callback.isRead cs
    rw [firstChunks] at h
    rw [afterChunks]
    rcases hrest : cs.dropWhile Callback.isRead with _ | ⟨cb, rest⟩
    · rfl
    · rw [hrest] at h hhead
      simp only [List.head?_cons] at hhead
      simp [hhead] at h
  · have hhead := List.head?_dropWhile_not (fun cb => !Callback.isRead cb) (cs.dropWhile Callback.isRead)
    rw [afterChunks, Option.mem_def] at hcb
    rw [hcb] at hhead
    simpa using hhead

end StreamsAux

/-- A transfer did what it is for: no buffer was read past its end, what was sent is the buffer to send, and the buffer holds
what was received. -/
def Intact (t : Transfer) (readbuffer : Bytes) (cs : List Callback) : Prop :=
  t.overread = false ∧ t.handed.flatten = readbuffer ∧ BufferHolds t.comm.buffer (received cs)

namespace StreamsAux

/-- A transfer before its first call, with something to send. -/
structure Starts (t : Transfer) (readbuffer : Bytes) : Prop where
  sends : Sends t.comm readbuffer
  pos : t.comm.pos = 0
  seq : t.comm.seq = 0
  handed : t.handed = []
  overread : t.overread = false

/-- A read asks for something. -/
theorem asked_pos {cs : List Callback} (hcs : ∀ cb ∈ cs, cb.Nonempty) (hreads : ∀ cb ∈ cs, cb.isRead = true) :
    ∀ cb ∈ cs, 0 < cb.asked := by
  intro cb hcb
  have hpos := hcs cb hcb
  have hread := hreads cb hcb
  cases cb with
  | read size => exact hpos
  | write chunk => simp [Callback.isRead] at hread

/-- With chunks something is received. -/
theorem received_ne_nil {cs : List Callback} (hne : cs ≠ []) (hcs : ∀ cb ∈ cs, cb.Nonempty)
    (hchunks : ∀ cb ∈ cs, cb.isRead = false) : received cs ≠ [] := by
  intro hnil
  obtain ⟨cb, rest, rfl⟩ := List.exists_cons_of_ne_nil hne
  have hread := isRead_of_received_nil hcs hnil cb List.mem_cons_self
  rw [hchunks cb List.mem_cons_self] at hread
  exact absurd hread (by simp)

/-- Without an answer all is right when no buffer was there before. -/
theorem intact_of_no_answer {t : Transfer} {readbuffer : Bytes} (ht : Starts t readbuffer) {cs : List Callback}
    (hcs : ∀ cb ∈ cs, cb.Nonempty) (hreads : ∀ cb ∈ cs, cb.isRead = true) (hend : ReadToEnd (t.run cs).handed) :
    Intact (t.run cs) readbuffer cs ↔ t.comm.buffer = none := by
  obtain ⟨hhanded, _, _, _, hbuffer, hover⟩ := run_reads hreads ht.sends
  rw [ht.handed, List.nil_append, ht.pos, List.drop_zero] at hhanded
  obtain ⟨sent, hsent, _⟩ := hend
  have hflat := flatten_handedOf_of_end cs (asked_pos hcs hreads) (hhanded.symm.trans hsent)
  rw [Intact, hover, ht.overread, hhanded, hflat, hbuffer, received_of_isRead hreads]
  simp [BufferHolds]

/-- After the first chunks: the buffer is clean, and what was sent is what was asked for before them. -/
theorem run_to_answer {t : Transfer} {readbuffer : Bytes} (ht : Starts t readbuffer) {before first : List Callback}
    (hbefore : ∀ cb ∈ before, cb.isRead = true) (hfirst : ∀ cb ∈ first, cb.isRead = false) (hne : first ≠ []) {left : Nat}
    (hleft : chunkCount first + left ≤ 2 ^ 32) :
    Clean (t.run (before ++ first)) (received first) left ∧
      (t.run (before ++ first)).handed = handedOf readbuffer before ∧
      Sends (t.run (before ++ first)).comm readbuffer := by
  obtain ⟨hhanded, hsends, _, hseq, _, hover⟩ := run_reads hbefore ht.sends
  rw [ht.handed, List.nil_append, ht.pos, List.drop_zero] at hhanded
  obtain ⟨cb, first, rfl⟩ := List.exists_cons_of_ne_nil hne
  cases cb with
  | read size => exact absurd (hfirst _ List.mem_cons_self) (by simp [Callback.isRead])
  | write chunk =>
    rw [chunkCount_write] at hleft
    obtain ⟨hclean, hhanded'⟩ := step_first (hseq.trans ht.seq) (hover.trans ht.overread) chunk
      (show chunkCount first + left < 2 ^ 32 by omega)
    obtain ⟨hclean', hhanded'', hsends'⟩ :=
      run_chunks (fun cb hcb => hfirst cb (List.mem_cons_of_mem _ hcb)) hclean (sends_step hsends _)
    rw [run_append, run_cons]
    exact ⟨hclean', hhanded''.trans (hhanded'.trans hhanded), hsends'⟩

/-- When as much was received as there is to send, the next `read_data` ends the upload, and the chunks after it go where they
belong. -/
theorem intact_of_ended {t : Transfer} {readbuffer bytes : Bytes} {rest : List Callback}
    (hclean : Clean t bytes (chunkCount rest)) (hsends : Sends t.comm readbuffer) {size : Nat} (hlen : readbuffer.length ≤ bytes.length)
    (hend : ReadToEnd (t.run (.read size :: rest)).handed) :
    (t.run (.read size :: rest)).overread = false ∧
      (t.run (.read size :: rest)).comm.buffer = some (bytes ++ received rest ++ [0]) ∧
      (t.run (.read size :: rest)).handed.flatten = t.handed.flatten := by
  have hread : readData t.comm size = (t.comm, []) := by
    rw [readData, if_pos (by rw [hsends.length, hclean.pos]; exact hlen)]
  have hstep : t.step (.read size) = { t with handed := t.handed ++ [[]] } := by rw [step_read, hread]
  have hclean' : Clean { t with handed := t.handed ++ [[]] } bytes (chunkCount rest + 0) :=
    ⟨hclean.buffer, hclean.pos, hclean.seq, hclean.overread⟩
  rw [run_cons, hstep] at hend ⊢
  obtain ⟨handed, hhanded, hnil⟩ := run_handed rest { t with handed := t.handed ++ [[]] }
  rw [hhanded, List.append_assoc, List.singleton_append] at hend
  have hchunks := hnil (eq_nil_of_readToEnd hend)
  obtain ⟨hclean'', hhanded', _⟩ := run_chunks hchunks hclean' hsends
  exact ⟨hclean''.overread, hclean''.buffer, by rw [hhanded']; simp⟩

/-- When only reads follow, what is behind the bytes received is sent after what was sent before. -/
theorem intact_of_reads {t : Transfer} {readbuffer bytes : Bytes} {left : Nat} (hclean : Clean t bytes left)
    (hsends : Sends t.comm readbuffer) {cs : List Callback} (hne : cs ≠ []) (hcs : ∀ cb ∈ cs, cb.Nonempty)
    (hreads : ∀ cb ∈ cs, cb.isRead = true) (hend : ReadToEnd (t.run cs).handed) :
    (t.run cs).overread = false ∧ (t.run cs).comm.buffer = some (bytes ++ [0]) ∧
      (t.run cs).handed.flatten = t.handed.flatten ++ readbuffer.drop bytes.length := by
  obtain ⟨hhanded, _, _, _, hbuffer, hover⟩ := run_reads hreads hsends
  obtain ⟨cb, rest, rfl⟩ := List.exists_cons_of_ne_nil hne
  obtain ⟨sent, hsent⟩ := readToEnd_right (hhanded ▸ hend) (by cases cb <;> simp [handedOf])
  have hflat := flatten_handedOf_of_end _ (asked_pos hcs hreads) hsent
  rw [hover, hbuffer, hhanded, List.flatten_append, hflat, hclean.pos]
  exact ⟨hclean.overread, hclean.buffer, rfl⟩

/-- When `read_data` hands out bytes after the first chunk, the next chunk goes where it does not belong. -/
theorem shifted_of_sent {t : Transfer} {readbuffer bytes : Bytes} {rest : List Callback}
    (hclean : Clean t bytes (chunkCount rest)) (hsends : Sends t.comm readbuffer) {size : Nat} (hsize : 0 < size)
    (hlen : bytes.length < readbuffer.length) (hrest : ∃ cb ∈ rest, cb.isRead = false) :
    Shifted (t.run (.read size :: rest)) (bytes ++ received rest).length 0 := by
  obtain ⟨hout, hsends', hpos, hseq, hbuffer⟩ := readData_spec hsends size
  have hreads : ∀ cb ∈ rest.takeWhile Callback.isRead, cb.isRead = true := fun cb hcb => List.mem_takeWhile_imp hcb
  have hmoved : bytes.length < (readData t.comm size).1.pos := by
    rw [hpos, hout, hclean.pos, List.length_take, List.length_drop]
    omega
  obtain ⟨_, hsends'', hpos', hseq', hbuffer', _⟩ :=
    run_reads hreads (t := t.step (.read size)) hsends'
  rw [step_read] at hpos' hseq' hbuffer' hsends''
  obtain ⟨cb, tail, htail⟩ : ∃ cb tail, rest.dropWhile Callback.isRead = cb :: tail := by
    apply List.exists_cons_of_ne_nil
    intro hnil
    rw [List.dropWhile_eq_nil_iff] at hnil
    obtain ⟨cb, hmem, hcb⟩ := hrest
    exact absurd (hnil cb hmem) (by simp [hcb])
  have hsplit : rest = rest.takeWhile Callback.isRead ++ cb :: tail := by
    rw [← htail, List.takeWhile_append_dropWhile]
  have hhead := List.head?_dropWhile_not Callback.isRead rest
  rw [htail] at hhead
  simp only [List.head?_cons] at hhead
  cases cb with
  | read n => simp [Callback.isRead] at hhead
  | write chunk =>
    have hreceived : received rest = chunk ++ received tail := by
      rw [hsplit, received_append, received_of_isRead hreads]
      rfl
    have hcount : chunkCount rest = chunkCount tail + 0 + 1 := by
      rw [hsplit, chunkCount_append, chunkCount_of_isRead hreads, chunkCount_write, Nat.zero_add, Nat.add_zero]
    have hshift : Shifted _ (bytes ++ chunk).length (chunkCount tail + 0) :=
      step_shifts (t := (t.step (.read size)).run (rest.takeWhile Callback.isRead)) bytes
        (by rw [step_read, hbuffer', hbuffer, hclean.buffer]) (by rw [step_read, hpos']; exact Nat.lt_add_right _ hmoved)
        (by rw [step_read, hseq', hseq, ← hcount]; exact hclean.seq) chunk
    have hrun := run_shifted tail (sends_step (t := (t.step (.read size)).run (rest.takeWhile Callback.isRead)) hsends'' _)
      hshift
    rw [hreceived, run_cons, hsplit, run_append, run_cons, ← List.append_assoc, List.length_append]
    exact hrun

/-- What a transfer leaves behind is not what was received when a chunk was put in the wrong place. -/
theorem not_holds_of_shifted {t : Transfer} {bytes : Bytes} {left : Nat} (h : Shifted t bytes.length left) :
    ¬ (t.overread = false ∧ t.comm.buffer = some (bytes ++ [0])) := by
  rintro ⟨hover, hbuffer⟩
  obtain ⟨_, _, hover' | ⟨b, hb, hlen⟩⟩ := h
  · exact absurd (hover.symm.trans hover') (by simp)
  · rw [hbuffer, Option.some.injEq] at hb
    subst hb
    simp at hlen

/-- When `read_data` is called again after the first chunks, all is right just when everything was sent before them and the upload ends
at this call, or as much was sent as was received and no chunk follows. -/
theorem intact_after_read_iff {t : Transfer} {readbuffer bytes : Bytes} {rest : List Callback}
    (hclean : Clean t bytes (chunkCount rest)) (hsends : Sends t.comm readbuffer) {asked : Nat}
    (hflat : t.handed.flatten = readbuffer.take asked) {size : Nat}
    (hcs : ∀ cb ∈ Callback.read size :: rest, cb.Nonempty) (hend : ReadToEnd (t.run (.read size :: rest)).handed) :
    ((t.run (.read size :: rest)).overread = false ∧ (t.run (.read size :: rest)).handed.flatten = readbuffer ∧
        (t.run (.read size :: rest)).comm.buffer = some (bytes ++ received rest ++ [0])) ↔
      (min readbuffer.length asked = readbuffer.length ∧ readbuffer.length ≤ bytes.length) ∨
        (min readbuffer.length asked = bytes.length ∧ received rest = []) := by
  have hsize : 0 < size := hcs _ List.mem_cons_self
  by_cases hlen : readbuffer.length ≤ bytes.length
  · -- the upload ends at this read
    obtain ⟨hover, hbuffer, hsame⟩ := intact_of_ended hclean hsends hlen hend
    rw [hover, hbuffer, hsame, hflat, take_eq_self_iff]
    constructor
    · rintro ⟨_, h, _⟩
      exact Or.inl ⟨h, hlen⟩
    · rintro (⟨h, _⟩ | ⟨h, _⟩)
      · exact ⟨rfl, h, rfl⟩
      · exact ⟨rfl, by omega, rfl⟩
  · by_cases hnil : received rest = []
    · -- only reads follow
      have hreads : ∀ cb ∈ Callback.read size :: rest, cb.isRead = true := isRead_of_received_nil hcs hnil
      obtain ⟨hover, hbuffer, hsent⟩ := intact_of_reads hclean hsends (List.cons_ne_nil _ _) hcs hreads hend
      rw [hover, hbuffer, hsent, hflat, take_append_drop_iff (by omega), hnil, List.append_nil]
      constructor
      · rintro ⟨_, h, _⟩
        exact Or.inr ⟨h, rfl⟩
      · rintro (⟨_, h⟩ | ⟨h, _⟩)
        · exact absurd h hlen
        · exact ⟨rfl, h, rfl⟩
    · -- bytes are sent between two chunks
      have hchunk : ∃ cb ∈ rest, cb.isRead = false := by
        by_contra hall
        refine hnil (received_of_isRead fun cb hcb => ?_)
        by_contra hread
        exact hall ⟨cb, hcb, by simpa using hread⟩
      have hbad := not_holds_of_shifted (shifted_of_sent hclean hsends hsize (by omega) hchunk)
      constructor
      · rintro ⟨hover, _, hbuffer⟩
        exact absurd ⟨hover, hbuffer⟩ hbad
      · rintro (⟨_, h⟩ | ⟨_, h⟩)
        · exact absurd h hlen
        · exact absurd h hnil

/-- For every order of the calls of a transfer whose upload is read to its end, with so few chunks that their numbers do not wrap,
all is right exactly for those that do not disturb each other. -/
theorem intact_iff_of_few {t : Transfer} {readbuffer : Bytes} (ht : Starts t readbuffer) {cs : List Callback}
    (hcs : ∀ cb ∈ cs, cb.Nonempty) (hfew : chunkCount cs ≤ 2 ^ 32) (hend : ReadToEnd (t.run cs).handed) :
    Intact (t.run cs) readbuffer cs ↔ Undisturbed readbuffer.length t.comm.buffer cs := by
  obtain ⟨hbefore, hfirst, hlast, hhead⟩ := split_spec cs
  have hsplit := split_eq cs
  have hmem : ∀ cb ∈ beforeAnswer cs ++ firstChunks cs ++ afterChunks cs, cb.Nonempty := by
    rw [← hsplit]
    exact hcs
  simp only [List.forall_mem_append] at hmem
  obtain ⟨⟨hneBefore, hneFirst⟩, hneAfter⟩ := hmem
  by_cases hne : firstChunks cs = []
  · -- there is no answer
    have hafter := hlast hne
    rw [hne, hafter, List.append_nil, List.append_nil] at hsplit
    have hreads : ∀ cb ∈ cs, cb.isRead = true := by
      rw [hsplit]
      exact hbefore
    rw [intact_of_no_answer ht hcs hreads hend, Undisturbed, hafter, received_of_isRead hreads]
    simp
  · have hcount : chunkCount (firstChunks cs) + chunkCount (afterChunks cs) = chunkCount cs := by
      conv_rhs => rw [hsplit]
      rw [chunkCount_append, chunkCount_append, chunkCount_of_isRead hbefore, Nat.zero_add]
    obtain ⟨hclean, hhanded, hsends⟩ := run_to_answer ht hbefore hfirst hne (hcount.trans_le hfew)
    have hreceived : received (firstChunks cs) ≠ [] := received_ne_nil hne hneFirst hfirst
    have htotal : received cs = received (firstChunks cs) ++ received (afterChunks cs) := by
      conv_lhs => rw [hsplit]
      rw [received_append, received_append, received_of_isRead hbefore, List.nil_append]
    have hsome : received cs ≠ [] := by
      rw [htotal]
      simp [hreceived]
    have hrun : t.run cs = (t.run (beforeAnswer cs ++ firstChunks cs)).run (afterChunks cs) := by
      conv_lhs => rw [hsplit]
      rw [run_append]
    rw [Intact, Undisturbed, BufferHolds, if_neg hsome, htotal]
    rw [hrun] at hend ⊢
    generalize t.run (beforeAnswer cs ++ firstChunks cs) = u at hclean hhanded hsends hend ⊢
    rcases hafter : afterChunks cs with _ | ⟨cb, rest⟩
    · -- nothing is read after the first chunk
      rw [hafter] at hend
      have hsent : u.handed.flatten = readbuffer := by
        obtain ⟨sent, hsent, _⟩ := hend
        rw [Transfer.run, List.foldl_nil, hhanded] at hsent
        rw [hhanded]
        exact flatten_handedOf_of_end _ (asked_pos hneBefore hbefore) hsent
      simp [Transfer.run, hclean.overread, hclean.buffer, hsent, hreceived]
    · cases cb with
      | write chunk =>
        have hread := hhead (.write chunk) (by rw [hafter]; rfl)
        simp [Callback.isRead] at hread
      | read size =>
        rw [hafter] at hend hneAfter hclean
        rw [chunkCount_read] at hclean
        have hflat : u.handed.flatten = readbuffer.take (askedFor (beforeAnswer cs)) := by
          rw [hhanded, flatten_handedOf]
        have hrest : received (Callback.read size :: rest) = received rest := rfl
        rw [hrest, intact_after_read_iff hclean hsends hflat hneAfter hend]
        simp [hreceived]

/-! ## Numbers that wrap -/

/-- Each chunk counts. -/
theorem seq_step (t : Transfer) (cb : Callback) : (t.step cb).comm.seq = t.comm.seq + UInt32.ofNat (chunkCount [cb]) := by
  cases cb with
  | read size =>
    have hseq : (readData t.comm size).1.seq = t.comm.seq := by
      unfold readData
      split_ifs <;> rfl
    rw [step_read, hseq, chunkCount_read, chunkCount_nil]
    exact (UInt32.add_zero _).symm
  | write chunk =>
    rw [chunkCount_write, chunkCount_nil]
    simp only [Transfer.step, writeData]
    split
    · rename_i comm hcomm
      split_ifs at hcomm
      · rw [← Option.some.inj hcomm]
        rfl
      · obtain ⟨concat, _, rfl⟩ := Option.map_eq_some_iff.mp hcomm
        rfl
    · rfl

/-- The number of the next chunk is that of the chunks received, in 32 bits. -/
theorem seq_run (cs : List Callback) : ∀ t : Transfer,
    (t.run cs).comm.seq = t.comm.seq + UInt32.ofNat (chunkCount cs) := by
  induction cs with
  | nil => exact fun t => (UInt32.add_zero _).symm
  | cons cb cs ih =>
    intro t
    rw [run_cons, ih, seq_step, show cb :: cs = [cb] ++ cs from rfl, chunkCount_append, UInt32.ofNat_add, UInt32.add_assoc]

/-- A chunk is a byte or more. -/
theorem chunkCount_le_length_received {cs : List Callback} (hcs : ∀ cb ∈ cs, cb.Nonempty) :
    chunkCount cs ≤ (received cs).length := by
  induction cs with
  | nil => exact le_refl _
  | cons cb cs ih =>
    have hrest := ih fun cb hcb => hcs cb (List.mem_cons_of_mem _ hcb)
    cases cb with
    | read size => exact hrest
    | write chunk =>
      have hpos := List.length_pos_iff.mpr (show chunk ≠ [] from hcs _ List.mem_cons_self)
      rw [chunkCount_write, received_cons, List.length_append, Callback.delivered]
      omega

/-- The chunk that comes when so many others came before. -/
theorem exists_chunk {n : Nat} {cs : List Callback} (h : n < chunkCount cs) :
    ∃ before chunk after, cs = before ++ .write chunk :: after ∧ chunkCount before = n := by
  induction cs generalizing n with
  | nil => exact absurd h (Nat.not_lt_zero n)
  | cons cb cs ih =>
    cases cb with
    | read size =>
      rw [chunkCount_read] at h
      obtain ⟨before, chunk, after, rfl, hcount⟩ := ih h
      exact ⟨.read size :: before, chunk, after, rfl, by rw [chunkCount_read, hcount]⟩
    | write first =>
      rcases n with _ | n
      · exact ⟨[], first, cs, rfl, rfl⟩
      · rw [chunkCount_write, Nat.add_lt_add_iff_right] at h
        obtain ⟨before, chunk, after, rfl, hcount⟩ := ih h
        exact ⟨.write first :: before, chunk, after, rfl, by rw [chunkCount_write, hcount]⟩

/-- The buffer was started once more, `k` chunks ago: it lacks the 2^32 bytes or more of the chunks before that, and a byte that
was sent between two chunks makes it at most one byte longer. -/
def Restarted (t : Transfer) (got : Nat) : Prop :=
  2 ^ 32 ≤ got ∧ ∃ k, 0 < k ∧ k ≤ 2 ^ 32 ∧ t.comm.seq = UInt32.ofNat k ∧
    (t.overread = true ∨ ∃ b, t.comm.buffer = some b ∧ b.length + 2 ^ 32 ≤ got + k)

/-- A chunk with the number 0 starts the buffer. -/
theorem step_restarts {t : Transfer} (hseq : t.comm.seq = 0) {got : Nat} (hgot : 2 ^ 32 ≤ got) (chunk : Bytes) :
    Restarted (t.step (.write chunk)) (got + chunk.length) := by
  simp only [Transfer.step, writeData, hseq, if_true, copyBuffer, List.take_length]
  refine ⟨by omega, 1, by decide, by decide, rfl, Or.inr ⟨_, rfl, ?_⟩⟩
  rw [List.length_append, List.length_singleton]
  omega

/-- The bytes before it are not made up for. -/
theorem step_restarted {t : Transfer} {got : Nat} (h : Restarted t got) (cb : Callback) :
    Restarted (t.step cb) (got + cb.delivered.length) := by
  obtain ⟨hgot, k, hpos, hle, hseq, hbuffer⟩ := h
  cases cb with
  | read size =>
    have hkept : (readData t.comm size).1.seq = t.comm.seq ∧ (readData t.comm size).1.buffer = t.comm.buffer := by
      unfold readData
      split_ifs <;> exact ⟨rfl, rfl⟩
    rw [step_read]
    exact ⟨hgot, k, hpos, hle, hkept.1.trans hseq, by rw [hkept.2]; exact hbuffer⟩
  | write chunk =>
    rcases Nat.lt_or_ge k (2 ^ 32) with hlt | hge
    · have hzero : t.comm.seq ≠ 0 := by
        rw [hseq]
        intro hnull
        have hnat := congrArg UInt32.toNat hnull
        rw [UInt32.toNat_ofNat_of_lt' hlt] at hnat
        exact absurd hnat (Nat.pos_iff_ne_zero.mp hpos)
      have hnext : (t.step (.write chunk)).comm.seq = UInt32.ofNat (k + 1) := by
        rw [seq_step, hseq, UInt32.ofNat_add]
        rfl
      refine ⟨Nat.le_add_right_of_le hgot, k + 1, by omega, by omega, hnext, ?_⟩
      simp only [Transfer.step, writeData, hzero, if_false, Callback.delivered]
      rcases hbuffer with hover | ⟨b, hb, hlen⟩
      · split
        · exact Or.inl hover
        · exact Or.inl rfl
      · simp only [hb, concatBuffer, le_refl, and_true]
        split_ifs with hin
        · refine Or.inr ⟨_, rfl, ?_⟩
          simp only [List.length_append, List.length_take, List.length_cons, List.length_nil]
          omega
        · exact Or.inl rfl
    · -- the number is 0 again
      have hwrapped : t.comm.seq = 0 := by
        rw [hseq, Nat.le_antisymm hle hge]
        rfl
      exact step_restarts hwrapped hgot chunk

theorem run_restarted (cs : List Callback) : ∀ {t : Transfer} {got : Nat}, Restarted t got →
    Restarted (t.run cs) (got + (received cs).length) := by
  induction cs with
  | nil => intro t got h; simpa [Transfer.run] using h
  | cons cb cs ih =>
    intro t got h
    rw [run_cons, received_cons, List.length_append, ← Nat.add_assoc]
    exact ih (step_restarted h cb)

/-- With more chunks the buffer ends without the first of them. -/
theorem not_intact_of_many {t : Transfer} {readbuffer : Bytes} (ht : Starts t readbuffer) {cs : List Callback}
    (hcs : ∀ cb ∈ cs, cb.Nonempty) (hmany : 2 ^ 32 < chunkCount cs) : ¬Intact (t.run cs) readbuffer cs := by
  obtain ⟨before, chunk, after, rfl, hcount⟩ := exists_chunk hmany
  have hbefore := chunkCount_le_length_received fun cb hcb => hcs cb (List.mem_append_left _ hcb)
  have hseq : (t.run before).comm.seq = 0 := by
    rw [seq_run, ht.seq, hcount]
    rfl
  have hrestarted := run_restarted after (step_restarts hseq (hcount ▸ hbefore) chunk)
  rw [← run_cons, ← run_append] at hrestarted
  obtain ⟨hgot, k, -, hle, -, hbuffer⟩ := hrestarted
  have hlength : (received (before ++ .write chunk :: after)).length =
      (received before).length + chunk.length + (received after).length := by
    rw [received_append, received_cons, Callback.delivered, List.length_append, List.length_append, Nat.add_assoc]
  have hne : received (before ++ .write chunk :: after) ≠ [] := by
    rw [← List.length_pos_iff, hlength]
    omega
  rintro ⟨hover, -, hholds⟩
  rw [BufferHolds, if_neg hne] at hholds
  rcases hbuffer with hover' | ⟨b, hb, hlen⟩
  · rw [hover] at hover'
    exact absurd hover' (by decide)
  · rw [hholds, Option.some.injEq] at hb
    have hlong := congrArg List.length hb
    rw [List.length_append, List.length_singleton, hlength] at hlong
    omega

/-- For every order of the calls of a transfer whose upload is read to its end. -/
theorem intact_iff {t : Transfer} {readbuffer : Bytes} (ht : Starts t readbuffer) {cs : List Callback}
    (hcs : ∀ cb ∈ cs, cb.Nonempty) (hend : ReadToEnd (t.run cs).handed) :
    Intact (t.run cs) readbuffer cs ↔ chunkCount cs ≤ 2 ^ 32 ∧ Undisturbed readbuffer.length t.comm.buffer cs := by
  by_cases hfew : chunkCount cs ≤ 2 ^ 32
  · rw [intact_iff_of_few ht hcs hfew hend]
    exact ⟨fun h => ⟨hfew, h⟩, And.right⟩
  · exact ⟨fun h => absurd h (not_intact_of_many ht hcs (Nat.not_le.mp hfew)), fun h => absurd h.1 hfew⟩

end StreamsAux

/-- During one `post_url`, with any bytes to send and any order of the calls of libcurl in which the upload is read to its end:
the bytes sent are those of `readbuffer` and the buffer ends as the bytes received exactly when the answer comes in at most 2^32
chunks and the order is one in which upload and download do not disturb each other. -/
theorem postUrl_intact_iff (comm : Comm) (url readbuffer : CString) (cs : List Callback)
    (hhandle : comm.curlHandle ≠ none) (hconn : comm.conn ≠ none) (hcs : ∀ cb ∈ cs, cb.Nonempty)
    (hend : ReadToEnd (postUrl { comm with readbuffer := some readbuffer } (some url) ⟨cs, CURLE_OK⟩).transfer.handed) :
    Intact (postUrl { comm with readbuffer := some readbuffer } (some url) ⟨cs, CURLE_OK⟩).transfer readbuffer.bytes cs ↔
      chunkCount cs ≤ 2 ^ 32 ∧ Undisturbed readbuffer.bytes.length comm.buffer cs := by
  obtain ⟨handle, hhandle⟩ := Option.ne_none_iff_exists'.mp hhandle
  obtain ⟨conn, hconn⟩ := Option.ne_none_iff_exists'.mp hconn
  simp only [postUrl, hhandle, hconn, ne_eq, not_true_eq_false, if_false] at hend ⊢
  exact StreamsAux.intact_iff (t := Transfer.start _) ⟨⟨rfl, rfl⟩, rfl, rfl, rfl, rfl⟩ hcs hend

/-- A structure with a handle and an address. -/
def connectedComm : Comm := initCommStruct (some curlEasyInit) (some (CString.lit "http://127.0.0.1:5468")) 0

/-- What a request does that sends `hello` with the given calls. -/
def sendHello (cs : List Callback) : Transfer :=
  (postUrl { connectedComm with readbuffer := some (CString.lit "hello") } (some (CString.lit "/Data.json"))
    ⟨cs, CURLE_OK⟩).transfer

/-- An answer that comes when everything was sent is received whole. -/
theorem answer_after_upload : Intact (sendHello [.read 9, .read 9, .write [79], .write [75]]) (str "hello")
    [.read 9, .read 9, .write [79], .write [75]] :=
  (postUrl_intact_iff connectedComm (CString.lit "/Data.json") (CString.lit "hello")
    [.read 9, .read 9, .write [79], .write [75]] (by decide) (by decide) (by simp [Callback.Nonempty])
    ⟨[str "hello"], by decide, by decide⟩).mpr ⟨by decide, by simp [Callback.delivered], Or.inl (by decide)⟩

/-- An answer of two bytes that begins when four bytes were sent makes two of them be sent again. -/
theorem early_answer_repeats :
    (∀ cb ∈ [Callback.read 4, .write [79, 75], .read 9, .read 9], cb.Nonempty) ∧
      ReadToEnd (sendHello [.read 4, .write [79, 75], .read 9, .read 9]).handed ∧
      ¬ Intact (sendHello [.read 4, .write [79, 75], .read 9, .read 9]) (str "hello")
        [.read 4, .write [79, 75], .read 9, .read 9] := by
  refine ⟨by simp [Callback.Nonempty], ⟨[str "hell", str "llo"], by decide, by decide⟩, ?_⟩
  rintro ⟨_, hsent, _⟩
  exact absurd hsent (by decide)

end Sauvegarde
