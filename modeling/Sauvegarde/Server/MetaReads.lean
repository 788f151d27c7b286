import Mathlib.Data.List.GetD
import Sauvegarde.Lib.Loop
import Sauvegarde.Server.FileMeta

/-!
# Reads that fail

The loops of file_backend.c that read a file of meta data, character by character, on a stream whose reads may fail: `size` is then -1,
which is not the zero that both loops look for.
-/

namespace Sauvegarde

/-- What `g_input_stream_read` gives: what is read by the reads that succeed, one after the other, and whether those after them fail
for ever or find the end of the file. A read that succeeds reads something. -/
structure InputStream where
  chunks : List Bytes
  fails : Bool
  chunks_ne : ∀ chunk ∈ chunks, chunk ≠ []

/-- `buffer_t`, with the size as it was returned. -/
structure SignedBuffer where
  buf : Bytes
  size : Int
  pos : Nat
  stream : InputStream

/-- `read_one_buffer`: nothing is written into the buffer by a read that fails or is at the end. -/
def readSignedBuffer (b : SignedBuffer) : SignedBuffer :=
  match b.stream with
  | ⟨[], fails, _⟩ => { b with size := if fails then -1 else 0, pos := 0 }
  | ⟨chunk :: chunks, fails, h⟩ => ⟨chunk, chunk.length, 0, ⟨chunks, fails, (List.forall_mem_cons.mp h).2⟩⟩

/-! ## One line -/

/-- The variables of `extract_one_line_from_buffer`. -/
structure LineLoop where
  buffer : SignedBuffer
  i : Nat
  comma : Nat
  inString : Bool
  ended : Bool
  wholeLine : Option Bytes

/-- The part of the line in the buffer is put behind those in the buffers before. -/
def joinLine (wholeLine : Option Bytes) (line : Bytes) : Bytes :=
  match wholeLine with
  | none => line
  | some wholeLine => wholeLine ++ line

/-- The part of the line in the buffer, up to `i`. -/
def LineLoop.line (s : LineLoop) : Bytes :=
  joinLine s.wholeLine (gStrndup (s.buffer.buf.drop s.buffer.pos) (s.i - s.buffer.pos))

/-- The condition of the loop. -/
def lineGoesOn (s : LineLoop) : Bool := !s.ended && s.buffer.size != 0

/-- One turn of the loop: a character of the buffer, or the next buffer. -/
def lineTurn (s : LineLoop) : LineLoop :=
  if (s.i : Int) < s.buffer.size then
    match nextInLine (s.inString, s.comma) (s.buffer.buf.getD s.i 0) with
    | none => { s with ended := true }
    | some (inString, comma) => { s with i := s.i + 1, inString := inString, comma := comma }
  else { s with buffer := readSignedBuffer s.buffer, i := 0, wholeLine := some s.line }

/-- The loop, with a bound on its turns. -/
def lineLoop (fuel : Nat) (s : LineLoop) : Option LineLoop := Loop.run lineGoesOn (fun s => some (lineTurn s)) fuel s

/-- `extract_one_line_from_buffer`. -/
def extractOneLine (fuel : Nat) (b : SignedBuffer) : Option (Bytes × SignedBuffer) :=
  (lineLoop fuel ⟨b, b.pos, 0, false, false, none⟩).map fun s => (s.line, { s.buffer with pos := s.i + 1 })

/-! ## All lines -/

/-- One turn of the loop of `get_file_list_from_regex_and_query`: the buffer, and the list so far. -/
def listTurn (filters : Filters) (query : Query) (fuel : Nat) (s : SignedBuffer × List MetaData) :
    Option (SignedBuffer × List MetaData) :=
  (extractOneLine fuel s.1).map fun (line, buffer) =>
    if buffer.size ≠ 0 then
      match extractFromLine filters query line with
      | none => (buffer, s.2)
      | some metaData => (buffer, metaData :: s.2)
    else (buffer, s.2)

/-- The condition at the end of that loop. -/
def listGoesOn (s : SignedBuffer × List MetaData) : Bool := s.1.size != 0

/-- `get_file_list_from_regex_and_query`, with a bound on the turns of both loops. What is in the buffer before it is read into does
not matter. -/
def getFileList (filters : Filters) (query : Query) (fuel : Nat) (stream : InputStream) : Option (List MetaData) :=
  (Loop.doWhile listGoesOn (listTurn filters query fuel) fuel (readSignedBuffer ⟨[], 0, 0, stream⟩, [])).map Prod.snd

/-! ## Reads that fail for ever -/

/-- While reads fail no size is zero. -/
theorem size_readSignedBuffer_of_fails {b : SignedBuffer} (h : b.stream.fails = true) :
    (readSignedBuffer b).size ≠ 0 ∧ (readSignedBuffer b).stream.fails = true := by
  obtain ⟨buf, size, pos, chunks, fails, hne⟩ := b
  obtain rfl : fails = true := h
  rcases chunks with _ | ⟨chunk, chunks⟩
  · exact ⟨by simp [readSignedBuffer], rfl⟩
  · refine ⟨?_, rfl⟩
    have hchunk : chunk.length ≠ 0 := fun hzero => hne chunk List.mem_cons_self (List.length_eq_zero_iff.mp hzero)
    simpa [readSignedBuffer] using hchunk

/-- A buffer whose reads fail in the end. -/
def SignedBuffer.Failing (b : SignedBuffer) : Prop := b.size ≠ 0 ∧ b.stream.fails = true

/-- So the size is not zero when a line was extracted. -/
theorem failing_extractOneLine {fuel : Nat} {b b' : SignedBuffer} {line : Bytes} (h : b.Failing)
    (hextract : extractOneLine fuel b = some (line, b')) : b'.Failing := by
  obtain ⟨s, hrun, heq⟩ := Option.map_eq_some_iff.mp hextract
  obtain ⟨-, rfl⟩ := Prod.mk.inj heq
  have hturn : ∀ s s' : LineLoop, s.buffer.Failing → lineGoesOn s = true → some (lineTurn s) = some s' → s'.buffer.Failing := by
    intro s s' hs _ heq
    rw [← Option.some.inj heq, lineTurn]
    split_ifs
    · split <;> exact hs
    · exact size_readSignedBuffer_of_fails hs.2
  exact (@Loop.while_rule _ _ _ (fun s : LineLoop => s.buffer.Failing) hturn fuel _ _ h hrun).1

/-- And the list is never complete. -/
theorem getFileList_eq_none {stream : InputStream} (h : stream.fails = true) (filters : Filters) (query : Query) (fuel : Nat) :
    getFileList filters query fuel stream = none := by
  have hstart : (readSignedBuffer ⟨[], 0, 0, stream⟩).Failing := size_readSignedBuffer_of_fails h
  have hturn : ∀ s s' : SignedBuffer × List MetaData, s.1.Failing → listTurn filters query fuel s = some s' → s'.1.Failing := by
    rintro ⟨b, fileList⟩ s' hb hturn
    obtain ⟨⟨line, b'⟩, hextract, rfl⟩ := Option.map_eq_some_iff.mp hturn
    have hb' := failing_extractOneLine hb hextract
    simp only
    split_ifs with hsize
    · split <;> exact hb'
    · exact hb'
  rcases hlist : getFileList filters query fuel stream with _ | fileList
  · rfl
  · -- the loop ends at the size zero only
    obtain ⟨t, hrun, -⟩ := Option.map_eq_some_iff.mp hlist
    obtain ⟨⟨hsize, -⟩, hend⟩ := Loop.doWhile_rule hturn hstart hrun
    exact absurd (by simpa [listGoesOn] using hend) hsize

/-- Once a read failed, a line is never complete. -/
theorem extractOneLine_eq_none {b : SignedBuffer} (hsize : b.size < 0) (hfails : b.stream.fails = true)
    (hchunks : b.stream.chunks = []) (fuel : Nat) : extractOneLine fuel b = none := by
  have hturn : ∀ s s' : LineLoop, s.ended = false ∧ s.buffer.size < 0 ∧ s.buffer.stream.fails = true ∧ s.buffer.stream.chunks = [] →
      lineGoesOn s = true → some (lineTurn s) = some s' →
        s'.ended = false ∧ s'.buffer.size < 0 ∧ s'.buffer.stream.fails = true ∧ s'.buffer.stream.chunks = [] := by
    rintro ⟨⟨buf, size, pos, chunks, fails, hne⟩, i, comma, inString, ended, wholeLine⟩ s' ⟨hended, hsize, hfails, hchunks⟩ _ heq
    obtain rfl : chunks = [] := hchunks
    obtain rfl : fails = true := hfails
    have hbehind : ¬(i : Int) < size := by
      have : size < 0 := hsize
      omega
    rw [← Option.some.inj heq, lineTurn, if_neg hbehind]
    exact ⟨hended, Int.negSucc_lt_zero 0, rfl, rfl⟩
  rcases hextract : extractOneLine fuel b with _ | result
  · rfl
  · obtain ⟨s, hrun, -⟩ := Option.map_eq_some_iff.mp hextract
    obtain ⟨⟨hended, hsize, -, -⟩, hend⟩ := Loop.while_rule hturn ⟨rfl, hsize, hfails, hchunks⟩ hrun
    simp [lineGoesOn, hended] at hend
    omega

/-! ## Reads up to the end of the file -/

/-- A line that is being read: `extractLine` with the characters before `i` already looked at. -/
def lineFrom (state : Bool × Nat) (wholeLine buf : Bytes) (pos i : Nat) (stream : List Bytes) : Bytes × ABuffer :=
  match Scan.scan nextInLine state (buf.drop i) with
  | .found n => (wholeLine ++ gStrndup (buf.drop pos) (i + n - pos), ⟨buf, i + n + 1, stream⟩)
  | .exhausted state =>
    let wholeLine := wholeLine ++ gStrndup (buf.drop pos) (buf.length - pos)
    match stream with
    | [] => (wholeLine, ⟨[], 1, []⟩)
    | chunk :: stream => if chunk = [] then (wholeLine, ⟨[], 1, stream⟩) else extractLine state wholeLine chunk 0 stream

/-- At the beginning of a line nothing was looked at. -/
theorem lineFrom_start (state : Bool × Nat) (wholeLine buf : Bytes) (pos : Nat) (stream : List Bytes) :
    lineFrom state wholeLine buf pos pos stream = extractLine state wholeLine buf pos stream := by
  rw [lineFrom, extractLine.eq_def state wholeLine buf pos stream]
  rcases Scan.scan nextInLine state (buf.drop pos) with n | state'
  · simp only [Nat.add_sub_cancel_left]
  · rcases stream with _ | ⟨chunk, stream⟩ <;> rfl

/-- The buffer as it is when no read fails. -/
def SignedBuffer.toABuffer (b : SignedBuffer) : ABuffer := ⟨b.buf.take b.size.toNat, b.pos, b.stream.chunks⟩

/-- A buffer that was filled, or is at the end of the file. -/
structure SignedBuffer.Reading (b : SignedBuffer) : Prop where
  fails : b.stream.fails = false
  size : b.size = b.buf.length ∨ b.size = 0 ∧ b.stream.chunks = []

/-- A buffer that was filled is one whose reads did not fail. -/
theorem toABuffer_filled (buf : Bytes) (pos : Nat) (stream : InputStream) :
    SignedBuffer.toABuffer ⟨buf, buf.length, pos, stream⟩ = ⟨buf, pos, stream.chunks⟩ := by
  rw [SignedBuffer.toABuffer, Int.toNat_natCast, List.take_length]

/-- A part of a line goes behind those before it. -/
theorem joinLine_eq (wholeLine : Option Bytes) (line : Bytes) : joinLine wholeLine line = wholeLine.getD [] ++ line := by
  rcases wholeLine with _ | wholeLine <;> rfl

/-- The loop ends in a state of which the line and the buffer are the given ones. -/
def EndsWith (s : LineLoop) (line : Bytes) (b : ABuffer) : Prop :=
  ∃ fuel t, lineLoop fuel s = some t ∧ t.line = line ∧ SignedBuffer.toABuffer { t.buffer with pos := t.i + 1 } = b ∧
    t.buffer.Reading

/-- A turn that is taken leads to the same end. -/
theorem EndsWith.turn {s : LineLoop} {line : Bytes} {b : ABuffer} (hcond : lineGoesOn s = true)
    (h : EndsWith (lineTurn s) line b) : EndsWith s line b := by
  obtain ⟨fuel, t, hrun, hend⟩ := h
  have hstep : lineLoop (fuel + 1) s = lineLoop fuel (lineTurn s) := Loop.run_of_true hcond (Eq.refl (some (lineTurn s))) fuel
  exact ⟨fuel + 1, t, hstep.trans hrun, hend⟩

/-- The loop that stops is at its end. -/
theorem endsWith_of_stop {s : LineLoop} (hcond : lineGoesOn s = false) (hreading : s.buffer.Reading) :
    EndsWith s s.line (SignedBuffer.toABuffer { s.buffer with pos := s.i + 1 }) :=
  ⟨1, s, Loop.run_of_false hcond 0, rfl, rfl, hreading⟩

/-- The loop that goes on in a buffer that is not empty. -/
theorem lineGoesOn_filled {buf : Bytes} (hbuf : buf ≠ []) (pos i comma : Nat) (inString : Bool) (wholeLine : Option Bytes)
    (stream : InputStream) : lineGoesOn ⟨⟨buf, buf.length, pos, stream⟩, i, comma, inString, false, wholeLine⟩ = true := by
  simpa [lineGoesOn] using hbuf

/-- A place with a character is in the buffer. -/
theorem lt_length_of_drop {buf text : Bytes} {c : UInt8} {i : Nat} (h : buf.drop i = c :: text) : i < buf.length := by
  by_contra hle
  rw [List.drop_of_length_le (not_lt.mp hle)] at h
  exact absurd h (by simp)

/-- A turn at a character. -/
theorem lineTurn_char {buf text : Bytes} {c : UInt8} {i : Nat} (h : buf.drop i = c :: text) (pos comma : Nat) (inString : Bool)
    (wholeLine : Option Bytes) (stream : InputStream) :
    lineTurn ⟨⟨buf, buf.length, pos, stream⟩, i, comma, inString, false, wholeLine⟩ =
      match nextInLine (inString, comma) c with
      | none => ⟨⟨buf, buf.length, pos, stream⟩, i, comma, inString, true, wholeLine⟩
      | some (inString, comma) => ⟨⟨buf, buf.length, pos, stream⟩, i + 1, comma, inString, false, wholeLine⟩ := by
  have hi := lt_length_of_drop h
  have hc : buf.getD i 0 = c := by
    rw [List.drop_eq_getElem_cons hi] at h
    rw [List.getD_eq_getElem _ _ hi]
    exact (List.cons.inj h).1
  rw [lineTurn, if_pos (Int.ofNat_lt.mpr hi), hc]

/-- From a place in a buffer the loop ends with the line that `extractLine` finds. -/
def EndsAsFrom (stream : InputStream) (buf : Bytes) (pos i comma : Nat) (inString : Bool) (wholeLine : Option Bytes) : Prop :=
  EndsWith ⟨⟨buf, buf.length, pos, stream⟩, i, comma, inString, false, wholeLine⟩
    (lineFrom (inString, comma) (wholeLine.getD []) buf pos i stream.chunks).1
    (lineFrom (inString, comma) (wholeLine.getD []) buf pos i stream.chunks).2

/-- It does from every place in a buffer when it does from behind it: by induction on the characters behind the place. -/
theorem endsAsFrom_chars {stream : InputStream} (hfails : stream.fails = false) {buf : Bytes} (hbuf : buf ≠ []) {pos : Nat}
    {wholeLine : Option Bytes}
    (hbehind : ∀ i comma inString, buf.length ≤ i → EndsAsFrom stream buf pos i comma inString wholeLine) (text : Bytes) :
    ∀ i comma inString, buf.drop i = text → EndsAsFrom stream buf pos i comma inString wholeLine := by
  induction text with
  | nil =>
    intro i comma inString htext
    exact hbehind i comma inString (List.drop_eq_nil_iff.mp htext)
  | cons c text ih =>
    intro i comma inString htext
    have hrest : buf.drop (i + 1) = text := by rw [← List.drop_drop, htext, List.drop_one, List.tail_cons]
    have hscan := congrArg (Scan.scan nextInLine (inString, comma)) htext
    rw [Scan.scan] at hscan
    refine EndsWith.turn (lineGoesOn_filled hbuf ..) ?_
    rw [lineTurn_char htext, lineFrom, hscan]
    rcases nextInLine (inString, comma) c with _ | ⟨inString', comma'⟩
    · -- the character ends the line
      have hstop := @endsWith_of_stop ⟨⟨buf, buf.length, pos, stream⟩, i, comma, inString, true, wholeLine⟩ rfl ⟨hfails, Or.inl rfl⟩
      rwa [LineLoop.line, joinLine_eq, toABuffer_filled] at hstop
    · have hnext := ih (i + 1) comma' inString' hrest
      rw [EndsAsFrom, lineFrom, hrest] at hnext
      simp only
      rcases hmore : Scan.scan nextInLine (inString', comma') text with n | state
      · rw [hmore] at hnext
        simpa only [Scan.Result.shift_found, Nat.add_assoc, Nat.add_comm 1] using hnext
      · rw [hmore] at hnext
        exact hnext

/-- A turn behind the characters of a buffer. -/
theorem lineTurn_behind {buf : Bytes} {i : Nat} (hi : buf.length ≤ i) (pos comma : Nat) (inString : Bool)
    (wholeLine : Option Bytes) (stream : InputStream) :
    lineTurn ⟨⟨buf, buf.length, pos, stream⟩, i, comma, inString, false, wholeLine⟩ =
      ⟨readSignedBuffer ⟨buf, buf.length, pos, stream⟩, 0, comma, inString, false,
        some (wholeLine.getD [] ++ gStrndup (buf.drop pos) (buf.length - pos))⟩ := by
  have hline : gStrndup (buf.drop pos) (i - pos) = gStrndup (buf.drop pos) (buf.length - pos) := by
    rw [gStrndup, gStrndup, List.take_of_length_le (by rw [List.length_drop]; omega), List.take_of_length_le (by simp)]
  rw [lineTurn, if_neg (by simpa using hi), LineLoop.line, joinLine_eq, hline]

/-- The line behind the characters of a buffer. -/
theorem lineFrom_behind {buf : Bytes} {i : Nat} (hi : buf.length ≤ i) (state : Bool × Nat) (wholeLine : Bytes) (pos : Nat)
    (stream : List Bytes) : lineFrom state wholeLine buf pos i stream =
      match stream with
      | [] => (wholeLine ++ gStrndup (buf.drop pos) (buf.length - pos), ⟨[], 1, []⟩)
      | chunk :: stream =>
        if chunk = [] then (wholeLine ++ gStrndup (buf.drop pos) (buf.length - pos), ⟨[], 1, stream⟩)
        else lineFrom state (wholeLine ++ gStrndup (buf.drop pos) (buf.length - pos)) chunk 0 0 stream := by
  rw [lineFrom, List.drop_of_length_le hi, Scan.scan]
  simp only [lineFrom_start]

/-- The loop ends with the line that `extractLine` finds, when reads go on to the end of the file: by induction on the buffers to
come. -/
theorem endsAsFrom (chunks : List Bytes) : ∀ (hne : ∀ chunk ∈ chunks, chunk ≠ []) {buf : Bytes} (_ : buf ≠ [])
    (pos i comma : Nat) (inString : Bool) (wholeLine : Option Bytes),
      EndsAsFrom ⟨chunks, false, hne⟩ buf pos i comma inString wholeLine := by
  induction chunks with
  | nil =>
    intro hne buf hbuf pos i comma inString wholeLine
    refine endsAsFrom_chars rfl hbuf ?_ (buf.drop i) i comma inString rfl
    intro i comma inString hi
    refine EndsWith.turn (lineGoesOn_filled hbuf ..) ?_
    rw [lineTurn_behind hi, lineFrom_behind hi]
    -- the file is at its end
    have hstop := @endsWith_of_stop ⟨⟨buf, 0, 0, ⟨[], false, hne⟩⟩, 0, comma, inString, false,
      some (wholeLine.getD [] ++ gStrndup (buf.drop pos) (buf.length - pos))⟩ rfl ⟨rfl, Or.inr ⟨rfl, rfl⟩⟩
    rw [LineLoop.line, joinLine_eq] at hstop
    simpa [SignedBuffer.toABuffer, gStrndup, readSignedBuffer] using hstop
  | cons chunk chunks ih =>
    intro hne buf hbuf pos i comma inString wholeLine
    refine endsAsFrom_chars rfl hbuf ?_ (buf.drop i) i comma inString rfl
    intro i comma inString hi
    refine EndsWith.turn (lineGoesOn_filled hbuf ..) ?_
    obtain ⟨hchunk, hchunks⟩ := List.forall_mem_cons.mp hne
    rw [lineTurn_behind hi, lineFrom_behind hi]
    simp only [if_neg hchunk]
    exact ih hchunks hchunk 0 0 comma inString (some _)

/-- `extract_one_line_from_buffer` returns what `extractOneLineFromBuffer` gives when no read fails. -/
theorem extractOneLine_eq {b : SignedBuffer} (hreading : b.Reading) :
    ∃ fuel b', extractOneLine fuel b = some ((extractOneLineFromBuffer b.toABuffer).1, b') ∧
      b'.toABuffer = (extractOneLineFromBuffer b.toABuffer).2 ∧ b'.Reading := by
  obtain ⟨buf, size, pos, chunks, fails, hne⟩ := b
  obtain ⟨hfails, hsize⟩ := hreading
  obtain rfl : fails = false := hfails
  have hend : EndsWith ⟨⟨buf, size, pos, ⟨chunks, false, hne⟩⟩, pos, 0, false, false, none⟩
      (extractOneLineFromBuffer (SignedBuffer.toABuffer ⟨buf, size, pos, ⟨chunks, false, hne⟩⟩)).1
      (extractOneLineFromBuffer (SignedBuffer.toABuffer ⟨buf, size, pos, ⟨chunks, false, hne⟩⟩)).2 := by
    by_cases hzero : size = 0
    · subst hzero
      have hstop := @endsWith_of_stop ⟨⟨buf, 0, pos, ⟨chunks, false, hne⟩⟩, pos, 0, false, false, none⟩ rfl ⟨rfl, hsize⟩
      simpa [LineLoop.line, joinLine, gStrndup, SignedBuffer.toABuffer, extractOneLineFromBuffer, ABuffer.size] using hstop
    · obtain rfl : size = buf.length := hsize.resolve_right fun h => hzero h.1
      have hbuf : buf ≠ [] := by
        rintro rfl
        exact hzero rfl
      have hend := endsAsFrom chunks hne hbuf pos pos 0 false none
      have hfilled : ABuffer.size ⟨buf, pos, chunks⟩ ≠ 0 := fun h => hbuf (List.length_eq_zero_iff.mp h)
      rw [EndsAsFrom, lineFrom_start] at hend
      rw [toABuffer_filled, extractOneLineFromBuffer, if_neg hfilled]
      exact hend
  obtain ⟨fuel, t, hrun, hline, hbuffer, hreads⟩ := hend
  refine ⟨fuel, { t.buffer with pos := t.i + 1 }, ?_, hbuffer, ⟨hreads.fails, hreads.size⟩⟩
  rw [extractOneLine, hrun, Option.map_some, hline]

/-- More time does not change what `extract_one_line_from_buffer` returns. -/
theorem extractOneLine_mono {m n : Nat} (h : m ≤ n) {b : SignedBuffer} {result : Bytes × SignedBuffer}
    (hextract : extractOneLine m b = some result) : extractOneLine n b = some result := by
  obtain ⟨s, hrun, heq⟩ := Option.map_eq_some_iff.mp hextract
  have hrun' : lineLoop n ⟨b, b.pos, 0, false, false, none⟩ = some s := Loop.run_mono (fun _ _ h => h) h hrun
  rw [extractOneLine, hrun', Option.map_some, heq]

/-- Nor what a turn of the loop over the lines does. -/
theorem listTurn_mono (filters : Filters) (query : Query) {m n : Nat} (h : m ≤ n) (s s' : SignedBuffer × List MetaData)
    (hturn : listTurn filters query m s = some s') : listTurn filters query n s = some s' := by
  obtain ⟨result, hextract, heq⟩ := Option.map_eq_some_iff.mp hturn
  rw [listTurn, extractOneLine_mono h hextract, Option.map_some, heq]

/-- The size is zero exactly at the end of the file. -/
theorem SignedBuffer.Reading.size_eq_zero {b : SignedBuffer} (h : b.Reading) : b.toABuffer.size = 0 ↔ b.size = 0 := by
  rcases h.size with hsize | ⟨hsize, -⟩
  · simp [SignedBuffer.toABuffer, ABuffer.size, hsize]
  · simp [SignedBuffer.toABuffer, ABuffer.size, hsize]

/-- The list with what is made of one more line. -/
def prependRecord (filters : Filters) (query : Query) (fileList : List MetaData) (line : Bytes) : List MetaData :=
  match extractFromLine filters query line with
  | none => fileList
  | some metaData => metaData :: fileList

/-- A turn of the loop over the lines, once its line was extracted. -/
theorem listTurn_of_extract (filters : Filters) (query : Query) {fuel : Nat} {b b' : SignedBuffer} {line : Bytes}
    (h : extractOneLine fuel b = some (line, b')) (fileList : List MetaData) :
    listTurn filters query fuel (b, fileList) =
      some (b', if b'.size ≠ 0 then prependRecord filters query fileList line else fileList) := by
  rw [listTurn, h, Option.map_some]
  simp only [prependRecord]
  split_ifs
  · split <;> rfl
  · rfl

/-- Without a read that fails the loop over the lines ends, and hands on the lines that `handedLines` says. -/
theorem exists_listLoop (filters : Filters) (query : Query) (a : ABuffer) : ∀ (b : SignedBuffer), b.toABuffer = a → b.Reading →
    ∀ fileList, ∃ fuel b', Loop.doWhile listGoesOn (listTurn filters query fuel) fuel (b, fileList) =
      some (b', (handedLines a).foldl (prependRecord filters query) fileList) := by
  induction a using handedLines.induct with
  | case1 a hend =>
    rintro b rfl hreading fileList
    obtain ⟨fuel, b', hextract, hbuffer, hreading'⟩ := extractOneLine_eq hreading
    have hsize : b'.size = 0 := hreading'.size_eq_zero.mp (by rw [hbuffer]; exact hend)
    have hturn := listTurn_of_extract filters query (extractOneLine_mono (Nat.le_succ fuel) hextract) fileList
    rw [if_neg (not_not.mpr hsize)] at hturn
    refine ⟨fuel + 1, b', ?_⟩
    rw [Loop.doWhile_of_false hturn (by simpa [listGoesOn] using hsize), handedLines, if_pos hend, List.foldl_nil]
  | case2 a hmore ih =>
    rintro b rfl hreading fileList
    obtain ⟨fuel, b', hextract, hbuffer, hreading'⟩ := extractOneLine_eq hreading
    have hsize : b'.size ≠ 0 := fun h => hmore (by rw [← hbuffer]; exact hreading'.size_eq_zero.mpr h)
    obtain ⟨fuel', b'', hrest⟩ := ih b' hbuffer hreading'
      (prependRecord filters query fileList (extractOneLineFromBuffer b.toABuffer).1)
    have hturn := listTurn_of_extract filters query
      (extractOneLine_mono (show fuel ≤ max fuel fuel' + 1 by omega) hextract) fileList
    rw [if_pos hsize] at hturn
    refine ⟨max fuel fuel' + 1, b'', ?_⟩
    rw [Loop.doWhile_of_true hturn (by simpa [listGoesOn] using hsize), handedLines, if_neg hmore, List.foldl_cons]
    exact Loop.doWhile_mono (listTurn_mono filters query (by omega)) (by omega) hrest

/-- Without a read that fails `get_file_list_from_regex_and_query` returns the records of the file. -/
theorem exists_getFileList {stream : InputStream} (h : stream.fails = false) (filters : Filters) (query : Query) :
    ∃ fuel, getFileList filters query fuel stream = some (getFileListFromRegexAndQuery filters query stream.chunks) := by
  obtain ⟨chunks, fails, hne⟩ := stream
  obtain rfl : fails = false := h
  have hfirst : (readSignedBuffer ⟨[], 0, 0, ⟨chunks, false, hne⟩⟩).toABuffer = readOneBuffer ⟨[], 0, chunks⟩ ∧
      (readSignedBuffer ⟨[], 0, 0, ⟨chunks, false, hne⟩⟩).Reading := by
    rcases chunks with _ | ⟨chunk, chunks⟩
    · exact ⟨rfl, rfl, Or.inr ⟨rfl, rfl⟩⟩
    · exact ⟨toABuffer_filled .., rfl, Or.inl rfl⟩
  obtain ⟨fuel, b, hloop⟩ := exists_listLoop filters query _ _ hfirst.1 hfirst.2 []
  refine ⟨fuel, ?_⟩
  rw [getFileList, hloop]
  rfl

end Sauvegarde
