import Sauvegarde.Libcdpfgl.HashPieces
import Sauvegarde.Server.MetaLines

/-!
# Lines of a damaged file

What is read from the file of a host whatever is in it: the lines that are handed to `extract_from_line`, and `extract_from_line` with
the places where it leaves a field or the vector of the fields. What goes wrong has no result.
-/

namespace Sauvegarde

/-! ## Lines byte by byte -/

/-- A line that is being read: `in_string` and `comma`, its text so far, and whether a zero was read that hides the bytes behind it
until the next read. -/
structure OpenLine where
  state : Bool × Nat
  text : Bytes
  hidden : Bool
deriving DecidableEq

/-- The beginning of a line. -/
def OpenLine.start : OpenLine := ⟨(false, 0), [], false⟩

/-- One more byte, which does not end the line. -/
def OpenLine.add (line : OpenLine) (state : Bool × Nat) (c : UInt8) : OpenLine :=
  if line.hidden || c = 0 then ⟨state, line.text, true⟩ else ⟨state, line.text ++ [c], false⟩

/-- The bytes of one read: the line that is left open, and the texts of those that end. -/
def linesOfRead : OpenLine → Bytes → OpenLine × List Bytes
  | line, [] => (line, [])
  | line, c :: bytes =>
    match nextInLine line.state c with
    | none => ((linesOfRead .start bytes).1, line.text :: (linesOfRead .start bytes).2)
    | some state => linesOfRead (line.add state c) bytes

/-- The lines of reads to come: what a zero hid is over with each of them. -/
def linesOfReads : OpenLine → List Bytes → List Bytes
  | _, [] => []
  | line, read :: reads =>
    (linesOfRead { line with hidden := false } read).2 ++ linesOfReads (linesOfRead { line with hidden := false } read).1 reads

/-- The lines of a file that is read. -/
def linesOf (reads : List Bytes) : List Bytes := linesOfReads .start reads

/-- The lines of what is left of a read, and of those to come. -/
def linesFrom (line : OpenLine) (bytes : Bytes) (reads : List Bytes) : List Bytes :=
  (linesOfRead line bytes).2 ++ linesOfReads (linesOfRead line bytes).1 reads

namespace DamagedLinesAux

/-! ## A read -/

/-- Bytes in which no line ends are text up to the first zero. -/
theorem linesOfRead_exhausted {state state' : Bool × Nat} {bytes : Bytes}
    (h : Scan.scan nextInLine state bytes = .exhausted state') : ∀ (text : Bytes) (hidden : Bool), ∃ hidden',
      linesOfRead ⟨state, text, hidden⟩ bytes =
        (⟨state', text ++ if hidden then [] else bytes.takeWhile (· != 0), hidden'⟩, []) := by
  induction bytes generalizing state with
  | nil =>
    intro text hidden
    rw [Scan.scan, Scan.Result.exhausted.injEq] at h
    rw [h]
    exact ⟨hidden, by cases hidden <;> simp [linesOfRead]⟩
  | cons c bytes ih =>
    intro text hidden
    rcases hnext : nextInLine state c with _ | next
    · rw [Scan.scan, hnext] at h
      exact absurd h (by simp)
    · have hrest : Scan.scan nextInLine next bytes = .exhausted state' := by
        rw [Scan.scan, hnext] at h
        rcases hscan : Scan.scan nextInLine next bytes with n | last
        · simp [hscan] at h
        · simpa [hscan] using h
      rw [linesOfRead, hnext]
      by_cases hzero : hidden || c = 0
      · obtain ⟨hidden', heq⟩ := ih hrest text true
        refine ⟨hidden', ?_⟩
        simp only [OpenLine.add, hzero, if_true, heq, List.append_nil]
        rcases hidden with _ | _
        · have hc : c = 0 := by simpa using hzero
          simp [hc]
        · simp
      · obtain ⟨hidden', heq⟩ := ih hrest (text ++ [c]) false
        refine ⟨hidden', ?_⟩
        rw [Bool.not_eq_true, Bool.or_eq_false_iff, decide_eq_false_iff_not] at hzero
        simp [OpenLine.add, hzero.1, hzero.2, heq]

/-- When a line ends in a read, its text is closed and the next begins behind it. -/
theorem linesOfRead_found {state : Bool × Nat} {bytes : Bytes} {n : Nat} (h : Scan.scan nextInLine state bytes = .found n) :
    ∀ (text : Bytes) (hidden : Bool), linesOfRead ⟨state, text, hidden⟩ bytes =
      ((linesOfRead .start (bytes.drop (n + 1))).1,
        (text ++ if hidden then [] else (bytes.take n).takeWhile (· != 0)) ::
          (linesOfRead .start (bytes.drop (n + 1))).2) := by
  induction bytes generalizing state n with
  | nil => exact absurd h (by simp [Scan.scan])
  | cons c bytes ih =>
    intro text hidden
    rcases hnext : nextInLine state c with _ | next
    · rw [Scan.scan, hnext, Scan.Result.found.injEq] at h
      rw [linesOfRead, hnext, ← h]
      cases hidden <;> simp
    · rw [Scan.scan, hnext] at h
      rcases hscan : Scan.scan nextInLine next bytes with k | last
      · simp only [hscan, Scan.Result.shift_found, Scan.Result.found.injEq] at h
        subst h
        rw [linesOfRead, hnext]
        by_cases hzero : hidden || c = 0
        · simp only [OpenLine.add, hzero, if_true, ih hscan, List.drop_succ_cons, List.append_nil]
          rcases hidden with _ | _
          · have hc : c = 0 := by simpa using hzero
            simp [hc]
          · simp
        · rw [Bool.not_eq_true, Bool.or_eq_false_iff, decide_eq_false_iff_not] at hzero
          simp [OpenLine.add, hzero.1, hzero.2, ih hscan]
      · simp [hscan] at h

/-! ## Reads -/

/-- The whole of what is left of a buffer is copied up to the first zero. -/
theorem gStrndup_rest (buf : Bytes) (pos : Nat) :
    gStrndup (buf.drop pos) (buf.length - pos) = (buf.drop pos).takeWhile (· != 0) := by
  rw [gStrndup, List.take_of_length_le (le_of_eq List.length_drop)]

/-- A line that ends in the buffer is extracted, and the next begins behind it. -/
theorem extractLine_ends {state : Bool × Nat} {buf : Bytes} {pos n : Nat}
    (h : Scan.scan nextInLine state (buf.drop pos) = .found n) (wholeLine : Bytes) {stream : List Bytes}
    (hstream : ∀ chunk ∈ stream, chunk ≠ []) :
    MetaLinesAux.Readable (extractLine state wholeLine buf pos stream).2 ∧
      linesFrom ⟨state, wholeLine, false⟩ (buf.drop pos) stream = (extractLine state wholeLine buf pos stream).1 ::
        linesFrom .start ((extractLine state wholeLine buf pos stream).2.buf.drop
          (extractLine state wholeLine buf pos stream).2.pos) (extractLine state wholeLine buf pos stream).2.stream := by
  have hlt := Scan.found_lt_length h
  rw [List.length_drop] at hlt
  rw [extractLine, h]
  refine ⟨⟨show buf.length ≠ 0 by omega, hstream⟩, ?_⟩
  rw [linesFrom, linesOfRead_found h, List.drop_drop, ← Nat.add_assoc]
  rfl

/-- The loop over the buffers extracts the first of the lines that are left, or there is none. -/
theorem extractLine_cases (stream : List Bytes) : ∀ (state : Bool × Nat) (wholeLine buf : Bytes) (pos : Nat),
    (∀ chunk ∈ stream, chunk ≠ []) →
    ((extractLine state wholeLine buf pos stream).2.size = 0 ∧
        linesFrom ⟨state, wholeLine, false⟩ (buf.drop pos) stream = []) ∨
      (MetaLinesAux.Readable (extractLine state wholeLine buf pos stream).2 ∧
        linesFrom ⟨state, wholeLine, false⟩ (buf.drop pos) stream = (extractLine state wholeLine buf pos stream).1 ::
          linesFrom .start ((extractLine state wholeLine buf pos stream).2.buf.drop
            (extractLine state wholeLine buf pos stream).2.pos) (extractLine state wholeLine buf pos stream).2.stream) := by
  induction stream with
  | nil =>
    intro state wholeLine buf pos hstream
    rcases hscan : Scan.scan nextInLine state (buf.drop pos) with n | state'
    · exact Or.inr (extractLine_ends hscan wholeLine hstream)
    · obtain ⟨hidden', hread⟩ := linesOfRead_exhausted hscan wholeLine false
      refine Or.inl ⟨?_, ?_⟩
      · rw [extractLine, hscan]
        rfl
      · rw [linesFrom, hread]
        rfl
  | cons chunk stream ih =>
    intro state wholeLine buf pos hstream
    rcases hscan : Scan.scan nextInLine state (buf.drop pos) with n | state'
    · exact Or.inr (extractLine_ends hscan wholeLine hstream)
    · -- the line goes on in the next read, where nothing is hidden any more
      obtain ⟨hidden', hread⟩ := linesOfRead_exhausted hscan wholeLine false
      have hchunk : chunk ≠ [] := hstream chunk List.mem_cons_self
      have hmore : extractLine state wholeLine buf pos (chunk :: stream) =
          extractLine state' (wholeLine ++ (buf.drop pos).takeWhile (· != 0)) chunk 0 stream := by
        rw [extractLine, hscan, gStrndup_rest]
        exact if_neg hchunk
      have hlines : linesFrom ⟨state, wholeLine, false⟩ (buf.drop pos) (chunk :: stream) =
          linesFrom ⟨state', wholeLine ++ (buf.drop pos).takeWhile (· != 0), false⟩ (chunk.drop 0) stream := by
        rw [linesFrom, hread]
        rfl
      rw [hmore, hlines]
      exact ih state' _ chunk 0 fun c hc => hstream c (List.mem_cons_of_mem _ hc)

/-- The lines that are handed over from a buffer on are those that are left. -/
theorem handedLines_eq_linesFrom (b : ABuffer) (hb : MetaLinesAux.Readable b) :
    handedLines b = linesFrom .start (b.buf.drop b.pos) b.stream := by
  induction hn : b.rest.length using Nat.strong_induction_on generalizing b with
  | _ n ih =>
    have hextract : extractOneLineFromBuffer b = extractLine (false, 0) [] b.buf b.pos b.stream := if_neg hb.size
    rw [handedLines, hextract]
    rcases extractLine_cases b.stream (false, 0) [] b.buf b.pos hb.stream with ⟨hsize, hnone⟩ | ⟨hreadable, hlines⟩
    · rw [if_pos hsize]
      exact hnone.symm
    · have hshorter := (rest_extractLine b.stream (false, 0) [] b.buf b.pos).resolve_left hreadable.size
      rw [if_neg hreadable.size, ih _ (hn ▸ hshorter) _ hreadable rfl]
      exact hlines.symm

end DamagedLinesAux

/-- The lines that are handed over are the lines of the reads. -/
theorem handedLines_eq_linesOf {file : Bytes} {reads : List Bytes} (hreads : IsReading file reads) :
    handedLines (readOneBuffer ⟨[], 0, reads⟩) = linesOf reads := by
  have hne : ∀ read ∈ reads, read ≠ [] := fun read hread => List.ne_nil_of_length_pos (hreads.sizes read hread).1
  rcases reads with _ | ⟨read, reads⟩
  · rw [handedLines]
    rfl
  · refine DamagedLinesAux.handedLines_eq_linesFrom _ ⟨?_, fun chunk hchunk => hne chunk (List.mem_cons_of_mem _ hchunk)⟩
    exact Nat.ne_of_gt (hreads.sizes read List.mem_cons_self).1

/-! ## The fields of a line -/

/-- A field in the vector that `g_strsplit` makes, which ends with `NULL`; none behind that. -/
def fieldAt (params : List Bytes) (i : Nat) : Option (Option Bytes) := if i ≤ params.length then some params[i]? else none

/-- `get_substring_from_string` of a field: none when the substring is not within the field. -/
def substringAt (params : List Bytes) (i : Nat) (decodeit : Bool) : Option (Option CString) :=
  (fieldAt params i).bind fun field =>
    match field with
    | none => some none
    | some string => if string.length < 3 then none else some (getSubstringFromString (some string) decodeit)

/-- `extract_from_line` of any line. -/
def extractFromAnyLine (lengthFirst : Bool) (filters : Filters) (query : Query) (line : Bytes) : Option (Option MetaData) :=
  if 16 < line.length then
    let params := Split.pieces 44 13 line
    (substringAt params 11 true).bind fun filename =>
      if filename.any filters.gRegexMatch then
        let metaData : MetaData := { newMetaData with
          name := filename
          fileType := (getUintFromString params[0]?).toUInt8
          inode := getGuint64FromString params[1]?
          mode := getUintFromString params[2]?
          atime := getGuint64FromString params[3]?
          ctime := getGuint64FromString params[4]?
          mtime := getGuint64FromString params[5]? }
        if dateSelected filters query metaData.mtime then
          (substringAt params 7 false).bind fun owner => (substringAt params 8 false).bind fun group =>
            (substringAt params 12 true).bind fun link =>
              let metaData : MetaData := { metaData with
                size := getGuint64FromString params[6]?
                owner := owner
                group := group
                link := link
                uid := getUintFromString params[9]?
                gid := getUintFromString params[10]? }
              if metaData.owner = some query.owner ∧ metaData.group = some query.group ∧
                  metaData.uid = getUintFromString (some query.uid.bytes) ∧
                  metaData.gid = getUintFromString (some query.gid.bytes) then
                (fieldAt params 13).bind fun field =>
                  (hashDataListFromString lengthFirst (field.map CString.ofBytes)).map fun hashDataList =>
                    some { metaData with hashDataList := hashDataList }
              else some none
        else some none
      else some none
  else some none

/-- A field of a line. -/
def fieldOf (line : Bytes) (i : Nat) : Bytes := (Split.pieces 44 13 line)[i]?.getD []

/-- A line whose name and date are asked for. -/
def IsAskedFor (filters : Filters) (query : Query) (line : Bytes) : Prop :=
  (getSubstringFromString (some (fieldOf line 11)) true).any filters.gRegexMatch = true ∧
    dateSelected filters query (getGuint64FromString (some (fieldOf line 5))) = true

/-- A line of the user of a query. -/
def IsOfUser (query : Query) (line : Bytes) : Prop :=
  getSubstringFromString (some (fieldOf line 7)) false = some query.owner ∧
    getSubstringFromString (some (fieldOf line 8)) false = some query.group ∧
    getUintFromString (some (fieldOf line 9)) = getUintFromString (some query.uid.bytes) ∧
    getUintFromString (some (fieldOf line 10)) = getUintFromString (some query.gid.bytes)

/-- A line whose fields are long enough for what is taken out of them. -/
structure LongFields (lengthFirst : Bool) (filters : Filters) (query : Query) (line : Bytes) : Prop where
  name : 16 < line.length → 3 ≤ (fieldOf line 11).length
  texts : 16 < line.length → IsAskedFor filters query line →
    3 ≤ (fieldOf line 7).length ∧ 3 ≤ (fieldOf line 8).length ∧ 3 ≤ (fieldOf line 12).length
  hashs : 16 < line.length → IsAskedFor filters query line → IsOfUser query line →
    ∀ piece ∈ hashPieces ((Split.pieces 44 13 line)[13]?.map CString.ofBytes), LongPiece lengthFirst piece

/-- What is taken out of a vector of fields is what is taken out of the field. -/
theorem eq_of_substringAt {params : List Bytes} {i : Nat} {decodeit : Bool} {substring : Option CString}
    (h : substringAt params i decodeit = some substring) : substring = getSubstringFromString params[i]? decodeit := by
  obtain ⟨field, hfield, hsub⟩ := Option.bind_eq_some_iff.mp h
  have heq : field = params[i]? := by
    rw [fieldAt] at hfield
    split at hfield
    · exact (Option.some.inj hfield).symm
    · exact absurd hfield (by simp)
  rw [← heq]
  rcases field with _ | string
  · exact (Option.some.inj hsub).symm
  · simp only at hsub
    split at hsub
    · exact absurd hsub (by simp)
    · exact (Option.some.inj hsub).symm

/-- When nothing goes wrong the record is the one that was read before. -/
theorem extractFromAnyLine_eq {filters : Filters} {query : Query} {line : Bytes} {record : Option MetaData}
    (h : extractFromAnyLine false filters query line = some record) : record = extractFromLine filters query line := by
  unfold extractFromAnyLine at h
  unfold extractFromLine
  split at h
  case isFalse hshort =>
    rw [if_neg hshort]
    exact (Option.some.inj h).symm
  case isTrue hlong =>
    rw [if_pos hlong]
    obtain ⟨filename, hname, h⟩ := Option.bind_eq_some_iff.mp h
    dsimp only
    rw [← eq_of_substringAt hname]
    rcases filename with _ | filename
    · exact (Option.some.inj h).symm
    rw [Option.any_some] at h
    rw [Option.bind_some]
    dsimp only at h
    split at h
    case isFalse hnot =>
      rw [if_neg hnot]
      exact (Option.some.inj h).symm
    case isTrue hmatch =>
      rw [if_pos hmatch]
      split at h
      case isFalse hnot =>
        rw [if_neg hnot]
        exact (Option.some.inj h).symm
      case isTrue hdate =>
        rw [if_pos hdate]
        obtain ⟨owner, howner, h⟩ := Option.bind_eq_some_iff.mp h
        obtain ⟨group, hgroup, h⟩ := Option.bind_eq_some_iff.mp h
        obtain ⟨link, hlink, h⟩ := Option.bind_eq_some_iff.mp h
        rw [← eq_of_substringAt howner, ← eq_of_substringAt hgroup, ← eq_of_substringAt hlink]
        split at h
        case isFalse hnot =>
          rw [if_neg hnot]
          exact (Option.some.inj h).symm
        case isTrue huser =>
          rw [if_pos huser]
          obtain ⟨field, hfield, h⟩ := Option.bind_eq_some_iff.mp h
          obtain ⟨hashDataList, hlist, rfl⟩ := Option.map_eq_some_iff.mp h
          rw [fieldAt] at hfield
          split at hfield
          · rw [hashDataListFromString_eq hlist, Option.some.inj hfield]
          · exact absurd hfield (by simp)

namespace DamagedLinesAux

variable {line : Bytes} (hcommas : 12 ≤ line.count 44)

include hcommas

theorem length_pieces_ge : 13 ≤ (Split.pieces 44 13 line).length := by
  rw [Split.length_pieces]
  omega

theorem getElem?_pieces {i : Nat} (hi : i < 13) : (Split.pieces 44 13 line)[i]? = some (fieldOf line i) := by
  have hlen := length_pieces_ge hcommas
  rw [fieldOf, List.getElem?_eq_getElem (by omega), Option.getD_some]

/-- The fields of a line with so many commas are there. -/
theorem substringAt_eq {i : Nat} (hi : i < 13) (decodeit : Bool) : substringAt (Split.pieces 44 13 line) i decodeit =
    if (fieldOf line i).length < 3 then none else some (getSubstringFromString (some (fieldOf line i)) decodeit) := by
  have hlen := length_pieces_ge hcommas
  rw [substringAt, fieldAt, if_pos (by omega), getElem?_pieces hcommas hi]
  rfl

theorem fieldAt_hashs : fieldAt (Split.pieces 44 13 line) 13 = some (Split.pieces 44 13 line)[13]? :=
  if_pos (length_pieces_ge hcommas)

/-- When one of the texts is too short, something outside of its field is read, whatever is made of them. -/
theorem bind_texts_eq_none {α : Type}
    (hshort : ¬ (3 ≤ (fieldOf line 7).length ∧ 3 ≤ (fieldOf line 8).length ∧ 3 ≤ (fieldOf line 12).length))
    (record : Option CString → Option CString → Option CString → Option α) :
    ((substringAt (Split.pieces 44 13 line) 7 false).bind fun owner => (substringAt (Split.pieces 44 13 line) 8 false).bind
      fun group => (substringAt (Split.pieces 44 13 line) 12 true).bind fun link => record owner group link) = none := by
  rw [substringAt_eq hcommas (by omega), substringAt_eq hcommas (by omega), substringAt_eq hcommas (by omega)]
  by_cases h7 : (fieldOf line 7).length < 3
  · rw [if_pos h7, Option.bind_none]
  rw [if_neg h7, Option.bind_some]
  by_cases h8 : (fieldOf line 8).length < 3
  · rw [if_pos h8, Option.bind_none]
  rw [if_neg h8, Option.bind_some, if_pos (show (fieldOf line 12).length < 3 by omega), Option.bind_none]

/-- What is taken out of a line with so many commas stays inside its fields exactly when they are long enough. -/
theorem extractFromAnyLine_ne_none {lengthFirst : Bool} {filters : Filters} {query : Query} :
    extractFromAnyLine lengthFirst filters query line ≠ none ↔ LongFields lengthFirst filters query line := by
  have hfield : ∀ {i : Nat}, i < 13 → (Split.pieces 44 13 line)[i]? = some (fieldOf line i) := getElem?_pieces hcommas
  have hsub : ∀ {i : Nat}, i < 13 → ∀ decodeit, substringAt (Split.pieces 44 13 line) i decodeit =
      if (fieldOf line i).length < 3 then none else some (getSubstringFromString (some (fieldOf line i)) decodeit) :=
    substringAt_eq hcommas
  by_cases hlong : 16 < line.length
  · simp only [extractFromAnyLine, if_pos hlong, hsub (show 11 < 13 by omega), hfield (show 5 < 13 by omega),
      hfield (show 9 < 13 by omega), hfield (show 10 < 13 by omega), fieldAt_hashs hcommas, Option.bind_some]
    by_cases h11 : (fieldOf line 11).length < 3
    · rw [if_pos h11]
      exact iff_of_false (by simp) fun h => absurd (h.name hlong) (by omega)
    rw [if_neg h11, Option.bind_some]
    by_cases hasked : IsAskedFor filters query line
    · rw [if_pos hasked.1, if_pos hasked.2]
      by_cases htexts : 3 ≤ (fieldOf line 7).length ∧ 3 ≤ (fieldOf line 8).length ∧ 3 ≤ (fieldOf line 12).length
      · simp only [hsub (show 7 < 13 by omega), hsub (show 8 < 13 by omega), hsub (show 12 < 13 by omega),
          if_neg (show ¬ (fieldOf line 7).length < 3 by omega), if_neg (show ¬ (fieldOf line 8).length < 3 by omega),
          if_neg (show ¬ (fieldOf line 12).length < 3 by omega), Option.bind_some]
        by_cases huser : IsOfUser query line
        · have hmatches := huser
          unfold IsOfUser at hmatches
          rw [if_pos hmatches, Ne, Option.map_eq_none_iff]
          refine (hashDataOfPieces_ne_none _).trans ⟨fun h => ⟨fun _ => by omega, fun _ _ => htexts, fun _ _ _ => h⟩, ?_⟩
          exact fun h => h.hashs hlong hasked huser
        · have hmatches := huser
          unfold IsOfUser at hmatches
          rw [if_neg hmatches]
          exact iff_of_true (by simp) ⟨fun _ => by omega, fun _ _ => htexts, fun _ _ h => absurd h huser⟩
      · refine iff_of_false ?_ fun h => htexts (h.texts hlong hasked)
        rw [not_ne_iff]
        exact bind_texts_eq_none hcommas htexts _
    · have hlongName : LongFields lengthFirst filters query line :=
        ⟨fun _ => by omega, fun _ h => absurd h hasked, fun _ h => absurd h hasked⟩
      refine iff_of_true ?_ hlongName
      by_cases hname : (getSubstringFromString (some (fieldOf line 11)) true).any filters.gRegexMatch = true
      · rw [if_pos hname, if_neg fun hdate => hasked ⟨hname, hdate⟩]
        simp
      · rw [if_neg hname]
        simp
  · rw [extractFromAnyLine, if_neg hlong]
    exact iff_of_true (by simp) ⟨fun h => absurd h hlong, fun h => absurd h hlong, fun h => absurd h hlong⟩

end DamagedLinesAux

end Sauvegarde
