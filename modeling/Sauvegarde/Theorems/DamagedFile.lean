import Sauvegarde.Server.DamagedLines
import Sauvegarde.Theorems.FlatFile

/-!
# Reading a damaged file

What the file backend takes out of the file of a host whatever is in it. The scanner and the cut agree on where the fields are as long
as no byte is zero; how long a field is nothing looks at.
-/

namespace Sauvegarde

/-- Each line that is handed over has thirteen fields at least, and what is taken out of it is taken from within its fields. -/
def ReadsSafely (lengthFirst : Bool) (filters : Filters) (query : Query) (reads : List Bytes) : Prop :=
  ∀ line ∈ handedLines (readOneBuffer ⟨[], 0, reads⟩),
    13 ≤ (Split.pieces 44 13 line).length ∧ extractFromAnyLine lengthFirst filters query line ≠ none

namespace DamagedFileAux

open DamagedLinesAux

/-- There are thirteen fields exactly when there are twelve commas. -/
theorem thirteen_pieces {line : Bytes} : 13 ≤ (Split.pieces 44 13 line).length ↔ 12 ≤ line.count 44 := by
  rw [Split.length_pieces]
  omega

/-- A line is safe exactly when it has the commas and its fields are long enough. -/
theorem safe_iff {lengthFirst : Bool} {filters : Filters} {query : Query} {line : Bytes} :
    (13 ≤ (Split.pieces 44 13 line).length ∧ extractFromAnyLine lengthFirst filters query line ≠ none) ↔
      12 ≤ line.count 44 ∧ LongFields lengthFirst filters query line := by
  rw [thirteen_pieces]
  exact and_congr_right fun hcommas => extractFromAnyLine_ne_none hcommas

/-! ## Files without zeros -/

/-- A line that is being read of which nothing is hidden: the commas that were counted are in its text. -/
structure Counted (line : OpenLine) : Prop where
  shown : line.hidden = false
  commas : line.state.2 ≤ line.text.count 44

theorem counted_start : Counted .start := ⟨rfl, Nat.zero_le _⟩

/-- A byte that is not zero goes to the text, and a comma is counted at most once. -/
theorem Counted.add {line : OpenLine} (h : Counted line) {c : UInt8} (hc : c ≠ 0) {state : Bool × Nat}
    (hnext : nextInLine line.state c = some state) : Counted (line.add state c) := by
  obtain ⟨⟨inString, comma⟩, text, hidden⟩ := line
  have hshown : hidden = false := h.shown
  have hcommas : comma ≤ text.count 44 := h.commas
  have hadd : OpenLine.add ⟨(inString, comma), text, hidden⟩ state c = ⟨state, text ++ [c], false⟩ := by
    simp [OpenLine.add, hshown, hc]
  have hcount : state.2 ≤ comma + [c].count 44 := by
    simp only [nextInLine] at hnext
    by_cases hquote : c = 34
    · rw [if_pos hquote] at hnext
      split at hnext
      · exact absurd hnext (by simp)
      · rw [← Option.some.inj hnext]
        exact Nat.le_add_right _ _
    · rw [if_neg hquote] at hnext
      by_cases hcomma : c = 44 ∧ inString = false
      · rw [if_pos hcomma] at hnext
        split at hnext
        · exact absurd hnext (by simp)
        · rw [← Option.some.inj hnext, hcomma.1]
          exact le_of_eq rfl
      · rw [if_neg hcomma] at hnext
        split at hnext
        · exact absurd hnext (by simp)
        · rw [← Option.some.inj hnext]
          exact Nat.le_add_right _ _
  rw [hadd]
  refine ⟨rfl, show state.2 ≤ (text ++ [c]).count 44 from ?_⟩
  rw [List.count_append]
  omega

/-- When a byte ends a line, twelve commas were counted. -/
theorem twelve_of_end {state : Bool × Nat} {c : UInt8} (h : nextInLine state c = none) : 12 ≤ state.2 := by
  obtain ⟨inString, comma⟩ := state
  by_cases hc : c = 10
  · subst hc
    simp [nextInLine] at h
    exact h.2
  · simp [nextInLine, hc] at h

/-- The lines that end in a read without zeros have twelve commas each. -/
theorem commas_linesOfRead {bytes : Bytes} (hzero : ∀ c ∈ bytes, c ≠ 0) : ∀ {line : OpenLine}, Counted line →
    Counted (linesOfRead line bytes).1 ∧ ∀ text ∈ (linesOfRead line bytes).2, 12 ≤ text.count 44 := by
  induction bytes with
  | nil => exact fun h => ⟨h, fun text htext => absurd htext List.not_mem_nil⟩
  | cons c bytes ih =>
    intro line h
    have hrest : ∀ c ∈ bytes, c ≠ 0 := fun c hc => hzero c (List.mem_cons_of_mem _ hc)
    rw [linesOfRead]
    rcases hnext : nextInLine line.state c with _ | state
    · obtain ⟨hlast, hlines⟩ := ih hrest counted_start
      exact ⟨hlast, List.forall_mem_cons.mpr ⟨(twelve_of_end hnext).trans h.commas, hlines⟩⟩
    · exact ih hrest (h.add (hzero c List.mem_cons_self) hnext)

/-- So have those of all reads. -/
theorem commas_linesOfReads {reads : List Bytes} (hzero : ∀ read ∈ reads, ∀ c ∈ read, c ≠ 0) : ∀ {line : OpenLine},
    Counted line → ∀ text ∈ linesOfReads line reads, 12 ≤ text.count 44 := by
  induction reads with
  | nil => exact fun _ text htext => absurd htext List.not_mem_nil
  | cons read reads ih =>
    intro line h text htext
    have hopen : Counted { line with hidden := false } := ⟨rfl, h.commas⟩
    obtain ⟨hlast, hlines⟩ := commas_linesOfRead (hzero read List.mem_cons_self) hopen
    rcases List.mem_append.mp htext with htext | htext
    · exact hlines text htext
    · exact ih (fun r hr => hzero r (List.mem_cons_of_mem _ hr)) hlast text htext

/-- A file of one read is safe when its lines are. -/
theorem isReading_singleton {file : Bytes} (hpos : 0 < file.length) (hsize : file.length ≤ FILE_BACKEND_BUFFER_SIZE) :
    IsReading file [file] :=
  ⟨List.flatten_singleton, fun read hread => by rw [List.mem_singleton.mp hread]; exact ⟨hpos, hsize⟩⟩

end DamagedFileAux

open DamagedFileAux

/-- Every line of a file without a zero byte has thirteen fields at least, whatever else is in the file. -/
theorem thirteen_fields {file : Bytes} (hzero : ∀ c ∈ file, c ≠ 0) {reads : List Bytes} (hreads : IsReading file reads) :
    ∀ line ∈ handedLines (readOneBuffer ⟨[], 0, reads⟩), 13 ≤ (Split.pieces 44 13 line).length := by
  intro line hline
  rw [handedLines_eq_linesOf hreads] at hline
  refine thirteen_pieces.mpr (commas_linesOfReads (fun read hread c hc => hzero c ?_) counted_start line hline)
  rw [← hreads.whole]
  exact List.mem_flatten.mpr ⟨read, hread, hc⟩

/-- A file is read safely exactly when each of its lines, with what a zero byte hides left out, has twelve commas and fields that are
long enough. -/
theorem readsSafely_iff {file : Bytes} {reads : List Bytes} (hreads : IsReading file reads) (lengthFirst : Bool)
    (filters : Filters) (query : Query) : ReadsSafely lengthFirst filters query reads ↔
      ∀ line ∈ linesOf reads, 12 ≤ line.count 44 ∧ LongFields lengthFirst filters query line := by
  unfold ReadsSafely
  rw [handedLines_eq_linesOf hreads]
  exact forall₂_congr fun line _ => safe_iff

/-- The line of a file with a name and without hashs. -/
def soundLine : Bytes := str "1, 2, 3, 4, 5, 6, 7, \"root\", \"root\", 0, 0, \"YQ==\", \"\""

/-- A file with that line is read safely. -/
theorem soundLine_readsSafely : ReadsSafely false passFilters rootQuery [soundLine ++ [10]] := by
  have hlines : linesOf [soundLine ++ [10]] = [soundLine] := by decide +kernel
  have hlengths : 3 ≤ (fieldOf soundLine 11).length ∧ 3 ≤ (fieldOf soundLine 7).length ∧ 3 ≤ (fieldOf soundLine 8).length ∧
      3 ≤ (fieldOf soundLine 12).length ∧ (Split.pieces 44 13 soundLine)[13]? = none := by decide +kernel
  obtain ⟨h11, h7, h8, h12, hnone⟩ := hlengths
  refine (readsSafely_iff (isReading_singleton (by decide) (by decide)) false passFilters rootQuery).mpr fun line hline => ?_
  rw [hlines, List.mem_singleton] at hline
  rw [hline]
  refine ⟨by decide +kernel, ⟨fun _ => h11, fun _ _ => ⟨h7, h8, h12⟩, fun _ _ _ piece hpiece => ?_⟩⟩
  rw [hnone] at hpiece
  exact absurd hpiece List.not_mem_nil

/-- The line of twelve commas, the name between the last two of them missing. -/
def namelessLine : Bytes := List.replicate 12 44 ++ List.replicate 8 97

/-- It is handed over, and three is taken from the length of its empty name. -/
theorem namelessLine_leavesField : ¬ ReadsSafely false passFilters rootQuery [namelessLine ++ [10]] := by
  have hlines : linesOf [namelessLine ++ [10]] = [namelessLine] := by decide +kernel
  have hfault : extractFromAnyLine false passFilters rootQuery namelessLine = none := by decide +kernel
  intro hsafe
  unfold ReadsSafely at hsafe
  rw [handedLines_eq_linesOf (isReading_singleton (by decide) (by decide)), hlines] at hsafe
  exact (hsafe namelessLine List.mem_cons_self).2 hfault

end Sauvegarde
