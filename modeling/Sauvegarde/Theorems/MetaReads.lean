import Sauvegarde.Server.MetaReads
import Sauvegarde.Theorems.FlatFile

/-!
# Reading a file of meta data ends

When reads go on to the end of the file the loops end. When a read fails, and those after it fail too, they do not.
-/

namespace Sauvegarde

/-- Reading the file of a host ends: so do the loops over its lines and over the characters of each. -/
def ReadingEnds (filters : Filters) (query : Query) (stream : InputStream) : Prop :=
  ∃ fuel fileList, getFileList filters query fuel stream = some fileList

/-- Reading the file of a host ends exactly when the reads that follow those that succeed find the end of the file and do not
fail. -/
theorem readingEnds_iff (filters : Filters) (query : Query) (stream : InputStream) :
    ReadingEnds filters query stream ↔ stream.fails = false := by
  constructor
  · rintro ⟨fuel, fileList, hlist⟩
    by_contra hfails
    rw [getFileList_eq_none (by simpa using hfails) filters query fuel] at hlist
    exact absurd hlist.symm (Option.some_ne_none fileList)
  · intro hfails
    obtain ⟨fuel, hlist⟩ := exists_getFileList hfails filters query
    exact ⟨fuel, _, hlist⟩

/-- A stream whose first read fails, as that of a file that cannot be read any more. -/
def unreadable : InputStream := ⟨[], true, by simp⟩

/-- Nothing ends there: neither the extraction of the first line nor the loop over the lines. -/
theorem unreadable_never_ends : (∀ fuel, extractOneLine fuel (readSignedBuffer ⟨[], 0, 0, unreadable⟩) = none) ∧
    ¬ ReadingEnds passFilters rootQuery unreadable := by
  refine ⟨extractOneLine_eq_none (Int.negSucc_lt_zero 0) rfl rfl, ?_⟩
  rintro ⟨fuel, fileList, hlist⟩
  rw [getFileList_eq_none rfl passFilters rootQuery fuel] at hlist
  exact absurd hlist.symm (Option.some_ne_none fileList)

end Sauvegarde
