import Sauvegarde.Server.Upload

/-!
# The bodies of POST requests

A body is put together in a buffer whose length is taken from the Content-Length header, whatever number of bytes arrives.
-/

namespace Sauvegarde

/-- The length the buffer of a request is allocated for; one byte more is allocated. -/
def bufferLength (contentLength : Option CString) : Nat := getHeaderContentLength contentLength DEFAULT_SERVER_BUFFER_SIZE

/-- Every chunk stays within the length the buffer is allocated for, and the body that is processed is the chunks put end to
end, with a zero behind it. -/
structure UploadedWhole (malloc : Nat → Bytes) (contentLength : Option CString) (chunks : List Bytes) : Prop where
  bounds : ∀ before chunk after, chunks = before ++ chunk :: after →
    ∃ pp, Runs.execute (processPostRequest malloc contentLength) none ([] :: before) = some (some pp, []) ∧
      pp.pos + chunk.length ≤ bufferLength contentLength
  received : ∃ buffer length,
    Runs.execute (processPostRequest malloc contentLength) none (postCalls chunks) = some (none, [⟨buffer, length⟩]) ∧
      buffer.take length = chunks.flatten ∧ length = chunks.flatten.length ∧ buffer[length]? = some 0

namespace UploadsAux

variable {malloc : Nat → Bytes} {contentLength : Option CString} {chunks : List Bytes}

/-- The first call of a request allocates the buffer. -/
theorem execute_begin (calls : List Bytes) :
    Runs.execute (processPostRequest malloc contentLength) none ([] :: calls) =
      Runs.execute (processPostRequest malloc contentLength) (some ⟨malloc (bufferLength contentLength + 1), 0, 0⟩) calls := by
  simp [Runs.execute, processPostRequest, bufferLength]

/-- Chunks that fit arrive whole. -/
theorem uploadedWhole_of_le (hmalloc : ∀ n, (malloc n).length = n) (hchunks : ∀ chunk ∈ chunks, chunk ≠ [])
    (hfits : chunks.flatten.length ≤ bufferLength contentLength) : UploadedWhole malloc contentLength chunks := by
  have hlength := hmalloc (bufferLength contentLength + 1)
  have hstart : Memory.Filled (malloc (bufferLength contentLength + 1)) 0 [] := ⟨Nat.zero_le _, rfl⟩
  constructor
  · rintro before chunk after rfl
    rw [List.flatten_append, List.flatten_cons, List.length_append, List.length_append] at hfits
    have hbefore : ∀ c ∈ before, c ≠ [] := fun c hc => hchunks c (List.mem_append_left _ hc)
    obtain ⟨pp, _, hpos, _, hrun⟩ := execute_chunks malloc contentLength hbefore []
      ⟨malloc (bufferLength contentLength + 1), 0, 0⟩ hstart (by simp only [hlength]; omega)
    rw [List.append_nil] at hrun
    rw [Nat.zero_add] at hpos
    refine ⟨pp, (execute_begin before).trans (hrun.trans rfl), ?_⟩
    rw [hpos]
    omega
  · obtain ⟨pp, hfilled, hpos, hroom, hrun⟩ := execute_chunks malloc contentLength hchunks [[]]
      ⟨malloc (bufferLength contentLength + 1), 0, 0⟩ hstart (by simp only [hlength]; omega)
    rw [Nat.zero_add] at hpos
    obtain ⟨buffer, hwrite, hended, _⟩ := Memory.write_filled hfilled
      (show pp.pos + [(0 : UInt8)].length ≤ pp.buffer.length by simp only [hpos, hroom, hlength, List.length_singleton]; omega)
    have hend : Runs.execute (processPostRequest malloc contentLength) (some pp) [[]] = some (none, [⟨buffer, pp.pos⟩]) := by
      simp [Runs.execute, processPostRequest, hwrite]
    refine ⟨buffer, pp.pos, (execute_begin _).trans (hrun.trans hend), ?_, hpos, ?_⟩
    · have htake := congrArg (List.take pp.pos) hended.take
      rwa [List.take_take, min_eq_left (Nat.le_add_right _ _), List.nil_append, List.take_append_of_le_length (le_of_eq hpos),
        hpos, List.take_length, ← hpos] at htake
    · have hlast := congrArg (fun written => written[pp.pos]?) hended.take
      simpa [List.getElem?_take, hpos] using hlast

/-- Chunks that do not fit do not. -/
theorem not_uploadedWhole_of_lt (hmalloc : ∀ n, (malloc n).length = n) (hchunks : ∀ chunk ∈ chunks, chunk ≠ [])
    (hlong : bufferLength contentLength < chunks.flatten.length) : ¬ UploadedWhole malloc contentLength chunks := by
  rintro ⟨_, buffer, length, hrun, _⟩
  rw [postCalls, execute_begin, execute_overflow malloc contentLength hchunks _ (by simp only [hmalloc]; omega)] at hrun
  exact absurd hrun.symm (Option.some_ne_none _)

end UploadsAux

/-- The body of a request arrives whole, and within the buffer, exactly when the chunks are together no longer than the length
that the Content-Length header gives, or the default where it gives none. -/
theorem uploadedWhole_iff {malloc : Nat → Bytes} (hmalloc : ∀ n, (malloc n).length = n) (contentLength : Option CString)
    {chunks : List Bytes} (hchunks : ∀ chunk ∈ chunks, chunk ≠ []) :
    UploadedWhole malloc contentLength chunks ↔ chunks.flatten.length ≤ bufferLength contentLength :=
  ⟨fun h => not_lt.mp fun hlong => UploadsAux.not_uploadedWhole_of_lt hmalloc hchunks hlong h,
    UploadsAux.uploadedWhole_of_le hmalloc hchunks⟩

/-- The bodies that `post_url` sends arrive whole: they are as long as their Content-Length says. -/
theorem uploadedWhole_of_postUrl {malloc : Nat → Bytes} (hmalloc : ∀ n, (malloc n).length = n) {chunks : List Bytes}
    (hchunks : ∀ chunk ∈ chunks, chunk ≠ []) (hlength : chunks.flatten.length ≤ 2 ^ 32) {contentLength : CString}
    (hheader : contentLength.bytes = Decimal.print chunks.flatten.length) :
    UploadedWhole malloc (some contentLength) chunks := by
  have hprint : Decimal.printInt chunks.flatten.length = Decimal.print chunks.flatten.length := by
    unfold Decimal.printInt
    rw [if_neg (Int.not_lt.mpr (Int.natCast_nonneg _)), Int.natAbs_natCast]
  have hscan := Decimal.scan_printInt chunks.flatten.length (fun _ h => absurd h List.not_mem_nil) Decimal.stops_nil
  rw [List.nil_append, List.append_nil, hprint, ← hheader] at hscan
  refine UploadsAux.uploadedWhole_of_le hmalloc hchunks ?_
  have hlen : scanGuint64 contentLength.bytes = some chunks.flatten.length := by
    rw [scanGuint64, hscan, Option.map_some, if_pos (by omega), Int.emod_eq_of_lt (by omega) (by omega), Int.toNat_natCast]
  simp only [bufferLength, getHeaderContentLength, hlen, Option.getD_some]
  rw [if_neg (by omega)]

/-- Memory that holds zeros when it is allocated. -/
def zeroed (n : Nat) : Bytes := List.replicate n 0

/-- Memory is allocated with the length that is asked for. -/
theorem length_zeroed (n : Nat) : (zeroed n).length = n := List.length_replicate

/-- A body in two chunks arrives whole. -/
theorem twoChunks_uploadedWhole : UploadedWhole zeroed (some (CString.lit "4")) [str "[12", str "]"] :=
  (uploadedWhole_iff length_zeroed _ (by decide)).mpr (by decide)

/-- A chunk as long as the memory of a connection. -/
def longChunk : Bytes := List.replicate 131070 97

/-- Without a Content-Length, as a chunked upload may come, more than the default length is written. -/
theorem longUpload_overflows : (∀ chunk ∈ List.replicate 65 longChunk, chunk ≠ []) ∧
    ¬ UploadedWhole zeroed none (List.replicate 65 longChunk) := by
  have hlength : longChunk.length = 131070 := List.length_replicate
  have hchunks : ∀ chunk ∈ List.replicate 65 longChunk, chunk ≠ [] := by
    intro chunk hchunk
    rw [List.eq_of_mem_replicate hchunk, ← List.length_pos_iff, hlength]
    decide
  refine ⟨hchunks, UploadsAux.not_uploadedWhole_of_lt length_zeroed hchunks ?_⟩
  rw [List.length_flatten, List.map_replicate, List.sum_replicate, hlength]
  decide

end Sauvegarde
