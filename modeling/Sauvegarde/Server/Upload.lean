import Sauvegarde.Extern.Glib
import Sauvegarde.Lib.Decimal
import Sauvegarde.Lib.Memory
import Sauvegarde.Lib.Runs

/-!
# Uploads

How server.c puts the body of a POST request together: libmicrohttpd calls once when the request begins, once for every chunk of
data, and once more, without data, at the end.
-/

namespace Sauvegarde

/-- `DEFAULT_SERVER_BUFFER_SIZE`. -/
def DEFAULT_SERVER_BUFFER_SIZE : Nat := 8388608

/-- `upload_t`: the buffer as it was allocated. -/
structure Upload where
  buffer : Bytes
  pos : Nat
  number : Nat
deriving DecidableEq

/-- An unsigned number of 64 bits as `sscanf` reads it: a negative one wraps around, and what does not fit is the greatest. -/
def scanGuint64 (text : Bytes) : Option Nat :=
  (Decimal.scan text).map fun z => if z.natAbs < 2 ^ 64 then (z % 2 ^ 64).toNat else 2 ^ 64 - 1

/-- `get_header_content_length`, of the value that libmicrohttpd finds for the header. -/
def getHeaderContentLength (length : Option CString) (defaultValue : Nat) : Nat :=
  match length with
  | none => defaultValue
  | some length =>
    let len := (scanGuint64 length.bytes).getD defaultValue
    if len > 4294967296 then defaultValue else len

/-- What is given to `process_received_data`: the buffer, and how much of it was received. -/
structure Received where
  receivedData : Bytes
  length : Nat
deriving DecidableEq

/-- One call of `process_post_request`, with what `con_cls` points to: none when it writes where nothing was allocated. What
memory holds when it is allocated is a parameter. -/
def processPostRequest (malloc : Nat → Bytes) (contentLength : Option CString) (conCls : Option Upload) (uploadData : Bytes) :
    Option (Option Upload × List Received) :=
  match conCls with
  | none =>
    let len := getHeaderContentLength contentLength DEFAULT_SERVER_BUFFER_SIZE
    some (some ⟨malloc (len + 1), 0, 0⟩, [])
  | some pp =>
    if uploadData ≠ [] then
      (Memory.write pp.buffer pp.pos uploadData).map fun buffer =>
        (some ⟨buffer, pp.pos + uploadData.length, pp.number + 1⟩, [])
    else
      (Memory.write pp.buffer pp.pos [0]).map fun buffer => (none, [⟨buffer, pp.pos⟩])

/-- The calls for one request: the chunks between the call that begins and the one that ends it. -/
def postCalls (chunks : List Bytes) : List Bytes := [] :: (chunks ++ [[]])

variable (malloc : Nat → Bytes) (contentLength : Option CString)

/-- The chunks go one behind the other into the buffer when they fit in it. -/
theorem execute_chunks {chunks : List Bytes} (hchunks : ∀ chunk ∈ chunks, chunk ≠ []) (rest : List Bytes) :
    ∀ (pp : Upload) {done : Bytes}, Memory.Filled pp.buffer pp.pos done →
      pp.pos + chunks.flatten.length ≤ pp.buffer.length →
        ∃ pp' : Upload, Memory.Filled pp'.buffer pp'.pos (done ++ chunks.flatten) ∧
          pp'.pos = pp.pos + chunks.flatten.length ∧ pp'.buffer.length = pp.buffer.length ∧
          Runs.execute (processPostRequest malloc contentLength) (some pp) (chunks ++ rest) =
            Runs.execute (processPostRequest malloc contentLength) (some pp') rest := by
  induction chunks with
  | nil =>
    intro pp done hfilled _
    exact ⟨pp, by simpa using hfilled, rfl, rfl, rfl⟩
  | cons chunk chunks ih =>
    intro pp done hfilled hfits
    obtain ⟨hne, hchunks⟩ := List.forall_mem_cons.mp hchunks
    rw [List.flatten_cons, List.length_append] at hfits
    obtain ⟨buffer, hwrite, hfilled', hlength⟩ := Memory.write_filled hfilled (show pp.pos + chunk.length ≤ _ by omega)
    obtain ⟨pp', hfilled'', hpos, hlength', hrun⟩ := ih hchunks ⟨buffer, pp.pos + chunk.length, pp.number + 1⟩ hfilled'
      (by rw [hlength]; exact (Nat.add_assoc _ _ _).trans_le hfits)
    refine ⟨pp', by simpa using hfilled'', ?_, hlength'.trans hlength, ?_⟩
    · rw [hpos, List.flatten_cons, List.length_append, Nat.add_assoc]
    · rw [← hrun, List.cons_append, Runs.execute, processPostRequest, if_pos hne, hwrite]
      simp

/-- Chunks that leave no room for the terminating zero write where nothing was allocated. -/
theorem execute_overflow {chunks : List Bytes} (hchunks : ∀ chunk ∈ chunks, chunk ≠ []) :
    ∀ pp : Upload, pp.buffer.length ≤ pp.pos + chunks.flatten.length →
      Runs.execute (processPostRequest malloc contentLength) (some pp) (chunks ++ [[]]) = none := by
  induction chunks with
  | nil =>
    intro pp hfull
    have hwrite : Memory.write pp.buffer pp.pos [0] = none := Memory.write_eq_none (Nat.lt_succ_of_le hfull)
    simp [Runs.execute, processPostRequest, hwrite]
  | cons chunk chunks ih =>
    intro pp hfull
    obtain ⟨hne, hchunks⟩ := List.forall_mem_cons.mp hchunks
    rw [List.cons_append, Runs.execute, processPostRequest, if_pos hne]
    rcases hwrite : Memory.write pp.buffer pp.pos chunk with _ | buffer
    · rfl
    · have hlength : buffer.length = pp.buffer.length := Memory.length_write hwrite
      rw [List.flatten_cons, List.length_append, ← Nat.add_assoc] at hfull
      simp [ih hchunks ⟨buffer, pp.pos + chunk.length, pp.number + 1⟩ (hlength.trans_le hfull)]

end Sauvegarde
