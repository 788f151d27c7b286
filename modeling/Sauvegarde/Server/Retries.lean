import Sauvegarde.Lib.Retry
import Sauvegarde.Server.MinioInterface

/-!
# Requests that are tried again

The loops of `put_object` and `get_object` with the attempts that fail. What libs3 does in an attempt is given: with which buffers it
asks for the content, or in which chunks it hands over the object, and how the attempt ends. The requests that start and complete an
object put in several parts carry no byte of it, and are taken to succeed.
-/

namespace Sauvegarde

/-- `should_retry`: it counts `retriesG` down. That counter is an `int` of any value, and goes on below zero. -/
def shouldRetry (retriesG : Int) : Bool × Int := (decide (retriesG ≠ 0), retriesG - 1)

/-- An attempt to put an object, with the buffers libs3 has filled in it. One that succeeds asks for the whole content, whatever
its length. -/
inductive PutAttempt where
  | ok (sizes : Nat → List Nat) (documented : ∀ contentLength, contentLength ≤ (sizes contentLength).sum)
  | retryable (sizes : List Nat)
  | failed (sizes : List Nat)

/-- What `statusG` is after the attempt. -/
def PutAttempt.statusG : PutAttempt → Retry.Verdict
  | .ok _ _ => .success
  | .retryable _ => .transient
  | .failed _ => .failure

theorem PutAttempt.eq_ok {attempt : PutAttempt} (h : attempt.statusG = .success) :
    ∃ sizes documented, attempt = .ok sizes documented := by
  cases attempt with
  | ok sizes documented => exact ⟨sizes, documented, rfl⟩
  | retryable => simp [statusG] at h
  | failed => simp [statusG] at h

theorem PutAttempt.eq_retryable {attempt : PutAttempt} (h : attempt.statusG = .transient) :
    ∃ sizes, attempt = .retryable sizes := by
  cases attempt with
  | ok => simp [statusG] at h
  | retryable sizes => exact ⟨sizes, rfl⟩
  | failed => simp [statusG] at h

/-- The buffers for a content of a length. -/
def PutAttempt.sizes (contentLength : Nat) : PutAttempt → List Nat
  | .ok sizes _ => sizes contentLength
  | .retryable sizes => sizes
  | .failed sizes => sizes

/-- `S3_put_object` and `S3_upload_part`: what is sent goes in the place of what the attempt before it has sent, and the callback's
data is what that attempt has left. -/
def s3PutObject (contentLength : Nat) (sent : Bytes × PutObjectCallbackData) (attempt : PutAttempt) :
    Bytes × PutObjectCallbackData :=
  sendContent sent.2 (attempt.sizes contentLength)

/-- The loop around `S3_put_object`, and the one around `S3_upload_part`. -/
def requestPut (retriesG : Int) (data : PutObjectCallbackData) (attempts : List PutAttempt) :
    Option (Retry.Result (Bytes × PutObjectCallbackData) Int PutAttempt) :=
  Retry.run PutAttempt.statusG (s3PutObject data.contentLength) shouldRetry retriesG ([], data) attempts

/-- The loop over the parts: `some (none, _)` when a part was given up. -/
def uploadPartsRetrying : Nat → Bytes → Nat → Int → List PutAttempt → Option (Option Bytes × List PutAttempt)
  | 0, _, _, _, attempts => some (some [], attempts)
  | parts + 1, infile, contentLength, retriesG, attempts =>
    let partContentLength := if contentLength > MULTIPART_CHUNK_SIZE then MULTIPART_CHUNK_SIZE else contentLength
    match requestPut retriesG ⟨infile, partContentLength⟩ attempts with
    | none => none
    | some part =>
      if part.verdict = .success then
        match uploadPartsRetrying parts part.state.2.infile (contentLength - MULTIPART_CHUNK_SIZE) part.budget part.left with
        | none => none
        | some (content, left) => some (content.map (part.state.1 ++ ·), left)
      else some (none, part.left)

/-- `put_object` with the attempts it makes, and `retriesG` before them: the content that is uploaded, and the attempts that are
left. There is no content when the program is ended or an attempt failed for good, and `none` when the attempts are too few. -/
def putObjectRetrying (stackRoom : Nat) (retriesG : Int) (attempts : List PutAttempt) (dataToWrite : Option CString) :
    Option (Option Bytes × List PutAttempt) :=
  match dataToWrite with
  | none => some (none, attempts)
  | some text =>
    let numChars := fprintf text
    if ¬FitsStack stackRoom text.bytes ∨ numChars ≤ 0 then some (none, attempts)
    else
      let contentLength := numChars.toNat
      if contentLength ≤ MULTIPART_CHUNK_SIZE then
        match requestPut retriesG ⟨text.bytes, contentLength⟩ attempts with
        | none => none
        | some request => some (if request.verdict = .success then some request.state.1 else none, request.left)
      else
        let totalSeq := (contentLength + MULTIPART_CHUNK_SIZE - 1) / MULTIPART_CHUNK_SIZE
        uploadPartsRetrying totalSeq text.bytes contentLength retriesG attempts

/-- An attempt to get an object, with the chunks that were handed over in it: the whole object when it succeeds, and a part from
its start when it may be tried again. -/
inductive GetAttempt (object : Bytes) where
  | ok (chunks : List Bytes) (whole : chunks.flatten = object)
  | retryable (chunks : List Bytes) (part : chunks.flatten <+: object)
  | failed (chunks : List Bytes)

/-- What `statusG` is after the attempt. -/
def GetAttempt.statusG {object : Bytes} : GetAttempt object → Retry.Verdict
  | .ok _ _ => .success
  | .retryable _ _ => .transient
  | .failed _ => .failure

theorem GetAttempt.eq_ok {object : Bytes} {attempt : GetAttempt object} (h : attempt.statusG = .success) :
    ∃ chunks whole, attempt = .ok chunks whole := by
  cases attempt with
  | ok chunks whole => exact ⟨chunks, whole, rfl⟩
  | retryable => simp [statusG] at h
  | failed => simp [statusG] at h

theorem GetAttempt.eq_retryable {object : Bytes} {attempt : GetAttempt object} (h : attempt.statusG = .transient) :
    ∃ chunks part, attempt = .retryable chunks part := by
  cases attempt with
  | ok => simp [statusG] at h
  | retryable chunks part => exact ⟨chunks, part, rfl⟩
  | failed => simp [statusG] at h

/-- The chunks of an attempt. -/
def GetAttempt.chunks {object : Bytes} : GetAttempt object → List Bytes
  | .ok chunks _ => chunks
  | .retryable chunks _ => chunks
  | .failed chunks => chunks

/-- `S3_get_object`: the chunks are written into the memory stream. -/
def s3GetObject {object : Bytes} (outputFile : Bytes) (attempt : GetAttempt object) : Bytes :=
  attempt.chunks.foldl getObjectDataCallback outputFile

/-- `get_object` with the attempts it makes: its memory stream is opened before the first. The state is the buffer that is
returned, the verdict is `statusG`. -/
def getObjectRetrying {object : Bytes} (retriesG : Int) (attempts : List (GetAttempt object)) :
    Option (Retry.Result Bytes Int (GetAttempt object)) :=
  Retry.run GetAttempt.statusG s3GetObject shouldRetry retriesG [] attempts

/-! ## Attempts that succeed at once -/

theorem requestPut_of_ok {s3 : Libs3} (hs3 : s3.Documented) (retriesG : Int) (data : PutObjectCallbackData)
    (left : List PutAttempt) :
    requestPut retriesG data (.ok s3.putSizes hs3.putSizes :: left) =
      some ⟨sendContent data (s3.putSizes data.contentLength), .success, retriesG, left⟩ := by
  rw [requestPut, Retry.run_cons_of_ne (by simp [PutAttempt.statusG])]
  rfl

theorem uploadPartsRetrying_of_ok {s3 : Libs3} (hs3 : s3.Documented) (retriesG : Int) (left : List PutAttempt) (parts : Nat) :
    ∀ (infile : Bytes) (contentLength : Nat),
      uploadPartsRetrying parts infile contentLength retriesG
          (List.replicate parts (.ok s3.putSizes hs3.putSizes) ++ left) =
        some (some (uploadParts s3 parts infile contentLength), left) := by
  induction parts with
  | zero =>
    intro infile contentLength
    rfl
  | succ parts ih =>
    intro infile contentLength
    rw [List.replicate_succ, List.cons_append]
    simp only [uploadPartsRetrying, requestPut_of_ok hs3, if_true, ih]
    rfl

/-- Without a failed attempt, what is uploaded is what is put where every request succeeds at once. -/
theorem putObjectRetrying_of_ok {s3 : Libs3} (hs3 : s3.Documented) (stackRoom : Nat) (retriesG : Int) (text : CString) :
    ∃ requests uploaded,
      putObjectRetrying stackRoom retriesG (List.replicate requests (.ok s3.putSizes hs3.putSizes)) (some text) = some (uploaded, []) ∧
      ∀ objects bucket key, putObject s3 stackRoom objects bucket key (some text) = uploaded.map (objects.put bucket key) := by
  by_cases hchars : ¬FitsStack stackRoom text.bytes ∨ fprintf text ≤ 0
  · refine ⟨0, none, ?_, ?_⟩
    · simp only [putObjectRetrying, if_pos hchars, List.replicate_zero]
    · intro objects bucket key
      simp only [putObject, if_pos hchars, Option.map_none]
  · by_cases hsmall : (fprintf text).toNat ≤ MULTIPART_CHUNK_SIZE
    · refine ⟨1, some (sendContent ⟨text.bytes, (fprintf text).toNat⟩ (s3.putSizes (fprintf text).toNat)).1, ?_, ?_⟩
      · simp only [putObjectRetrying, if_neg hchars, if_pos hsmall, List.replicate_one, requestPut_of_ok hs3, if_true]
      · intro objects bucket key
        simp only [putObject, if_neg hchars, if_pos hsmall, Option.map_some]
    · have hparts := uploadPartsRetrying_of_ok hs3 retriesG []
      simp only [List.append_nil] at hparts
      obtain ⟨totalSeq, htotal⟩ : ∃ totalSeq,
          totalSeq = ((fprintf text).toNat + MULTIPART_CHUNK_SIZE - 1) / MULTIPART_CHUNK_SIZE := ⟨_, rfl⟩
      refine ⟨totalSeq, some (uploadParts s3 totalSeq text.bytes (fprintf text).toNat), ?_, ?_⟩
      · simp only [putObjectRetrying, if_neg hchars, if_neg hsmall, ← htotal]
        exact hparts _ _ _
      · intro objects bucket key
        simp only [putObject, if_neg hchars, if_neg hsmall, ← htotal, Option.map_some]

/-- Without a failed attempt, what is got is what is got where the request succeeds at once. -/
theorem getObjectRetrying_of_ok {s3 : Libs3} (hs3 : s3.Documented) (retriesG : Int) {objects : Objects} {bucket key : CString}
    {object : Bytes} (h : objects bucket key = some object) :
    getObjectRetrying retriesG [.ok (s3.chunks object) (hs3.chunks object)] =
      some ⟨getObject s3 objects bucket key, .success, retriesG, []⟩ := by
  rw [getObjectRetrying, Retry.run_cons_of_ne (by simp [GetAttempt.statusG])]
  simp only [getObject, h]
  rfl

end Sauvegarde
