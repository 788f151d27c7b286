import Sauvegarde.Extern.Glib

/-!
# Objects

`put_object` and `get_object` of minio_interface.c. The library libs3 is a parameter: with which buffers it asks for the content
of an object that is put, and in which chunks it hands over one that is got. Every request succeeds at once.
-/

namespace Sauvegarde

/-- The objects on the server, by bucket and key. -/
abbrev Objects := CString → CString → Option Bytes

/-- An object is put, in the place of one that was there. -/
def Objects.put (objects : Objects) (bucket key : CString) (content : Bytes) : Objects := fun b k =>
  if b = bucket ∧ k = key then some content else objects b k

/-- What libs3 chooses: the sizes of the buffers it has filled for a content of a given length, the chunks an object is handed
over in, and the buckets that can be accessed or can be made. -/
structure Libs3 where
  putSizes : Nat → List Nat
  chunks : Bytes → List Bytes
  testBucket : CString → Bool
  createBucket : CString → Bool

/-- What libs3 does when a request succeeds: it has buffers filled until it has the whole content, and hands over the object,
cut into chunks. -/
structure Libs3.Documented (s3 : Libs3) : Prop where
  putSizes : ∀ n, n ≤ (s3.putSizes n).sum
  chunks : ∀ object, (s3.chunks object).flatten = object

/-- `put_object_callback_data`: what is left in the memory stream, and the length that is left to be sent. -/
structure PutObjectCallbackData where
  infile : Bytes
  contentLength : Nat
deriving DecidableEq

/-- `putObjectDataCallback`: the bytes put into the buffer. -/
def putObjectDataCallback (data : PutObjectCallbackData) (bufferSize : Nat) : Bytes × PutObjectCallbackData :=
  let toRead := if data.contentLength > bufferSize then bufferSize else data.contentLength
  (data.infile.take toRead, ⟨data.infile.drop toRead, data.contentLength - (data.infile.take toRead).length⟩)

/-- One request with a content: the buffers filled by the callback, one behind the other. -/
def sendContent (data : PutObjectCallbackData) : List Nat → Bytes × PutObjectCallbackData
  | [] => ([], data)
  | bufferSize :: sizes =>
    let (buffer, data) := putObjectDataCallback data bufferSize
    let (content, data) := sendContent data sizes
    (buffer ++ content, data)

/-- `MULTIPART_CHUNK_SIZE`. -/
def MULTIPART_CHUNK_SIZE : Nat := 768 * 2 ^ 20

/-- The loop over the parts of an object that is put in several: all read from the same stream. The length left is of no more
use after the last part. -/
def uploadParts (s3 : Libs3) : Nat → Bytes → Nat → Bytes
  | 0, _, _ => []
  | parts + 1, infile, contentLength =>
    let partContentLength := if contentLength > MULTIPART_CHUNK_SIZE then MULTIPART_CHUNK_SIZE else contentLength
    let (content, data) := sendContent ⟨infile, partContentLength⟩ (s3.putSizes partContentLength)
    content ++ uploadParts s3 parts data.infile (contentLength - MULTIPART_CHUNK_SIZE)

/-- What `fprintf` returns for a text: its length, or an error when that is no `int`. -/
def fprintf (text : CString) : Int := if text.bytes.length < 2 ^ 31 then text.bytes.length else -1

/-- The array `result` of `put_object` fits on the stack: it has room for the text and the zero behind it, and is never used.
The room that is left there is a parameter. -/
abbrev FitsStack (stackRoom : Nat) (text : Bytes) : Prop := text.length < stackRoom

/-- `put_object`: `none` when the program is ended. The text is written into a memory stream, and read back from it. -/
def putObject (s3 : Libs3) (stackRoom : Nat) (objects : Objects) (targetBucket targetKey : CString)
    (dataToWrite : Option CString) : Option Objects :=
  match dataToWrite with
  | none => none
  | some text =>
    let numChars := fprintf text
    -- the stack overflows at the declaration of the array
    if ¬FitsStack stackRoom text.bytes ∨ numChars ≤ 0 then none
    else
      let contentLength := numChars.toNat
      if contentLength ≤ MULTIPART_CHUNK_SIZE then
        some (objects.put targetBucket targetKey (sendContent ⟨text.bytes, contentLength⟩ (s3.putSizes contentLength)).1)
      else
        let totalSeq := (contentLength + MULTIPART_CHUNK_SIZE - 1) / MULTIPART_CHUNK_SIZE
        some (objects.put targetBucket targetKey (uploadParts s3 totalSeq text.bytes contentLength))

/-- `getObjectDataCallback`: the chunk goes to the end of the memory stream. -/
def getObjectDataCallback (outfile chunk : Bytes) : Bytes := outfile ++ chunk

/-- `get_object`: the bytes in the memory stream; the size returned with them is their number. There are none when there is no
such object. -/
def getObject (s3 : Libs3) (objects : Objects) (targetBucket sourceKey : CString) : Bytes :=
  match objects targetBucket sourceKey with
  | none => []
  | some object => (s3.chunks object).foldl getObjectDataCallback []

/-! ## What is put and what is got -/

/-- A request sends what it asks for, at most what is left to be sent; the stream and the length go on from there. -/
theorem sendContent_eq_min (sizes : List Nat) : ∀ {infile : Bytes} {n : Nat}, n ≤ infile.length →
    sendContent ⟨infile, n⟩ sizes =
      (infile.take (min n sizes.sum), ⟨infile.drop (min n sizes.sum), n - min n sizes.sum⟩) := by
  induction sizes with
  | nil =>
    intro infile n _
    simp [sendContent]
  | cons size sizes ih =>
    intro infile n hlen
    -- the callback gives the smaller of the buffer and what is left
    have hread : (if n > size then size else n) = min n size := by
      split <;> omega
    have htaken : (infile.take (min n size)).length = min n size := by
      rw [List.length_take]
      omega
    have hsplit : min n size + min (n - min n size) sizes.sum = min n (size :: sizes).sum := by
      rw [List.sum_cons]
      omega
    simp only [sendContent, putObjectDataCallback, hread, htaken]
    rw [ih (by rw [List.length_drop]; omega)]
    simp only [List.drop_drop, ← List.take_add, hsplit, Nat.sub_sub]

/-- A request sends as much of the stream as its content is long. -/
theorem sendContent_eq (sizes : List Nat) {infile : Bytes} {n : Nat} (hlen : n ≤ infile.length) (hsum : n ≤ sizes.sum) :
    sendContent ⟨infile, n⟩ sizes = (infile.take n, ⟨infile.drop n, 0⟩) := by
  rw [sendContent_eq_min sizes hlen, Nat.min_eq_left hsum, Nat.sub_self]

/-- The parts together are the content. -/
theorem uploadParts_eq {s3 : Libs3} (hs3 : s3.Documented) (parts : Nat) : ∀ {infile : Bytes} {n : Nat},
    n = infile.length → n ≤ parts * MULTIPART_CHUNK_SIZE → uploadParts s3 parts infile n = infile := by
  induction parts with
  | zero =>
    intro infile n hlen hparts
    have hnil : infile = [] := List.length_eq_zero_iff.mp (by omega)
    rw [hnil, uploadParts]
  | succ parts ih =>
    intro infile n hlen hparts
    rw [Nat.succ_mul] at hparts
    have hpart : (if n > MULTIPART_CHUNK_SIZE then MULTIPART_CHUNK_SIZE else n) = min n MULTIPART_CHUNK_SIZE := by
      split <;> omega
    simp only [uploadParts, hpart]
    rw [sendContent_eq _ (by omega) (hs3.putSizes _)]
    simp only
    rw [ih (by rw [List.length_drop]; omega) (by omega), List.take_append_drop]

/-- An object is put when its text is not empty, its length is an `int` and it fits on the stack: it is the text. -/
theorem putObject_eq {s3 : Libs3} (hs3 : s3.Documented) (stackRoom : Nat) (objects : Objects) (bucket key : CString)
    (text : CString) :
    putObject s3 stackRoom objects bucket key (some text) =
      if text.bytes ≠ [] ∧ text.bytes.length < 2 ^ 31 ∧ FitsStack stackRoom text.bytes then
        some (objects.put bucket key text.bytes)
      else none := by
  by_cases h : text.bytes ≠ [] ∧ text.bytes.length < 2 ^ 31 ∧ FitsStack stackRoom text.bytes
  · obtain ⟨hne, hshort, hfits⟩ := h
    have hpos := List.length_pos_iff.mpr hne
    have hchars : ¬ (¬FitsStack stackRoom text.bytes ∨ (text.bytes.length : Int) ≤ 0) := by
      rintro (hover | hempty)
      · exact hover hfits
      · omega
    rw [if_pos ⟨hne, hshort, hfits⟩]
    simp only [putObject, fprintf, if_pos hshort, if_neg hchars, Int.toNat_natCast]
    split_ifs with hsmall
    · rw [sendContent_eq _ (le_refl _) (hs3.putSizes _), List.take_length]
    · rw [uploadParts_eq hs3 _ rfl]
      have hchunk : 0 < MULTIPART_CHUNK_SIZE := by decide
      have hdiv := Nat.div_add_mod (text.bytes.length + MULTIPART_CHUNK_SIZE - 1) MULTIPART_CHUNK_SIZE
      have hmod := Nat.mod_lt (text.bytes.length + MULTIPART_CHUNK_SIZE - 1) hchunk
      rw [mul_comm] at hdiv
      omega
  · rw [if_neg h]
    have hended : ¬FitsStack stackRoom text.bytes ∨ fprintf text ≤ 0 := by
      by_cases hfits : FitsStack stackRoom text.bytes
      · right
        unfold fprintf
        split
        · have hnil : text.bytes = [] := by
            by_contra hne
            exact h ⟨hne, ‹_›, hfits⟩
          simp [hnil]
        · decide
      · exact Or.inl hfits
    simp only [putObject, if_pos hended]

/-- The chunks go behind what is in the stream. -/
theorem foldl_getObjectDataCallback (chunks : List Bytes) (outfile : Bytes) :
    chunks.foldl getObjectDataCallback outfile = outfile ++ chunks.flatten := by
  induction chunks generalizing outfile with
  | nil => simp
  | cons chunk chunks ih => simp [ih, getObjectDataCallback]

/-- An object that is there is got whole. -/
theorem getObject_eq {s3 : Libs3} (hs3 : s3.Documented) {objects : Objects} {bucket key : CString} {object : Bytes}
    (h : objects bucket key = some object) : getObject s3 objects bucket key = object := by
  simp only [getObject, h]
  rw [foldl_getObjectDataCallback, List.nil_append, hs3.chunks]

/-- An object that was put is there, and the others are as they were. -/
@[simp] theorem Objects.put_apply (objects : Objects) (bucket key : CString) (content : Bytes) (b k : CString) :
    objects.put bucket key content b k = if b = bucket ∧ k = key then some content else objects b k := rfl

end Sauvegarde
