import Mathlib.Algebra.Order.BigOperators.Group.List
import Mathlib.Algebra.Order.Group.Nat
import Sauvegarde.Server.Retries

/-!
# Objects whose requests are tried again

What is uploaded after failed attempts is the content, and what is got is the object, exactly when none of those attempts has moved a
byte: the stream, the length left to be sent and the buffer that is filled all survive an attempt.
-/

namespace Sauvegarde

/-- No attempt that was tried again has asked for a byte. -/
def NothingConsumed (attempts : List PutAttempt) : Prop := ∀ sizes, PutAttempt.retryable sizes ∈ attempts → sizes.sum = 0

/-- No attempt that was tried again has handed over a byte. -/
def NothingDelivered {object : Bytes} (attempts : List (GetAttempt object)) : Prop :=
  ∀ chunks part, GetAttempt.retryable chunks part ∈ attempts → chunks.flatten = []

namespace RetriesAux

/-! ## Put -/

/-- What attempts ask for together. -/
def asked (contentLength : Nat) (attempts : List PutAttempt) : Nat :=
  (attempts.map fun attempt => (attempt.sizes contentLength).sum).sum

/-- The stream goes on from one attempt to the next. -/
theorem foldl_s3PutObject (contentLength : Nat) (attempts : List PutAttempt) :
    ∀ {infile : Bytes} {n : Nat} (sent : Bytes), n ≤ infile.length →
      (attempts.foldl (s3PutObject contentLength) (sent, ⟨infile, n⟩)).2 =
        ⟨infile.drop (min n (asked contentLength attempts)), n - min n (asked contentLength attempts)⟩ := by
  induction attempts with
  | nil =>
    intro infile n sent _
    simp [asked]
  | cons attempt attempts ih =>
    intro infile n sent hlen
    have hsplit : ∀ k, min n k + min (n - min n k) (asked contentLength attempts) =
        min n (k + asked contentLength attempts) := by
      intro k
      omega
    have hasked : asked contentLength (attempt :: attempts) =
        (attempt.sizes contentLength).sum + asked contentLength attempts := by
      rw [asked, List.map_cons, List.sum_cons, asked]
    rw [List.foldl_cons, s3PutObject, sendContent_eq_min _ hlen, ih _ (by rw [List.length_drop]; omega)]
    rw [List.drop_drop, Nat.sub_sub, hsplit, hasked]

/-- Transient failures ask for nothing together exactly when none of them does. -/
theorem asked_eq_zero_iff (contentLength : Nat) {failed : List PutAttempt}
    (hfailed : ∀ attempt ∈ failed, attempt.statusG = .transient) : asked contentLength failed = 0 ↔ NothingConsumed failed := by
  rw [asked, List.sum_eq_zero_iff]
  constructor
  · intro h sizes hmem
    exact h _ (List.mem_map.mpr ⟨_, hmem, rfl⟩)
  · intro h k hk
    obtain ⟨attempt, hmem, rfl⟩ := List.mem_map.mp hk
    obtain ⟨sizes, rfl⟩ := PutAttempt.eq_retryable (hfailed attempt hmem)
    exact h sizes hmem

theorem nothingConsumed_append {attempts attempts' : List PutAttempt} :
    NothingConsumed (attempts ++ attempts') ↔ NothingConsumed attempts ∧ NothingConsumed attempts' := by
  simp only [NothingConsumed, List.mem_append, or_imp, forall_and]

/-- A request that succeeds sends the end of its content, and leaves the stream behind it. It sends the whole exactly when the
attempts before have consumed nothing. -/
theorem requestPut_eq {retriesG : Int} {infile : Bytes} {n : Nat} {attempts : List PutAttempt}
    {r : Retry.Result (Bytes × PutObjectCallbackData) Int PutAttempt} (h : requestPut retriesG ⟨infile, n⟩ attempts = some r)
    (hsuccess : r.verdict = .success) (hpos : 0 < n) (hlen : n ≤ infile.length) :
    ∃ used consumed, attempts = used ++ r.left ∧ consumed ≤ n ∧
      r.state = ((infile.drop consumed).take (n - consumed), ⟨infile.drop n, 0⟩) ∧
      (consumed = 0 ↔ NothingConsumed used) := by
  obtain ⟨failed, last, hattempts, hfailed, hlast, hstate⟩ := Retry.exists_of_run h
  obtain ⟨sizes, documented, rfl⟩ := PutAttempt.eq_ok (hlast.trans hsuccess)
  refine ⟨failed ++ [.ok sizes documented], min n (asked n failed), by simp [hattempts], by omega, ?_, ?_⟩
  · have hroom : n - min n (asked n failed) ≤ (sizes n).sum := (Nat.sub_le _ _).trans (documented n)
    rw [hstate, s3PutObject, foldl_s3PutObject n failed [] hlen, PutAttempt.sizes,
      sendContent_eq _ (by rw [List.length_drop]; omega) hroom, List.drop_drop, Nat.add_sub_cancel' (Nat.min_le_left _ _)]
  · have hzero : min n (asked n failed) = 0 ↔ asked n failed = 0 := by omega
    rw [hzero, asked_eq_zero_iff n hfailed, nothingConsumed_append]
    simp [NothingConsumed]

/-- Two pieces are a list only when the first has lost nothing of its start. -/
theorem drop_take_append_eq_iff {infile tail : Bytes} {p consumed : Nat} (hp : p ≤ infile.length) (hle : consumed ≤ p)
    (htail : tail.length ≤ infile.length - p) :
    (infile.drop consumed).take (p - consumed) ++ tail = infile ↔ consumed = 0 ∧ tail = infile.drop p := by
  constructor
  · intro h
    have hlength := congrArg List.length h
    simp only [List.length_append, List.length_take, List.length_drop] at hlength
    have hzero : consumed = 0 := by omega
    subst hzero
    rw [List.drop_zero, Nat.sub_zero] at h
    exact ⟨rfl, List.append_cancel_left (h.trans (List.take_append_drop p infile).symm)⟩
  · rintro ⟨rfl, rfl⟩
    rw [List.drop_zero, Nat.sub_zero, List.take_append_drop]

/-- The parts that are uploaded are no longer than the stream, and are the stream exactly when nothing was consumed. -/
theorem uploadPartsRetrying_eq (parts : Nat) : ∀ {infile : Bytes} {n : Nat} {retriesG : Int} {attempts left : List PutAttempt}
    {content : Bytes}, uploadPartsRetrying parts infile n retriesG attempts = some (some content, left) →
    n = infile.length → n ≤ parts * MULTIPART_CHUNK_SIZE → parts * MULTIPART_CHUNK_SIZE < n + MULTIPART_CHUNK_SIZE →
    ∃ used, attempts = used ++ left ∧ content.length ≤ n ∧ (content = infile ↔ NothingConsumed used) := by
  induction parts with
  | zero =>
    intro infile n retriesG attempts left content h hlen hmost hleast
    have hnil : infile = [] := List.length_eq_zero_iff.mp (by omega)
    simp only [uploadPartsRetrying, Option.some.injEq, Prod.mk.injEq] at h
    obtain ⟨rfl, rfl⟩ := h
    exact ⟨[], rfl, by simp, by simp [hnil, NothingConsumed]⟩
  | succ parts ih =>
    intro infile n retriesG attempts left content h hlen hmost hleast
    rw [Nat.succ_mul] at hmost hleast
    have hchunk : 0 < MULTIPART_CHUNK_SIZE := by decide
    have hpart : (if n > MULTIPART_CHUNK_SIZE then MULTIPART_CHUNK_SIZE else n) = min n MULTIPART_CHUNK_SIZE := by
      split <;> omega
    simp only [uploadPartsRetrying, hpart] at h
    split at h
    · simp at h
    · rename_i part hrequest
      split at h
      · rename_i hsuccess
        split at h
        · simp at h
        · rename_i rest left' hrest
          simp only [Option.some.injEq, Prod.mk.injEq, Option.map_eq_some_iff] at h
          obtain ⟨⟨tail, rfl, rfl⟩, rfl⟩ := h
          obtain ⟨used, consumed, hused, hle, hstate, hconsumed⟩ := requestPut_eq hrequest hsuccess (by omega) (by omega)
          rw [hstate] at hrest ⊢
          obtain ⟨used', hused', htail, hiff⟩ := ih hrest (by rw [List.length_drop]; omega) (by omega) (by omega)
          refine ⟨used ++ used', by rw [hused, hused', List.append_assoc], ?_, ?_⟩
          · simp only [List.length_append, List.length_take, List.length_drop]
            omega
          · rw [nothingConsumed_append, ← hconsumed, ← hiff]
            exact drop_take_append_eq_iff (by omega) hle (by omega)
      · simp at h

/-- A text that is put: its content is uploaded exactly when nothing was consumed. -/
theorem putObjectRetrying_eq_iff {stackRoom : Nat} {retriesG : Int} {attempts : List PutAttempt} {text : CString} {content : Bytes}
    (h : putObjectRetrying stackRoom retriesG attempts (some text) = some (some content, [])) :
    content = text.bytes ↔ NothingConsumed attempts := by
  simp only [putObjectRetrying] at h
  split at h
  · simp at h
  · rename_i hchars
    have hshort : text.bytes.length < 2 ^ 31 := by
      by_contra hlong
      exact hchars (Or.inr (by rw [fprintf, if_neg hlong]; decide))
    have hnum : fprintf text = text.bytes.length := by rw [fprintf, if_pos hshort]
    have hpos : 0 < text.bytes.length := by
      have := (not_or.mp hchars).2
      omega
    rw [hnum, Int.toNat_natCast] at h
    split at h
    · -- one request
      split at h
      · simp at h
      · rename_i request hrequest
        split at h
        · rename_i hsuccess
          simp only [Option.some.injEq, Prod.mk.injEq] at h
          obtain ⟨rfl, hleft⟩ := h
          obtain ⟨used, consumed, hused, hle, hstate, hconsumed⟩ := requestPut_eq hrequest hsuccess hpos (le_refl _)
          rw [hused, hleft, List.append_nil, ← hconsumed, hstate]
          have hiff := @drop_take_append_eq_iff text.bytes [] _ _ (le_refl _) hle (by simp)
          simpa using hiff
        · simp at h
    · -- several parts, the last of them not empty
      have hchunk : 0 < MULTIPART_CHUNK_SIZE := by decide
      have hdiv := Nat.div_add_mod (text.bytes.length + MULTIPART_CHUNK_SIZE - 1) MULTIPART_CHUNK_SIZE
      have hmod := Nat.mod_lt (text.bytes.length + MULTIPART_CHUNK_SIZE - 1) hchunk
      rw [mul_comm] at hdiv
      obtain ⟨used, hused, _, hiff⟩ := uploadPartsRetrying_eq _ h rfl (by omega) (by omega)
      rw [hused, List.append_nil]
      exact hiff

/-! ## Get -/

/-- The chunks go behind what is in the buffer. -/
theorem foldl_s3GetObject {object : Bytes} (attempts : List (GetAttempt object)) (outputFile : Bytes) :
    attempts.foldl s3GetObject outputFile = outputFile ++ (attempts.map fun attempt => attempt.chunks.flatten).flatten := by
  induction attempts generalizing outputFile with
  | nil => simp
  | cons attempt attempts ih =>
    rw [List.foldl_cons, ih, s3GetObject, foldl_getObjectDataCallback, List.map_cons, List.flatten_cons, List.append_assoc]

/-- An object that is got: the buffer is the object exactly when nothing was delivered before. -/
theorem getObjectRetrying_eq_iff {object : Bytes} {retriesG : Int} {attempts : List (GetAttempt object)}
    {got : Retry.Result Bytes Int (GetAttempt object)} (h : getObjectRetrying retriesG attempts = some got)
    (hsuccess : got.verdict = .success) (hleft : got.left = []) : got.state = object ↔ NothingDelivered attempts := by
  obtain ⟨failed, last, hattempts, hfailed, hlast, hstate⟩ := Retry.exists_of_run h
  obtain ⟨chunks, whole, rfl⟩ := GetAttempt.eq_ok (hlast.trans hsuccess)
  have hobject : GetAttempt.chunks (.ok chunks whole) = chunks := rfl
  rw [hstate, s3GetObject, foldl_getObjectDataCallback, hobject, whole, foldl_s3GetObject, List.nil_append,
    List.append_left_eq_self, List.flatten_eq_nil_iff, hattempts, hleft]
  constructor
  · intro hnone chunks' part hmem
    rcases List.mem_append.mp hmem with hmem | hmem
    · exact hnone _ (List.mem_map.mpr ⟨_, hmem, rfl⟩)
    · simp at hmem
  · intro hnone delivered hdelivered
    obtain ⟨attempt, hmem, rfl⟩ := List.mem_map.mp hdelivered
    obtain ⟨chunks', part, rfl⟩ := GetAttempt.eq_retryable (hfailed attempt hmem)
    exact hnone chunks' part (List.mem_append_left _ hmem)

end RetriesAux

open RetriesAux

/-- When the last attempt succeeds, the content is uploaded, and the object got, exactly when no attempt before it has moved a
byte. A text that does not fit on the stack is not uploaded at all. -/
theorem retries_keepObject_iff (stackRoom : Nat) (retriesG : Int) (text : CString) (puts : List PutAttempt) (content : Bytes) (object : Bytes)
    (gets : List (GetAttempt object)) (got : Retry.Result Bytes Int (GetAttempt object)) :
    (putObjectRetrying stackRoom retriesG puts (some text) = some (some content, []) →
      (content = text.bytes ↔ NothingConsumed puts)) ∧
    (getObjectRetrying retriesG gets = some got → got.verdict = .success → got.left = [] →
      (got.state = object ↔ NothingDelivered gets)) := by
  constructor
  · intro hput
    exact putObjectRetrying_eq_iff hput
  · intro hget hsuccess hleft
    exact getObjectRetrying_eq_iff hget hsuccess hleft

/-- Attempts to put and to get two bytes, the first with these buffers or chunks. -/
def putsOfTwo (sizes : List Nat) : List PutAttempt := [.retryable sizes, .ok (fun contentLength => [contentLength]) (by simp)]

def getsOfTwo (chunks : List Bytes) (part : chunks.flatten <+: str "ab") : List (GetAttempt (str "ab")) :=
  [.retryable chunks part, .ok [str "ab"] (by simp)]

/-- After an attempt that failed before it moved a byte both are as they should be. -/
theorem retries_keepObject_refused :
    putObjectRetrying 4096 1 (putsOfTwo []) (some (CString.lit "ab")) = some (some (str "ab"), []) ∧ NothingConsumed (putsOfTwo []) ∧
      getObjectRetrying 1 (getsOfTwo [] (by simp)) = some ⟨str "ab", .success, 0, []⟩ ∧
      NothingDelivered (getsOfTwo [] (by simp)) := by
  have hboth := retries_keepObject_iff 4096 1 (CString.lit "ab") (putsOfTwo []) (str "ab") (str "ab") (getsOfTwo [] (by simp))
    ⟨str "ab", .success, 0, []⟩
  exact ⟨rfl, (hboth.1 rfl).mp rfl, rfl, (hboth.2 rfl rfl rfl).mp rfl⟩

/-- An attempt to put the two bytes takes one of them from the stream and fails, and the next uploads the other. An attempt to get
them hands over one and fails, and the buffer holds it before the two. -/
theorem retried_changes_object :
    putObjectRetrying 4096 1 (putsOfTwo [1]) (some (CString.lit "ab")) = some (some (str "b"), []) ∧
      str "b" ≠ (CString.lit "ab").bytes ∧
      getObjectRetrying 1 (getsOfTwo [str "a"] (by decide)) = some ⟨str "aab", .success, 0, []⟩ ∧ str "aab" ≠ str "ab" := by
  refine ⟨rfl, ?_, rfl, ?_⟩
  · decide
  · decide

end Sauvegarde
