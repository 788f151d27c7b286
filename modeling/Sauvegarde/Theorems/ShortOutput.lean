import Sauvegarde.Libcdpfgl.Compress

/-!
# Short output

Which of the results of `uncompress_buffer` are the text that was announced. A lack of room is no error to it, and a type that it does
not know is none either.
-/

namespace Sauvegarde

/-- Whatever is returned is a text of the announced length, which zlib has written as a whole. -/
def UncompressedWhole (z : Zlib) (buffer : Bytes) (cmplen textlen : UInt64) (type : Int16) : Prop :=
  ∀ comp ∈ (uncompressBuffer z buffer cmplen textlen type).1,
    comp.comp = false ∧ comp.len = textlen ∧
      ∃ out, comp.text = some out ∧ out.length = textlen.toNat ∧
        z.uncompress (buffer.take cmplen.toNat) textlen.toNat = (.ok, out)

namespace ShortOutputAux

/-- A type that is not zlib's leaves the structure as `init_compress_t` makes it. -/
theorem uncompressBuffer_of_ne {z : Zlib} {buffer : Bytes} {cmplen textlen : UInt64} {type : Int16}
    (htype : type ≠ COMPRESS_ZLIB_TYPE) : (uncompressBuffer z buffer cmplen textlen type).1 = some initCompress := by
  rw [uncompressBuffer, if_neg htype]

/-- Without a destination the compressed text comes back. -/
theorem uncompressBuffer_of_wrap {z : Zlib} {buffer : Bytes} {cmplen textlen : UInt64} (hwrap : textlen + 1 = 0) :
    (uncompressBuffer z buffer cmplen textlen COMPRESS_ZLIB_TYPE).1 =
      some { text := some buffer, len := cmplen, comp := true } := by
  rw [uncompressBuffer, if_pos rfl, zlibUncompressBuffer, if_pos hwrap]

/-- An error of zlib's other than a lack of room has no result, and every other answer is the result. -/
theorem uncompressBuffer_of_room {z : Zlib} {buffer : Bytes} {cmplen textlen : UInt64} (hroom : textlen + 1 ≠ 0) {ret : ZResult}
    {out : Bytes} (hz : z.uncompress (buffer.take cmplen.toNat) textlen.toNat = (ret, out)) :
    (uncompressBuffer z buffer cmplen textlen COMPRESS_ZLIB_TYPE).1 =
      if ret = .otherError then none else some { text := some out, len := UInt64.ofNat out.length, comp := false } := by
  rw [uncompressBuffer, if_pos rfl, zlibUncompressBuffer, if_neg hroom]
  simp only [hz]
  cases ret <;> rfl

end ShortOutputAux

open ShortOutputAux

/-- What `uncompress_buffer` returns is the whole text exactly when the type is zlib's, the destination can be allocated, and zlib
either gives an error other than a lack of room or has written the announced length when it comes to the end of the text. -/
theorem uncompressedWhole_iff (z : Zlib) (buffer : Bytes) (cmplen textlen : UInt64) (type : Int16) :
    UncompressedWhole z buffer cmplen textlen type ↔
      type = COMPRESS_ZLIB_TYPE ∧ textlen + 1 ≠ 0 ∧
        ((z.uncompress (buffer.take cmplen.toNat) textlen.toNat).1 = .otherError ∨
          ((z.uncompress (buffer.take cmplen.toNat) textlen.toNat).1 = .ok ∧
            (z.uncompress (buffer.take cmplen.toNat) textlen.toNat).2.length = textlen.toNat)) := by
  rcases hz : z.uncompress (buffer.take cmplen.toNat) textlen.toNat with ⟨ret, out⟩
  constructor
  · intro hwhole
    have htype : type = COMPRESS_ZLIB_TYPE := by
      by_contra hne
      obtain ⟨-, -, text, htext, -⟩ := hwhole initCompress (uncompressBuffer_of_ne hne)
      exact absurd htext (by simp [initCompress])
    subst htype
    have hroom : textlen + 1 ≠ 0 := by
      intro hwrap
      exact absurd (hwhole _ (uncompressBuffer_of_wrap hwrap)).1 (by simp)
    refine ⟨rfl, hroom, ?_⟩
    have hresult := uncompressBuffer_of_room hroom hz
    by_cases hret : ret = .otherError
    · exact Or.inl hret
    · rw [if_neg hret] at hresult
      obtain ⟨-, -, text, htext, hlen, hok⟩ := hwhole _ hresult
      rw [hz, Prod.mk.injEq] at hok
      rw [hok.2]
      exact Or.inr ⟨hok.1, hlen⟩
  · rintro ⟨rfl, hroom, hret⟩ comp hcomp
    have hresult := uncompressBuffer_of_room hroom hz
    rcases hret with rfl | ⟨rfl, hlen⟩
    · rw [if_pos rfl] at hresult
      rw [hresult] at hcomp
      exact absurd hcomp (by simp)
    · rw [if_neg (by decide)] at hresult
      rw [hresult, Option.mem_some_iff] at hcomp
      rw [← hcomp]
      exact ⟨rfl, by rw [hlen, UInt64.ofNat_toNat], out, rfl, hlen, hz⟩

/-! ## A destination that is too small -/

/-- A zlib that writes one byte before its input, and gives as much back as there is room for. -/
def narrowZlib : Zlib where
  compress2 := fun bytes => 0 :: bytes
  uncompress := fun bytes n => if n < bytes.tail.length then (.bufError, bytes.tail.take n) else (.ok, bytes.tail)

/-- Three bytes that are announced as two are returned as two, and a type that is not known gives no text. -/
theorem truncated_uncompressed :
    (uncompressBuffer narrowZlib (narrowZlib.compress2 (str "abc")) 4 2 COMPRESS_ZLIB_TYPE).1 =
        some { text := some (str "ab"), len := 2, comp := false } ∧
      narrowZlib.uncompress (narrowZlib.compress2 (str "abc")) 2 = (.bufError, str "ab") ∧
      ¬UncompressedWhole narrowZlib (narrowZlib.compress2 (str "abc")) 4 2 COMPRESS_ZLIB_TYPE ∧
      (uncompressBuffer narrowZlib (str "abc") 3 3 2).1 = some { text := none, len := 0, comp := false } ∧
      ¬UncompressedWhole narrowZlib (str "abc") 3 3 2 := by
  have hshort : (uncompressBuffer narrowZlib (narrowZlib.compress2 (str "abc")) 4 2 COMPRESS_ZLIB_TYPE).1 =
      some { text := some (str "ab"), len := 2, comp := false } := by decide +kernel
  have hnone : (uncompressBuffer narrowZlib (str "abc") 3 3 2).1 = some { text := none, len := 0, comp := false } := by
    decide +kernel
  refine ⟨hshort, by decide +kernel, fun hwhole => ?_, hnone, fun hwhole => ?_⟩
  · obtain ⟨-, -, out, -, -, hok⟩ := hwhole _ hshort
    have hret : (narrowZlib.uncompress ((narrowZlib.compress2 (str "abc")).take (4 : UInt64).toNat) (2 : UInt64).toNat).1 =
        .bufError := by decide +kernel
    rw [hok] at hret
    exact absurd hret (by simp)
  · obtain ⟨-, -, out, htext, -⟩ := hwhole _ hnone
    exact absurd htext (by simp)

end Sauvegarde
