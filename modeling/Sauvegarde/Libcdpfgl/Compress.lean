import Sauvegarde.Extern.Glib

/-!
# Compression

The functions of compress.c over zlib. Zlib is a parameter: what it does to bytes is not in the repository. Allocations succeed.
-/

namespace Sauvegarde

/-- Defines that no compression is required. -/
def COMPRESS_NONE_TYPE : Int16 := 0

/-- Defines that ZLIB is to be used to compress data. -/
def COMPRESS_ZLIB_TYPE : Int16 := 1

/-- The return values of `uncompress` that the code tells apart. -/
inductive ZResult where
  | ok
  | bufError
  | otherError
deriving DecidableEq

/-- What zlib does: the bytes `compress2` writes into a buffer of `compressBound` bytes, and the return value and the bytes
written by `uncompress` into a buffer of a given length. -/
structure Zlib where
  compress2 : Bytes → Bytes
  uncompress : Bytes → Nat → ZResult × Bytes

/-- What zlib promises of `compress2`: it writes something, and no more than the `compressBound` bytes of the destination, which a
length of 32 bits keeps far below what a signed length holds. -/
def Zlib.Writes (z : Zlib) : Prop :=
  ∀ bytes : Bytes, bytes.length < 2 ^ 32 → 0 < (z.compress2 bytes).length ∧ (z.compress2 bytes).length < 2 ^ 63

/-- What was compressed comes back when there is room for it, at lengths that a signed integer holds. -/
def Zlib.Inverts (z : Zlib) : Prop :=
  ∀ bytes : Bytes, bytes.length < 2 ^ 63 → z.uncompress (z.compress2 bytes) bytes.length = (.ok, bytes)

/-- A zlib that writes one byte before its input. -/
def storingZlib : Zlib := ⟨fun bytes => 0 :: bytes, fun bytes _ => (.ok, bytes.tail)⟩

theorem storingZlib_writes : storingZlib.Writes := by
  intro bytes h
  simp only [storingZlib, List.length_cons]
  omega

theorem storingZlib_inverts : storingZlib.Inverts := fun _ _ => rfl

/-- `compress_t`: the text, its length and whether it is compressed. -/
structure Compress where
  text : Option Bytes
  len : UInt64
  comp : Bool
deriving DecidableEq

/-- `init_compress_t`. -/
def initCompress : Compress := ⟨none, 0, false⟩

/-- `zlib_compress_buffer`: the destination has the length zlib asks for, so the call does not run out of room. -/
def zlibCompressBuffer (z : Zlib) (comp : Compress) (buffer : Bytes) (size : UInt32) : Compress :=
  let destbuffer := z.compress2 (buffer.take size.toNat)
  { comp with text := some destbuffer, len := UInt64.ofNat destbuffer.length, comp := true }

/-- `compress_buffer`: an unknown type leaves the text `NULL` and the length zero. -/
def compressBuffer (z : Zlib) (buffer : Bytes) (size : UInt32) (type : Int16) : Compress :=
  if type = COMPRESS_ZLIB_TYPE then zlibCompressBuffer z initCompress buffer size else initCompress

/-- What becomes of the buffer handed to `uncompress_buffer`: it is left alone, it is freed with the structure that pointed to
it, or the structure that is returned points to it. -/
inductive Source where
  | kept
  | freed
  | shared
deriving DecidableEq

/-- `zlib_uncompress_buffer`: on an error other than a lack of room the structure is freed, and with it the compressed buffer
it points to. A length of all ones makes the size of the destination wrap to zero: nothing is allocated and the structure is
returned as it came in. -/
def zlibUncompressBuffer (z : Zlib) (buffer : Bytes) (comp : Compress) (len : UInt64) : Option Compress × Source :=
  if len + 1 = 0 then (some comp, .shared)
  else
    match z.uncompress (buffer.take comp.len.toNat) len.toNat with
    | (.otherError, _) => (none, .freed)
    | (_, out) => (some { text := some out, len := UInt64.ofNat out.length, comp := false }, .kept)

/-- `uncompress_buffer`: an unknown type leaves the text `NULL` and the length zero. -/
def uncompressBuffer (z : Zlib) (buffer : Bytes) (cmplen textlen : UInt64) (type : Int16) : Option Compress × Source :=
  if type = COMPRESS_ZLIB_TYPE then
    zlibUncompressBuffer z buffer { text := some buffer, len := cmplen, comp := true } textlen
  else (some initCompress, .kept)

/-- A text for which there is room is uncompressed: the size of the destination does not wrap. -/
theorem uncompressBuffer_whole {z : Zlib} {text bytes : Bytes} {cmplen textlen : UInt64} (hcmplen : cmplen.toNat = text.length)
    (htextlen : textlen.toNat = bytes.length) (hbytes : bytes.length < 2 ^ 63)
    (hback : z.uncompress text bytes.length = (.ok, bytes)) :
    uncompressBuffer z text cmplen textlen COMPRESS_ZLIB_TYPE =
      (some { text := some bytes, len := UInt64.ofNat bytes.length, comp := false }, .kept) := by
  have hwrap : ¬ textlen + 1 = 0 := by
    intro hzero
    have := congrArg UInt64.toNat hzero
    rw [UInt64.toNat_add, htextlen, UInt64.toNat_one, UInt64.toNat_zero] at this
    omega
  rw [uncompressBuffer, if_pos rfl, zlibUncompressBuffer, if_neg hwrap]
  simp only [hcmplen, htextlen, List.take_length, hback]

/-- `is_compress_type_allowed`. -/
def isCompressTypeAllowed (cmptype : Int16) : Bool := cmptype = COMPRESS_NONE_TYPE || cmptype = COMPRESS_ZLIB_TYPE

end Sauvegarde
