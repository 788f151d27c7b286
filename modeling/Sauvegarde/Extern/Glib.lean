import Mathlib.Data.List.TakeWhile
import Sauvegarde.Lib.Base64

/-!
# GLib

The values the program passes around (bytes, zero terminated strings) and the base64 functions of GLib. A `gchar *` is an
`Option CString`, a pointer to binary data an `Option Bytes`: `none` is `NULL`.
-/

namespace Sauvegarde

/-- Binary data. -/
abbrev Bytes := List UInt8

/-- The text of a string: the bytes before its terminating zero, none of them zero. -/
@[ext] structure CString where
  bytes : Bytes
  nulFree : ∀ b ∈ bytes, b ≠ 0
deriving DecidableEq

/-- The bytes of a text of the source. -/
def str (s : String) : Bytes := s.toList.map fun c => UInt8.ofNat c.toNat

/-- The string that begins at a buffer: it ends before the first zero byte. -/
def CString.ofBytes (bytes : Bytes) : CString where
  bytes := bytes.takeWhile (· != 0)
  nulFree := fun b hb => by simpa using (List.mem_takeWhile_imp hb)

/-- A text of the source as a string. -/
def CString.lit (s : String) : CString := CString.ofBytes (str s)

/-- A buffer without a zero byte is the whole string. -/
theorem CString.bytes_ofBytes {bytes : Bytes} (h : ∀ b ∈ bytes, b ≠ 0) : (CString.ofBytes bytes).bytes = bytes := by
  simp only [CString.ofBytes]
  exact List.takeWhile_eq_self_iff.mpr fun b hb => by simpa using h b hb

/-- The bytes of a string are a buffer that holds that string. -/
@[simp] theorem CString.ofBytes_bytes (s : CString) : CString.ofBytes s.bytes = s :=
  CString.ext (CString.bytes_ofBytes s.nulFree)

/-- What `%s` writes. -/
def printString (s : Option CString) : Bytes :=
  match s with
  | none => str "(null)"
  | some s => s.bytes

/-! ## Base64 -/

/-- No character of an encoded text is zero, a quote, a comma or a line end, and all are ASCII. -/
theorem base64_char {c : UInt8} (h : Base64.InAlphabet c) : c ≠ 0 ∧ c ≠ 34 ∧ c ≠ 44 ∧ c ≠ 10 ∧ c ≠ 32 ∧ c ≤ 0x7F :=
  h.forall (P := fun c => c ≠ 0 ∧ c ≠ 34 ∧ c ≠ 44 ∧ c ≠ 10 ∧ c ≠ 32 ∧ c ≤ 0x7F) (by decide) (by decide)

/-- The encoded text of bytes. -/
def base64Text (bytes : Bytes) : CString where
  bytes := Base64.encode bytes
  nulFree := fun _ hb => (base64_char (Base64.inAlphabet_of_mem_encode hb)).1

/-- `g_base64_encode`: `NULL` is only accepted with a length of zero. -/
def gBase64Encode (data : Option Bytes) (len : Nat) : Option CString :=
  match data with
  | none => if len = 0 then some (base64Text []) else none
  | some bytes => some (base64Text (bytes.take len))

/-- `g_base64_decode`: `NULL` is not decoded. -/
def gBase64Decode (text : Option CString) : Option Bytes := text.map fun t => Base64.decode t.bytes

/-- What was encoded is decoded. -/
@[simp] theorem gBase64Decode_base64Text (bytes : Bytes) : gBase64Decode (some (base64Text bytes)) = some bytes := by
  simp only [gBase64Decode, base64Text, Option.map_some, Base64.decode_encode]

/-- The whole of some bytes is encoded when the length is theirs. -/
theorem gBase64Encode_of_length {bytes : Bytes} {len : Nat} (h : bytes.length ≤ len) :
    gBase64Encode (some bytes) len = some (base64Text bytes) := by
  rw [gBase64Encode, List.take_of_length_le h]

end Sauvegarde
