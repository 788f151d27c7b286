import Sauvegarde.Extern.Glib
import Sauvegarde.Lib.Decimal

/-!
# Strings

The functions of libcdpfgl.c and packing.c that take numbers and texts out of strings.
-/

namespace Sauvegarde

/-- `g_strndup`: at most `n` characters, and none from a zero on. -/
def gStrndup (s : Bytes) (n : Nat) : Bytes := (s.take n).takeWhile (· != 0)

/-- `get_substring_from_string`: what stands between a blank and a quote in front and a quote at the end, decoded when that is
asked for. -/
def getSubstringFromString (string : Option Bytes) (decodeit : Bool) : Option CString :=
  string.map fun s =>
    let base64 := CString.ofBytes (gStrndup (s.drop 2) (s.length - 3))
    if decodeit then CString.ofBytes (Base64.decode base64.bytes) else base64

/-- `get_uint_from_string`: zero when there is no number. -/
def getUintFromString (string : Option Bytes) : UInt32 :=
  ((string.bind Decimal.scan).map fun z => (Int32.ofInt z).toUInt32).getD 0

/-- `get_guint64_from_string`: zero when there is no number. -/
def getGuint64FromString (string : Option Bytes) : UInt64 := ((string.bind Decimal.scan).map UInt64.ofInt).getD 0

/-- `encode_to_base64`. -/
def encodeToBase64 (string : Option CString) : Option CString :=
  string.bind fun s => gBase64Encode (some s.bytes) s.bytes.length

theorem encodeToBase64_some (s : CString) : encodeToBase64 (some s) = some (base64Text s.bytes) := by
  rw [encodeToBase64, Option.bind_some, gBase64Encode_of_length (le_refl _)]

/-- Different texts are encoded differently. -/
theorem encodeToBase64_injective : Function.Injective encodeToBase64 := by
  intro a b h
  have hdecode : ∀ s : Option CString, gBase64Decode (encodeToBase64 s) = s.map CString.bytes := by
    intro s
    cases s with
    | none => rfl
    | some s => rw [encodeToBase64_some, gBase64Decode_base64Text, Option.map_some]
  have hbytes := congrArg gBase64Decode h
  rw [hdecode, hdecode] at hbytes
  exact Option.map_injective (fun _ _ => CString.ext) hbytes

/-- A text without a zero is copied as far as is asked for. -/
theorem gStrndup_eq {s : Bytes} {n : Nat} (h : ∀ c ∈ s.take n, c ≠ 0) : gStrndup s n = s.take n :=
  List.takeWhile_eq_self_iff.mpr fun c hc => by simpa using h c hc

/-- A quoted text after a blank is taken out. -/
theorem getSubstringFromString_quoted {text : Bytes} (h : ∀ c ∈ text, c ≠ 0) (decodeit : Bool) :
    getSubstringFromString (some (32 :: 34 :: (text ++ [34]))) decodeit =
      some (CString.ofBytes (if decodeit then Base64.decode text else text)) := by
  have hlen : (32 :: 34 :: (text ++ [34])).length - 3 = text.length := by simp
  have htake : ((32 :: 34 :: (text ++ [34])).drop 2).take text.length = text := by simp
  have hcopy : gStrndup ((32 :: 34 :: (text ++ [34])).drop 2) text.length = text := by
    rw [gStrndup_eq (by rw [htake]; exact h), htake]
  simp only [getSubstringFromString, Option.map_some, hlen, hcopy, CString.bytes_ofBytes h]
  cases decodeit <;> rfl

/-- A number of 32 bits that was printed as an `int` is read back, after a blank or none. -/
theorem getUintFromString_printInt (n : UInt32) {blanks : Bytes} (hb : ∀ c ∈ blanks, Decimal.isBlank c = true) :
    getUintFromString (some (blanks ++ Decimal.printInt n.toInt32.toInt)) = n := by
  have hscan := Decimal.scan_printInt n.toInt32.toInt hb Decimal.stops_nil
  rw [List.append_nil] at hscan
  simp [getUintFromString, hscan]

/-- A number of 64 bits is read back, after a blank or none. -/
theorem getGuint64FromString_print (n : UInt64) {blanks : Bytes} (hb : ∀ c ∈ blanks, Decimal.isBlank c = true) :
    getGuint64FromString (some (blanks ++ Decimal.printInt n.toNat)) = n := by
  have hscan := Decimal.scan_printInt n.toNat hb Decimal.stops_nil
  rw [List.append_nil] at hscan
  have hmod : ((n.toNat : Int) % 2 ^ 64).toNat = n.toNat := by
    have := n.toNat_lt
    omega
  simp only [getGuint64FromString, Option.bind_some, hscan, Option.map_some, Option.getD_some, UInt64.ofInt, hmod,
    UInt64.ofNat_toNat]

end Sauvegarde
