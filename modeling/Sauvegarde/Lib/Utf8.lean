import Mathlib.Data.UInt

/-!
# UTF-8

Whether bytes are a sequence of encoded characters. The checker reads one byte at a time and keeps the ranges that the next
bytes of the character it is in must lie in.
-/

namespace Utf8

/-- The ranges of the bytes that follow a first byte; no character begins with a byte that has none. Overlong forms, surrogate
halves and values past the last character are ruled out by the range of the second byte. -/
def owed (b : UInt8) : Option (List (UInt8 × UInt8)) :=
  if b ≤ 0x7F then some []
  else if 0xC2 ≤ b ∧ b ≤ 0xDF then some [(0x80, 0xBF)]
  else if b = 0xE0 then some [(0xA0, 0xBF), (0x80, 0xBF)]
  else if b = 0xED then some [(0x80, 0x9F), (0x80, 0xBF)]
  else if 0xE1 ≤ b ∧ b ≤ 0xEF then some [(0x80, 0xBF), (0x80, 0xBF)]
  else if b = 0xF0 then some [(0x90, 0xBF), (0x80, 0xBF), (0x80, 0xBF)]
  else if 0xF1 ≤ b ∧ b ≤ 0xF3 then some [(0x80, 0xBF), (0x80, 0xBF), (0x80, 0xBF)]
  else if b = 0xF4 then some [(0x80, 0x8F), (0x80, 0xBF), (0x80, 0xBF)]
  else none

/-- Whether the bytes finish the character that is owed these ranges and go on with whole characters. -/
def validFrom : List (UInt8 × UInt8) → List UInt8 → Bool
  | [], [] => true
  | _ :: _, [] => false
  | [], b :: rest =>
    match owed b with
    | none => false
    | some ranges => validFrom ranges rest
  | (low, high) :: ranges, b :: rest => low ≤ b && b ≤ high && validFrom ranges rest

/-- Whether bytes are a sequence of characters. -/
def valid (bytes : List UInt8) : Bool := validFrom [] bytes

/-- The first character of bytes, and the bytes behind it. -/
def uncons : List UInt8 → Option (List UInt8 × List UInt8)
  | [] => none
  | b :: rest => (owed b).bind fun ranges =>
    if validFrom ranges (rest.take ranges.length) then some (b :: rest.take ranges.length, rest.drop ranges.length) else none

/-- Bytes below 128 are characters of their own. -/
theorem valid_of_ascii {bytes : List UInt8} (h : ∀ b ∈ bytes, b ≤ 0x7F) : valid bytes = true := by
  induction bytes with
  | nil => rfl
  | cons b rest ih =>
    have hb : owed b = some [] := by
      rw [owed, if_pos (h b List.mem_cons_self)]
    rw [valid, validFrom, hb]
    exact ih fun c hc => h c (List.mem_cons_of_mem _ hc)

theorem uncons_ascii {b : UInt8} (h : b ≤ 0x7F) (rest : List UInt8) : uncons (b :: rest) = some ([b], rest) := by
  have hb : owed b = some [] := by
    rw [owed, if_pos h]
  rw [uncons, hb, Option.bind_some]
  exact if_pos rfl

end Utf8
