import Sauvegarde.Libcdpfgl.Dates

/-!
# Dates as they are written

A date in the format of the options, and what files.c reads of a text that may end before the date does. What is read behind the
terminating zero has no result, and no more has the comparison of a date that there is not.
-/

namespace Sauvegarde

/-! ## Reading within a string -/

/-- A character of a string, which may be the terminating zero. There is none behind it. -/
def charAt (s : CString) (i : Nat) : Option UInt8 := (s.bytes ++ [0])[i]?

/-- The loop of `get_digit_value` with so many digits left to take: a character is read before their number is looked at. -/
def digitsAt (date : CString) (i : Nat) : Nat → Option Bytes
  | 0 => (charAt date i).map fun _ => []
  | left + 1 =>
    (charAt date i).bind fun c => if Decimal.isDigit c then (digitsAt date (i + 1) left).map (c :: ·) else some []

/-- `get_digit_value`, with its reads. -/
def readDigitValue (date : CString) (i size : Nat) : Option Nat :=
  (digitsAt date i size).map fun value => (Decimal.readDigits value).getD 0

theorem charAt_of_le {s : CString} {i : Nat} (h : i ≤ s.bytes.length) : ∃ c, charAt s i = some c :=
  ⟨_, List.getElem?_eq_getElem (by rw [List.length_append, List.length_singleton]; omega)⟩

theorem charAt_of_lt {s : CString} {i : Nat} (h : s.bytes.length < i) : charAt s i = none :=
  List.getElem?_eq_none (by rw [List.length_append, List.length_singleton]; omega)

/-- The characters from a place on: that of the string if one stands there, the terminating zero at its end. -/
theorem charAt_eq {s : CString} {i : Nat} {c : UInt8} (h : charAt s i = some c) :
    (c = 0 ∧ s.bytes.drop i = []) ∨ s.bytes.drop i = c :: s.bytes.drop (i + 1) := by
  by_cases hi : i < s.bytes.length
  · rw [charAt, List.getElem?_append_left hi, List.getElem?_eq_getElem hi, Option.some.injEq] at h
    exact Or.inr (h ▸ List.drop_eq_getElem_cons hi)
  · have hlen : i < (s.bytes ++ [0]).length := List.getElem?_eq_some_iff.mp h |>.1
    rw [List.length_append, List.length_singleton] at hlen
    have hend : i = s.bytes.length := by omega
    rw [hend, charAt, List.getElem?_append_right (le_refl _), Nat.sub_self] at h
    exact Or.inl ⟨(Option.some.inj h).symm, by rw [hend, List.drop_length]⟩

/-- From a place within the string the loop takes the digits that stand there: the zero at the end is none, so no character behind
it is read. -/
theorem digitsAt_of_le {date : CString} {i : Nat} (h : i ≤ date.bytes.length) (size : Nat) :
    digitsAt date i size = some (((date.bytes.drop i).take size).takeWhile Decimal.isDigit) := by
  induction size generalizing i with
  | zero =>
    obtain ⟨c, hc⟩ := charAt_of_le h
    rw [digitsAt, hc]
    rfl
  | succ left ih =>
    obtain ⟨c, hc⟩ := charAt_of_le h
    rw [digitsAt, hc, Option.bind_some]
    rcases charAt_eq hc with ⟨rfl, hdrop⟩ | hdrop
    · rw [hdrop]
      rfl
    · rw [hdrop, List.take_succ_cons, List.takeWhile_cons]
      by_cases hdigit : Decimal.isDigit c = true
      · have hnext : i + 1 ≤ date.bytes.length := by
          have hlen := congrArg List.length hdrop
          rw [List.length_drop, List.length_cons] at hlen
          omega
        rw [if_pos hdigit, if_pos hdigit, ih hnext, Option.map_some]
      · rw [if_neg hdigit, if_neg hdigit]

/-- What `get_digit_value` gives when it begins within the string. -/
theorem readDigitValue_of_le {date : CString} {i : Nat} (h : i ≤ date.bytes.length) (size : Nat) :
    readDigitValue date i size = some (getDigitValue date i size) := by
  rw [readDigitValue, digitsAt_of_le h, Option.map_some, Decimal.readDigits_takeWhile, getDigitValue]

/-- `get_digit_value` reads where it begins. -/
theorem readDigitValue_of_lt {date : CString} {i : Nat} (h : date.bytes.length < i) (size : Nat) :
    readDigitValue date i size = none := by
  cases size <;> rw [readDigitValue, digitsAt, charAt_of_lt h] <;> rfl

/-! ## The fields of a date -/

/-- What `g_date_time_new` is called with, beside the time zone. -/
structure DateFields where
  year : Nat
  month : Nat
  day : Nat
  hour : Nat
  minute : Nat
  second : Nat
deriving DecidableEq

/-- The days of a month. -/
def daysInMonth (year month : Nat) : Nat :=
  if month = 2 then if year % 4 = 0 ∧ (year % 100 ≠ 0 ∨ year % 400 = 0) then 29 else 28
  else if month = 4 ∨ month = 6 ∨ month = 9 ∨ month = 11 then 30
  else 31

/-- There is such a month, and such a day in it. -/
def DateFields.IsDay (fields : DateFields) : Prop :=
  (1 ≤ fields.month ∧ fields.month ≤ 12) ∧ 1 ≤ fields.day ∧ fields.day ≤ daysInMonth fields.year fields.month

instance : DecidablePred DateFields.IsDay := fun _ => inferInstanceAs (Decidable (_ ∧ _))

/-- There is such a date. -/
structure DateFields.Valid (fields : DateFields) : Prop where
  year : 1 ≤ fields.year ∧ fields.year ≤ 9999
  day : fields.IsDay
  time : fields.hour < 24 ∧ fields.minute < 60 ∧ fields.second < 60

/-- `g_date_time_new`. -/
def LocalTime.date (localTime : LocalTime) (fields : DateFields) : Option Int64 :=
  localTime.gDateTimeNew fields.year fields.month fields.day fields.hour fields.minute fields.second

/-- The fields of a text, whatever is missing being zero. -/
def dateFields (date : CString) : DateFields where
  year := getDigitValue date 0 4
  month := getDigitValue date 5 2
  day := getDigitValue date 8 2
  hour := getDigitValue date 11 2
  minute := getDigitValue date 14 2
  second := getDigitValue date 17 2

/-- The fields of `convert_gchar_date_to_gdatetime`, with its reads. -/
def readDateFields (date : CString) : Option DateFields := do
  let year ← readDigitValue date 0 4
  let month ← readDigitValue date 5 2
  let day ← readDigitValue date 8 2
  let hour ← readDigitValue date 11 2
  let minute ← readDigitValue date 14 2
  let second ← readDigitValue date 17 2
  return ⟨year, month, day, hour, minute, second⟩

theorem convertGcharDateToGdatetime_some (localTime : LocalTime) (date : CString) :
    convertGcharDateToGdatetime localTime (some date) = localTime.date (dateFields date) := rfl

/-- The seconds are looked for at the same place whatever the text is. -/
theorem readDateFields_eq (date : CString) :
    readDateFields date = if 17 ≤ date.bytes.length then some (dateFields date) else none := by
  split_ifs with h
  · simp only [readDateFields, dateFields, readDigitValue_of_le (show 0 ≤ date.bytes.length by omega),
      readDigitValue_of_le (show 5 ≤ date.bytes.length by omega), readDigitValue_of_le (show 8 ≤ date.bytes.length by omega),
      readDigitValue_of_le (show 11 ≤ date.bytes.length by omega), readDigitValue_of_le (show 14 ≤ date.bytes.length by omega),
      readDigitValue_of_le h, Option.bind_eq_bind, Option.bind_some, Option.pure_def]
  · simp only [readDateFields, readDigitValue_of_lt (Nat.lt_of_not_le h), Option.bind_eq_bind, Option.bind_none,
      Option.bind_fun_none]

/-! ## Comparing -/

/-- `g_date_time_compare` looks into both dates. -/
def compareDates (dt1 dt2 : Option Int64) : Option Int := if dt1.isSome ∧ dt2.isSome then some (gDateTimeCompare dt1 dt2) else none

/-- `compare_after_before_date` of a date, with its reads. -/
def readCompareAfterBeforeDate (localTime : LocalTime) (mtime : UInt64) (date : CString) (after : Bool) : Option Bool :=
  (readDateFields date).bind fun fields =>
    (compareDates (gDateTimeNewFromUnixLocal localTime mtime.toInt64) (localTime.date fields)).map fun cmpDate =>
      if 0 ≤ cmpDate then after else !after

/-! ## Texts of dates -/

/-- A date as `YYYY-MM-DD HH:MM:SS`. -/
def DateFields.text (fields : DateFields) : Bytes :=
  Decimal.printWidth 4 fields.year ++ 45 :: (Decimal.printWidth 2 fields.month ++ 45 :: (Decimal.printWidth 2 fields.day ++
    32 :: (Decimal.printWidth 2 fields.hour ++ 58 :: (Decimal.printWidth 2 fields.minute ++
      58 :: Decimal.printWidth 2 fields.second))))

/-- Where a field of the text ends, before the character that separates it from the next one or behind it. -/
def fieldBoundaries : List Nat := [4, 5, 7, 8, 10, 11, 13, 14, 16, 17, 19]

/-- The beginning of a date. -/
def DateFields.prefixText (fields : DateFields) (n : Nat) : CString := CString.ofBytes (fields.text.take n)

theorem length_text (fields : DateFields) : fields.text.length = 19 := by
  simp [DateFields.text]

/-- A text is digits and separators. -/
theorem text_char {fields : DateFields} {c : UInt8} (h : c ∈ fields.text) : c ≠ 0 := by
  have hdigit : ∀ {k n : Nat}, c ∈ Decimal.printWidth k n → c ≠ 0 := by
    rintro k n hc rfl
    exact absurd (Decimal.isDigit_of_mem_printWidth hc) (by decide)
  simp only [DateFields.text, List.mem_append, List.mem_cons] at h
  rcases h with h | rfl | h | rfl | h | rfl | h | rfl | h | rfl | h
  all_goals first | exact hdigit h | decide

theorem bytes_prefixText (fields : DateFields) (n : Nat) : (fields.prefixText n).bytes = fields.text.take n :=
  CString.bytes_ofBytes fun _ hc => text_char (List.mem_of_mem_take hc)

/-- A field that stands where it is looked for is read. -/
theorem getDigitValue_of_drop {date : CString} {i size n : Nat} {rest : Bytes}
    (hdrop : date.bytes.drop i = Decimal.printWidth size n ++ rest) (hsize : 0 < size) (hfits : n < 10 ^ size) :
    getDigitValue date i size = n := by
  have htake : (Decimal.printWidth size n ++ rest).take size = Decimal.printWidth size n := by
    rw [List.take_append_of_le_length (by rw [Decimal.length_printWidth]), List.take_of_length_le (by rw [Decimal.length_printWidth])]
  rw [getDigitValue, hdrop, htake, Decimal.readDigits_printWidth hsize hfits, Option.getD_some]

end Sauvegarde
