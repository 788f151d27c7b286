import Sauvegarde.Libcdpfgl.DateText
import Sauvegarde.Server.FileList

/-!
# Incomplete dates

What becomes of a date of the options that lacks its end. A text is read at fixed places, and the seconds are looked for in every
text.
-/

namespace Sauvegarde

/-- The text is read within its bounds, its month and its day are those of a date, and times are compared with that date. -/
def DateDefined (localTime : LocalTime) (date : CString) (mtime : UInt64) : Prop :=
  ∃ fields, readDateFields date = some fields ∧ fields.IsDay ∧ (localTime.date fields).isSome ∧
    ∀ after, readCompareAfterBeforeDate localTime mtime date after ≠ none

/-- What is compared is what the backends filter by. -/
theorem compareAfterBeforeDate_of_read {localTime : LocalTime} {mtime : UInt64} {date : CString} {after selected : Bool}
    (regexMatch : CString → CString → Bool) (filename : Option CString)
    (h : readCompareAfterBeforeDate localTime mtime date after = some selected) :
    compareAfterBeforeDate (gLibFilters regexMatch localTime filename) mtime (some date) after = selected := by
  obtain ⟨fields, hread, h⟩ := Option.bind_eq_some_iff.mp h
  obtain ⟨cmpDate, hcmp, rfl⟩ := Option.map_eq_some_iff.mp h
  rw [readDateFields_eq] at hread
  split_ifs at hread with hlen
  rw [compareDates] at hcmp
  split_ifs at hcmp with hsome
  rw [← Option.some.inj hread] at hcmp
  simp only [compareAfterBeforeDate, gLibFilters, compareMtimeToGcharDate, convertGcharDateToGdatetime_some,
    Option.some.inj hcmp]

namespace IncompleteDatesAux

/-! ## Which texts are read -/

theorem daysInMonth_le (year month : Nat) : daysInMonth year month ≤ 31 := by
  unfold daysInMonth
  split_ifs <;> omega

/-- The text goes on at least to where the seconds would begin. -/
theorem length_prefixText (fields : DateFields) (n : Nat) : (fields.prefixText n).bytes.length = min n 19 := by
  rw [bytes_prefixText, List.length_take, length_text]

/-- All but the seconds stand before the place where the seconds would begin. -/
theorem dateFields_prefixText {fields : DateFields} (h : fields.Valid) (k : Nat) :
    dateFields (fields.prefixText (17 + k)) =
      { fields with second := getDigitValue (fields.prefixText (17 + k)) 17 2 } := by
  have hbytes : (fields.prefixText (17 + k)).bytes = fields.text.take 17 ++ (fields.text.drop 17).take k := by
    rw [bytes_prefixText, List.take_add]
  have hday := daysInMonth_le fields.year fields.month
  obtain ⟨hyear, ⟨hmonth, hdays⟩, hhour, hminute, -⟩ := h
  rw [dateFields, getDigitValue_of_drop (n := fields.year) (by rw [hbytes]; rfl) (by omega) (by omega),
    getDigitValue_of_drop (n := fields.month) (by rw [hbytes]; rfl) (by omega) (by omega),
    getDigitValue_of_drop (n := fields.day) (by rw [hbytes]; rfl) (by omega) (by omega),
    getDigitValue_of_drop (n := fields.hour) (by rw [hbytes]; rfl) (by omega) (by omega),
    getDigitValue_of_drop (n := fields.minute) (by rw [hbytes]; rfl) (by omega) (by omega)]

/-- The seconds are those of the date when the text holds them, and zero when nothing is behind the minutes. -/
theorem second_prefixText {fields : DateFields} (h : fields.Valid) {n : Nat} (hn : n = 17 ∨ n = 19) :
    getDigitValue (fields.prefixText n) 17 2 < 60 := by
  have hbytes := bytes_prefixText fields n
  obtain ⟨-, -, -, -, hsecond⟩ := h
  rcases hn with rfl | rfl
  · rw [getDigitValue, hbytes, List.drop_of_length_le (List.length_take_le _ _)]
    decide
  · rw [@getDigitValue_of_drop _ 17 2 fields.second [] (by rw [hbytes]; rfl) (by omega) (by omega)]
    exact hsecond

/-- What is read of a text that ends behind the minutes is a date. -/
theorem dateFields_valid {fields : DateFields} (h : fields.Valid) {n : Nat} (hn : n = 17 ∨ n = 19) :
    (dateFields (fields.prefixText n)).Valid := by
  have hsecond := second_prefixText h hn
  obtain ⟨k, rfl⟩ : ∃ k, n = 17 + k := ⟨n - 17, by omega⟩
  rw [dateFields_prefixText h k]
  exact ⟨h.year, h.day, h.time.1, h.time.2.1, hsecond⟩

/-- Times that have a date are compared with dates. -/
theorem readCompareAfterBeforeDate_ne_none {localTime : LocalTime} {mtime : UInt64} {date : CString} {fields : DateFields}
    (hread : readDateFields date = some fields) (hdate : (localTime.date fields).isSome) (after : Bool) :
    readCompareAfterBeforeDate localTime mtime date after ≠ none ↔ localTime.hasDate mtime.toInt64 = true := by
  rw [readCompareAfterBeforeDate, hread, Option.bind_some, compareDates, gDateTimeNewFromUnixLocal]
  by_cases hmtime : localTime.hasDate mtime.toInt64 = true
  · simp [hmtime, hdate]
  · simp [hmtime]

end IncompleteDatesAux

open IncompleteDatesAux

/-! ## Every beginning of a date -/

/-- The beginning of a date is read within its bounds and compared exactly when it goes on behind the minutes, and the time has a
date itself. -/
theorem incompleteDate_defined_iff (localTime : LocalTime)
    (hnew : ∀ fields : DateFields, fields.Valid → (localTime.date fields).isSome) {fields : DateFields} (hvalid : fields.Valid)
    {n : Nat} (hn : n ∈ fieldBoundaries) (mtime : UInt64) :
    DateDefined localTime (fields.prefixText n) mtime ↔ 17 ≤ n ∧ localTime.hasDate mtime.toInt64 = true := by
  have hlen := length_prefixText fields n
  have hread := readDateFields_eq (fields.prefixText n)
  constructor
  · rintro ⟨found, hfound, -, hdate, hcompare⟩
    refine ⟨?_, (readCompareAfterBeforeDate_ne_none hfound hdate true).mp (hcompare true)⟩
    rw [hread] at hfound
    split_ifs at hfound with h
    omega
  · rintro ⟨hminutes, hmtime⟩
    have hends : n = 17 ∨ n = 19 := by
      simp only [fieldBoundaries, List.mem_cons, List.not_mem_nil, or_false] at hn
      omega
    rw [if_pos (by omega)] at hread
    have hfound := dateFields_valid hvalid hends
    have hdate := hnew _ hfound
    exact ⟨_, hread, hfound.day, hdate, fun after => (readCompareAfterBeforeDate_ne_none hread hdate after).mpr hmtime⟩

/-! ## Coordinated universal time -/

/-- The days from the first of January of the year 1 to a date. -/
def daysBefore (year month day : Nat) : Nat :=
  365 * (year - 1) + (year - 1) / 4 - (year - 1) / 100 + (year - 1) / 400 +
    ((List.range (month - 1)).map fun m => daysInMonth year (m + 1)).sum + (day - 1)

/-- The time zone without an offset: 719162 days lie before the year 1970. -/
def utcTime : LocalTime where
  gDateTimeNew := fun year month day hour minute second =>
    if (1 ≤ year ∧ year ≤ 9999) ∧ DateFields.IsDay ⟨year, month, day, hour, minute, second⟩ ∧
        hour < 24 ∧ minute < 60 ∧ second < 60 then
      some (Int64.ofInt ((daysBefore year month day - 719162 : Int) * 86400 + hour * 3600 + minute * 60 + second))
    else none
  hasDate := fun t => -62135596800 ≤ t && t ≤ 253402300799
  gDateTimeFormat := fun _ => CString.lit ""

theorem utcTime_date {fields : DateFields} (h : fields.Valid) : (utcTime.date fields).isSome := by
  have hdate : utcTime.date fields = some _ := if_pos ⟨h.year, h.day, h.time⟩
  rw [hdate]
  rfl

/-- The evening of a day in December 2016. -/
def christmasEvening : DateFields := ⟨2016, 12, 26, 17, 33, 0⟩

theorem christmasEvening_valid : christmasEvening.Valid := ⟨by decide, by decide, by decide⟩

/-- The beginning of a date as far as the minutes, with the colon behind them, is a date. -/
theorem christmasMinute_defined : DateDefined utcTime (christmasEvening.prefixText 17) 1482773580 :=
  (incompleteDate_defined_iff utcTime (fun _ h => utcTime_date h) christmasEvening_valid (by decide) 1482773580).mpr
    ⟨by decide, by decide +kernel⟩

/-- The month of a year alone, which is documented to be a date: the day is looked for behind the end of the text. -/
theorem month_undefined :
    christmasEvening.prefixText 7 = CString.lit "2016-12" ∧ christmasEvening.Valid ∧ 7 ∈ fieldBoundaries ∧
      readDigitValue (CString.lit "2016-12") 8 2 = none ∧ ¬DateDefined utcTime (CString.lit "2016-12") 1482773580 := by
  have hread : readDateFields (CString.lit "2016-12") = none := by decide +kernel
  refine ⟨by decide +kernel, christmasEvening_valid, by decide, by decide +kernel, ?_⟩
  rintro ⟨fields, hfields, -⟩
  rw [hread] at hfields
  exact absurd hfields (by simp)

end Sauvegarde
