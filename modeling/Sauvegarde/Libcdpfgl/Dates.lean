import Sauvegarde.Extern.DateTime
import Sauvegarde.Lib.Decimal

/-!
# Dates in texts

The dates of a query, as files.c reads them from their text and compares times with them.
-/

namespace Sauvegarde

/-- `get_digit_value`. Behind the end of a text there is no digit. -/
def getDigitValue (date : CString) (i size : Nat) : Nat := (Decimal.readDigits ((date.bytes.drop i).take size)).getD 0

/-- `convert_gchar_date_to_gdatetime`. -/
def convertGcharDateToGdatetime (localTime : LocalTime) (date : Option CString) : Option Int64 :=
  date.bind fun date =>
    let year := getDigitValue date 0 4
    let month := getDigitValue date 5 2
    let day := getDigitValue date 8 2
    let hour := getDigitValue date 11 2
    let minute := getDigitValue date 14 2
    let second := getDigitValue date 17 2
    localTime.gDateTimeNew year month day hour minute second

/-- `compare_mtime_to_gchar_date`. -/
def compareMtimeToGcharDate (localTime : LocalTime) (mtime : UInt64) (date : Option CString) : Int :=
  match date with
  | none => 1
  | some date =>
    gDateTimeCompare (gDateTimeNewFromUnixLocal localTime mtime.toInt64) (convertGcharDateToGdatetime localTime (some date))

/-- The text that `compare_mtime_to_date` compares with: the date of a time, `NULL` when it has none. -/
def formatMtime (localTime : LocalTime) (mtime : UInt64) : Option CString :=
  (gDateTimeNewFromUnixLocal localTime mtime.toInt64).map localTime.gDateTimeFormat

end Sauvegarde
