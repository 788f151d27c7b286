import Sauvegarde.Extern.Glib

/-!
# Dates and times

A `GDateTime` is the number of seconds since the beginning of 1970 that it stands for: the program makes none with a part of a
second. What depends on the local time zone is a parameter.
-/

namespace Sauvegarde

/-- The local time zone: the time of a date, from the year to the second, if there is such a date; whether a time has a date,
which is so in the years 1 to 9999; and how the date of a time is written. -/
structure LocalTime where
  gDateTimeNew : Nat → Nat → Nat → Nat → Nat → Nat → Option Int64
  hasDate : Int64 → Bool
  gDateTimeFormat : Int64 → CString

/-- `g_date_time_new_from_unix_local`. -/
def gDateTimeNewFromUnixLocal (localTime : LocalTime) (t : Int64) : Option Int64 := if localTime.hasDate t then some t else none

/-- `g_date_time_to_unix`: zero for `NULL`. -/
def gDateTimeToUnix (datetime : Option Int64) : Int64 := datetime.getD 0

/-- `g_date_time_compare`: `NULL` is as late as every time. -/
def gDateTimeCompare (dt1 dt2 : Option Int64) : Int :=
  match dt1, dt2 with
  | some t1, some t2 => if t1 < t2 then -1 else if t2 < t1 then 1 else 0
  | _, _ => 0

end Sauvegarde
