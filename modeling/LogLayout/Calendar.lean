import LogLayout.Binary64
import LogLayout.Numeral
import LogLayout.FaultClass
import LogLayout.Word

/-!
# Calendar

Dates of the Gregorian calendar, extended back to the year 1, and times of day to the microsecond.
Days are counted from the first of January of the year 1, which is day 1 and a Monday. A timestamp
either says that it is in UTC or leaves its time zone open. These are the two kinds of time that the
clock and host records give; times with another offset are left out.
-/

namespace LogLayout

namespace Calendar

def isLeap (year : Nat) : Bool := year % 4 == 0 && (year % 100 != 0 || year % 400 == 0)

def daysInMonth (year month : Nat) : Nat :=
  if month = 2 then (if isLeap year then 29 else 28)
  else if [4, 6, 9, 11].contains month then 30
  else 31

/-- The days of the years before a year. -/
def daysBeforeYear (year : Nat) : Nat :=
  let y := year - 1
  365 * y + y / 4 - y / 100 + y / 400

/-- The days of the year before a month. -/
def daysBeforeMonth (year month : Nat) : Nat :=
  (List.range (month - 1)).foldl (fun days m => days + daysInMonth year (m + 1)) 0

/-- The number of a day. -/
def ordinal (year month day : Nat) : Nat := daysBeforeYear year + daysBeforeMonth year month + day

/-- The year, month and day of the day that lies `n` days after the first of March of the year 0.
Counted from March on, a leap day is the last of its year. -/
def civil (n : Int) : Int × Nat × Nat :=
  let era := n / 146097
  let dayOfEra := (n - era * 146097).toNat
  let yearOfEra := (dayOfEra - dayOfEra / 1460 + dayOfEra / 36524 - dayOfEra / 146096) / 365
  let dayOfYear := dayOfEra - (365 * yearOfEra + yearOfEra / 4 - yearOfEra / 100)
  let shifted := (5 * dayOfYear + 2) / 153
  let day := dayOfYear - (153 * shifted + 2) / 5 + 1
  let month := if shifted < 10 then shifted + 3 else shifted - 9
  let year : Int := yearOfEra + era * 400 + (if month ≤ 2 then 1 else 0)
  (year, month, day)

/-- The days from the first of March of the year 0 to the first of January 1970. -/
def epochDay : Int := 719468

def firstYear : Int := 1

def lastYear : Int := 9999

end Calendar

/-- Why parts of a timestamp are refused. -/
inductive TimeFault where
  | year (n : Int)
  | month
  | day
  | hour
  | minute
  | second
  | microsecond
  /-- A part is greater than a word of 32 bits can be. -/
  | aboveWord
  /-- A part is less than a word of 32 bits can be. -/
  | belowWord
  /-- A part does not even fit into a word of 64 bits. -/
  | beyondWord
  /-- A count of seconds is not a number. -/
  | notANumber
  /-- A count of seconds does not fit into a word of 64 bits. -/
  | beyondRange
  /-- The year of a count of seconds does not fit into a word of 32 bits. -/
  | beyondCalendar
  deriving DecidableEq, Repr

def TimeFault.message : TimeFault → String
  | year n => "year " ++ String.ofList (Numeral.signed n) ++ " is out of range"
  | month => "month must be in 1..12"
  | day => "day is out of range for month"
  | hour => "hour must be in 0..23"
  | minute => "minute must be in 0..59"
  | second => "second must be in 0..59"
  | microsecond => "microsecond must be in 0..999999"
  | aboveWord => "signed integer is greater than maximum"
  | belowWord => "signed integer is less than minimum"
  | beyondWord => "Python int too large to convert to C long"
  | notANumber => "Invalid value NaN (not a number)"
  | beyondRange => "timestamp out of range for platform time_t"
  | beyondCalendar => "[Errno 75] Value too large for defined data type"

def TimeFault.faultClass : TimeFault → FaultClass
  | aboveWord | belowWord | beyondWord | beyondRange => .overflow
  | beyondCalendar => .device
  | _ => .value

/-- A point in time, in UTC or with its zone left open. A zone with any other offset or name, which
an event made by hand could have, is not represented. -/
structure Timestamp where
  year : Nat
  month : Nat
  day : Nat
  hour : Nat := 0
  minute : Nat := 0
  second : Nat := 0
  microsecond : Nat := 0
  /-- Whether the time is in UTC; otherwise its zone is open. -/
  utc : Bool := false
  deriving DecidableEq, Repr

namespace Timestamp

open Calendar

/-- A part that has to lie between two bounds. -/
def bounded (n low high : Int) (fault : TimeFault) : Except TimeFault Nat :=
  if low ≤ n && n ≤ high then .ok n.toNat else .error fault

/-- A part has to fit into a word of 32 bits. -/
def fits (n : Int) : Except TimeFault Unit :=
  if Word.holds 32 n then .ok ()
  else if Word.holds 64 n then .error (if n < 0 then .belowWord else .aboveWord)
  else .error .beyondWord

/-- The timestamp of the given parts: first all of them have to fit, and then each is checked from
the year down. -/
def ofParts (year month day hour minute second microsecond : Int) (utc : Bool) :
    Except TimeFault Timestamp := do
  [year, month, day, hour, minute, second, microsecond].forM fits
  let year' ← bounded year firstYear lastYear (.year year)
  let month' ← bounded month 1 12 .month
  let day' ← bounded day 1 (daysInMonth year' month') .day
  let hour' ← bounded hour 0 23 .hour
  let minute' ← bounded minute 0 59 .minute
  let second' ← bounded second 0 59 .second
  let microsecond' ← bounded microsecond 0 999999 .microsecond
  return ⟨year', month', day', hour', minute', second', microsecond', utc⟩

/-- The number of the day. -/
def ordinalDay (t : Timestamp) : Nat := ordinal t.year t.month t.day

/-- The days of the year before the day. -/
def dayOfYear (t : Timestamp) : Nat := daysBeforeMonth t.year t.month + t.day - 1

/-- The day of the week, Sunday being 0. -/
def weekday (t : Timestamp) : Nat := t.ordinalDay % 7

/-- The day of the week, Monday being 1 and Sunday 7. -/
def isoWeekday (t : Timestamp) : Nat := (t.ordinalDay + 6) % 7 + 1

/-- The seconds since the start of 1970. -/
def epochSeconds (t : Timestamp) : Int :=
  ((t.ordinalDay : Int) - ordinal 1970 1 1) * 86400 + t.hour * 3600 + t.minute * 60 + t.second

/-- The day on which the first ISO week of a year begins: the week with the fourth of January. -/
def isoYearStart (year : Nat) : Int :=
  let fourth := ordinal year 1 4
  (fourth : Int) - (fourth + 6) % 7

/-- The year to which the ISO week of the day belongs, and the number of that week. -/
def isoWeek (t : Timestamp) : Nat × Nat :=
  let day : Int := t.ordinalDay
  let year := if day < isoYearStart t.year then t.year - 1
    else if isoYearStart (t.year + 1) ≤ day then t.year + 1
    else t.year
  (year, ((day - isoYearStart year) / 7).toNat + 1)

/-- The week of the year when weeks begin on Sundays; days before the first one are in week 0. -/
def weekFromSunday (t : Timestamp) : Nat := (t.dayOfYear + 7 - t.weekday) / 7

/-- The week of the year when weeks begin on Mondays; days before the first one are in week 0. -/
def weekFromMonday (t : Timestamp) : Nat := (t.dayOfYear + 8 - t.isoWeekday) / 7

/-- The hour on a clock of twelve hours. -/
def clockHour (t : Timestamp) : Nat := if t.hour % 12 = 0 then 12 else t.hour % 12

/-- The text of a timestamp by ISO 8601. Microseconds are left out when there are none. -/
def isoText (t : Timestamp) : String :=
  let two (n : Nat) := Numeral.padded 2 n
  String.ofList <| Numeral.padded 4 t.year ++ '-' :: two t.month ++ '-' :: two t.day ++
    'T' :: two t.hour ++ ':' :: two t.minute ++ ':' :: two t.second ++
    (if t.microsecond = 0 then [] else '.' :: Numeral.padded 6 t.microsecond) ++
    (if t.utc then ['+', '0', '0', ':', '0', '0'] else [])

/-- The timestamp of a count of seconds since the start of 1970 and of microseconds. Years are
counted from 1900 in a word of 32 bits; the year that a refusal names is such a word, too. -/
def ofSeconds (seconds : Int) (microsecond : Nat) (utc : Bool) : Except TimeFault Timestamp :=
  let (year, month, day) := civil (seconds / 86400 + epochDay)
  let inDay := (seconds % 86400).toNat
  if !Word.holds 32 (year - 1900) then .error .beyondCalendar
  else if year < firstYear || lastYear < year then .error (.year (year.bmod (Nat.pow 2 32)))
  else .ok ⟨year.toNat, month, day, inDay / 3600, inDay / 60 % 60, inDay % 60, microsecond, utc⟩

/-- The whole seconds of a number of seconds, and its microseconds: the fraction is scaled in
binary64 and then rounded to the nearest integer. -/
def splitSeconds (negative : Bool) (m : Nat) (q : Int) : Int × Nat :=
  let scale := Nat.pow 2 (-q).toNat
  let whole := m * Nat.pow 2 q.toNat / scale
  let fraction := m * Nat.pow 2 q.toNat % scale
  let scaled := match (Binary64.ofQuotient false (fraction * 1000000) scale).meaning with
    | .finite _ m q => roundQuotient (m * Nat.pow 2 q.toNat) (Nat.pow 2 (-q).toNat)
    | _ => 0
  if negative then
    if scaled = 0 then (-whole, 0) else (-whole - 1, 1000000 - scaled)
  else if scaled = 1000000 then (whole + 1, 0)
  else (whole, scaled)

/-- The timestamp of a number of seconds since the start of 1970. Beyond `2 ^ 63` seconds the number
itself is refused, up to there the year. When the zone is left open, the day before has to be in
range too. -/
def ofEpoch (seconds : Binary64) (utc : Bool) : Except TimeFault Timestamp :=
  match seconds.meaning with
  | .notANumber => .error .notANumber
  | .infinite _ => .error .beyondRange
  | .finite negative m q =>
    let size : Nat := m * Nat.pow 2 q.toNat / Nat.pow 2 (-q).toNat
    let whole : Int := if negative then -size else size
    if whole < -(Nat.pow 2 63 : Int) || Nat.pow 2 63 < whole then .error .beyondRange
    else
      let (whole, microsecond) := splitSeconds negative m q
      match ofSeconds whole microsecond utc with
      | .error fault => .error fault
      | .ok t => if utc then .ok t else (ofSeconds (whole - 86400) 0 utc).map fun _ => t

end Timestamp

end LogLayout
