import LogLayout.Calendar

/-!
# Time formats

The text of a timestamp by a format in which a percent sign and a letter stand for a part of the
date or the time. Names of days and months are English. Years have as many digits as they need, all
other parts a fixed number. A letter that stands for nothing is copied with its percent sign, and a
format ends at a null character.

What a C library may accept between the percent sign and the letter is left out: the flags `_`, `-`,
`0`, `^` and `#`, a width, and the modifiers `E` and `O`. `%-d`, `%5Y` and `%Ey` are copied as if
`-`, `5` and `E` were letters that stand for nothing.
-/

namespace LogLayout.Timestamp

def dayNames : List String :=
  ["Sunday", "Monday", "Tuesday", "Wednesday", "Thursday", "Friday", "Saturday"]

def monthNames : List String :=
  ["January", "February", "March", "April", "May", "June", "July", "August", "September",
    "October", "November", "December"]

def dayName (t : Timestamp) : List Char := (dayNames.getD t.weekday "").toList

def monthName (t : Timestamp) : List Char := (monthNames.getD (t.month - 1) "").toList

/-- A number of two digits, the first a blank if it would be zero. -/
def blankPadded (n : Nat) : List Char :=
  if n < 10 then ' ' :: Numeral.digits n else Numeral.digits n

/-- Parts with a separator between them. -/
def joined (separator : Char) (parts : List (List Char)) : List Char :=
  [separator].intercalate parts

/-- Hours, minutes and seconds. -/
def clock (t : Timestamp) : List Char :=
  joined ':' [Numeral.padded 2 t.hour, Numeral.padded 2 t.minute, Numeral.padded 2 t.second]

/-- Month, day and the last two digits of the year. -/
def shortDate (t : Timestamp) : List Char :=
  joined '/' [Numeral.padded 2 t.month, Numeral.padded 2 t.day, Numeral.padded 2 (t.year % 100)]

def halfDay (t : Timestamp) : List Char := (if t.hour < 12 then "AM" else "PM").toList

/-- The part of a timestamp that a letter of a format stands for. Flags, digits of a width and the
modifiers `E` and `O` are no letters here. -/
def part? (t : Timestamp) : Char → Option (List Char)
  | 'a' => some (t.dayName.take 3)
  | 'A' => some t.dayName
  | 'b' | 'h' => some (t.monthName.take 3)
  | 'B' => some t.monthName
  | 'c' => some (joined ' ' [t.dayName.take 3, t.monthName.take 3, blankPadded t.day, t.clock,
      Numeral.digits t.year])
  | 'C' => some (Numeral.digits (t.year / 100))
  | 'd' => some (Numeral.padded 2 t.day)
  | 'D' | 'x' => some t.shortDate
  | 'e' => some (blankPadded t.day)
  | 'f' => some (Numeral.padded 6 t.microsecond)
  | 'F' => some (joined '-' [Numeral.digits t.year, Numeral.padded 2 t.month,
      Numeral.padded 2 t.day])
  | 'g' => some (Numeral.padded 2 (t.isoWeek.1 % 100))
  | 'G' => some (Numeral.digits t.isoWeek.1)
  | 'H' => some (Numeral.padded 2 t.hour)
  | 'I' => some (Numeral.padded 2 t.clockHour)
  | 'j' => some (Numeral.padded 3 (t.dayOfYear + 1))
  | 'k' => some (blankPadded t.hour)
  | 'l' => some (blankPadded t.clockHour)
  | 'm' => some (Numeral.padded 2 t.month)
  | 'M' => some (Numeral.padded 2 t.minute)
  | 'n' => some ['\n']
  | 'p' => some t.halfDay
  | 'P' => some (t.halfDay.map Char.toLower)
  | 'r' => some (joined ':' [Numeral.padded 2 t.clockHour, Numeral.padded 2 t.minute,
      Numeral.padded 2 t.second] ++ ' ' :: t.halfDay)
  | 'R' => some (joined ':' [Numeral.padded 2 t.hour, Numeral.padded 2 t.minute])
  | 's' => some (Numeral.signed t.epochSeconds)
  | 'S' => some (Numeral.padded 2 t.second)
  | 't' => some ['\t']
  | 'T' | 'X' => some t.clock
  | 'u' => some (Numeral.digits t.isoWeekday)
  | 'U' => some (Numeral.padded 2 t.weekFromSunday)
  | 'V' => some (Numeral.padded 2 t.isoWeek.2)
  | 'w' => some (Numeral.digits t.weekday)
  | 'W' => some (Numeral.padded 2 t.weekFromMonday)
  | 'y' => some (Numeral.padded 2 (t.year % 100))
  | 'Y' => some (Numeral.digits t.year)
  | 'z' => some (if t.utc then "+0000".toList else [])
  | 'Z' => some (if t.utc then "UTC".toList else [])
  | '%' => some ['%']
  | _ => none

/-- The text of a timestamp by a format. The character behind a percent sign is taken for the
letter, also where a C library would read a flag, a width or a modifier. -/
def formatChars (t : Timestamp) : List Char → List Char
  | [] => []
  | ['%'] => ['%']
  | '%' :: c :: rest =>
    if c = '\x00' then ['%']
    else (t.part? c).getD ['%', c] ++ t.formatChars rest
  | c :: rest => if c = '\x00' then [] else c :: t.formatChars rest

/-- The text of a timestamp by a format. -/
def format (t : Timestamp) (format : String) : String := String.ofList (t.formatChars format.toList)

end LogLayout.Timestamp
