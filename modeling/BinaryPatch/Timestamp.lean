/-
# Points in time

A point in time is a second since 1970-01-01T00:00:00Z and a fraction of it in nanoseconds. A
leap second is the second before it with a fraction of one or more seconds.

It is written as an RFC 3339 date and time in UTC, with as many fraction digits as it needs
of none, three, six and nine. Reading follows the same form, more liberally: white space may
stand before numbers and separators, numbers may be shorter, the year may carry a sign, and
the offset from UTC is applied.
-/

import BinaryPatch.Text.Blank
import BinaryPatch.Text.Layout

namespace BinaryPatch

/-- A point in time. -/
structure Timestamp where
  seconds : Int
  nanos : Nat := 0
  deriving DecidableEq

namespace Timestamp

/-! ## The calendar -/

/-- Whether a year has a 29th of February. -/
def isLeap (year : Int) : Bool :=
  year.emod 4 == 0 && (year.emod 100 != 0 || year.emod 400 == 0)

/-- The number of days of a month. -/
def daysInMonth (year : Int) (month : Nat) : Nat :=
  match month with
  | 2 => if isLeap year then 29 else 28
  | 4 | 6 | 9 | 11 => 30
  | _ => 31

/-- The days from 1970-01-01 to a date. Years are counted from March, so that the day that
leap years have is their last. -/
def daysFromDate (year : Int) (month day : Nat) : Int :=
  let shifted := if month ≤ 2 then year - 1 else year
  let era := shifted.fdiv 400
  let yearOfEra := (shifted - era * 400).toNat
  let monthFromMarch := (month + 9) % 12
  let dayOfYear := (153 * monthFromMarch + 2) / 5 + day - 1
  let dayOfEra := yearOfEra * 365 + yearOfEra / 4 - yearOfEra / 100 + dayOfYear
  era * 146097 + dayOfEra - 719468

/-- A date of the calendar. -/
structure Date where
  year : Int
  month : Nat
  day : Nat
  deriving DecidableEq

/-- The date so many days after 1970-01-01. -/
def dateOfDays (days : Int) : Date :=
  let shifted := days + 719468
  let era := shifted.fdiv 146097
  let dayOfEra := (shifted - era * 146097).toNat
  let yearOfEra := (dayOfEra - dayOfEra / 1460 + dayOfEra / 36524 - dayOfEra / 146096) / 365
  let dayOfYear := dayOfEra - (365 * yearOfEra + yearOfEra / 4 - yearOfEra / 100)
  let monthFromMarch := (5 * dayOfYear + 2) / 153
  let day := dayOfYear - (153 * monthFromMarch + 2) / 5 + 1
  let month := if monthFromMarch < 10 then monthFromMarch + 3 else monthFromMarch - 9
  let year := era * 400 + yearOfEra + (if month ≤ 2 then 1 else 0)
  ⟨year, month, day⟩

/-- The years that have a date. -/
def knownYear (year : Int) : Bool := -262143 ≤ year && year ≤ 262142

/-! ## Writing -/

/-- A number with at least `width` digits. -/
def digits (width n : Nat) : String := Text.padLeft width '0' (toString n)

/-- A year: four digits, and a sign where more are needed. -/
def yearText (year : Int) : String :=
  if 0 ≤ year ∧ year ≤ 9999 then digits 4 year.toNat
  else (if year < 0 then "-" else "+") ++ digits 4 year.natAbs

/-- The date of a point in time. -/
def date (t : Timestamp) : Date := dateOfDays (t.seconds.fdiv 86400)

/-- The second of the day. -/
def secondOfDay (t : Timestamp) : Nat := (t.seconds.fmod 86400).toNat

/-- The text of the date. -/
def dateText (t : Timestamp) : String :=
  yearText t.date.year ++ "-" ++ digits 2 t.date.month ++ "-" ++ digits 2 t.date.day

/-- The text of the time of day; a leap second is second 60. -/
def timeText (t : Timestamp) : String :=
  let s := t.secondOfDay
  digits 2 (s / 3600) ++ ":" ++ digits 2 (s / 60 % 60) ++ ":" ++
    digits 2 (s % 60 + t.nanos / 1000000000)

/-- The text of the fraction. -/
def fractionText (t : Timestamp) : String :=
  let n := t.nanos % 1000000000
  if n = 0 then ""
  else if n % 1000000 = 0 then "." ++ digits 3 (n / 1000000)
  else if n % 1000 = 0 then "." ++ digits 6 (n / 1000)
  else "." ++ digits 9 n

/-- Write a point in time as RFC 3339 has it. -/
def format (t : Timestamp) : String :=
  t.dateText ++ "T" ++ t.timeText ++ t.fractionText ++ "Z"

/-- Write a point in time for readers, without its fraction. -/
def formatShort (t : Timestamp) : String := t.dateText ++ " " ++ t.timeText ++ " UTC"

/-! ## Reading -/

/-- The value of decimal digits. -/
def value (ds : List Char) : Nat := ds.foldl (fun n c => n * 10 + (c.toNat - '0'.toNat)) 0

/-- Read a number of one to `most` digits. -/
def readNumber (most : Nat) (s : List Char) : Option (Nat × List Char) :=
  let ds := (s.take most).takeWhile Char.isDigit
  if ds.isEmpty then none else some (value ds, s.drop ds.length)

/-- Read a number of one or two digits, after white space, that lies in a range. -/
def readField (least most : Nat) (s : List Char) : Option (Nat × List Char) := do
  let (n, rest) ← readNumber 2 (Text.trimStart s)
  if least ≤ n ∧ n ≤ most then some (n, rest) else none

/-- Read a year, after white space: four digits at most, or a sign and any number. -/
def readYear (s : List Char) : Option (Int × List Char) :=
  match Text.trimStart s with
  | '-' :: rest => (readNumber rest.length rest).map fun (n, rest) => (-(n : Int), rest)
  | '+' :: rest => (readNumber rest.length rest).map fun (n, rest) => ((n : Int), rest)
  | s => (readNumber 4 s).map fun (n, rest) => ((n : Int), rest)

/-- Read a separator, after white space. -/
def readMark (mark : Char) (s : List Char) : Option (List Char) :=
  match Text.trimStart s with
  | c :: rest => if c = mark then some rest else none
  | [] => none

/-- Read a fraction in nanoseconds, if there is one. Digits past the ninth do not count. -/
def readFraction : List Char → Option (Nat × List Char)
  | '.' :: rest =>
    let ds := rest.takeWhile Char.isDigit
    if ds.isEmpty then none
    else
      let kept := ds.take 9
      some (value (kept ++ List.replicate (9 - kept.length) '0'), rest.drop ds.length)
  | s => some (0, s)

/-- Read two digits, of which the first is at most `most`. -/
def readPair (most : Char) : List Char → Option (Nat × List Char)
  | a :: b :: rest =>
    if '0' ≤ a ∧ a ≤ most ∧ b.isDigit then some (value [a, b], rest) else none
  | _ => none

/-- Read an offset from UTC in seconds. -/
def readOffset (s : List Char) : Option (Int × List Char) :=
  let distance := fun (sign : Int) (s : List Char) => do
    let (hours, rest) ← readPair '9' s
    let (minutes, rest) ← readPair '5' (rest.dropWhile fun c => c == ':' || Text.isBlank c)
    some (sign * (hours * 3600 + minutes * 60 : Nat), rest)
  match s with
  | 'Z' :: rest | 'z' :: rest => some (0, rest)
  | '+' :: rest => distance 1 rest
  | '-' :: rest | '−' :: rest => distance (-1) rest
  | a :: b :: c :: rest =>
    if [a.toUpper, b.toUpper, c.toUpper] = ['U', 'T', 'C'] then some (0, rest) else none
  | _ => none

/-- Read a point in time. -/
def parse? (text : String) : Option Timestamp := do
  let (year, s) ← readYear text.toList
  let (month, s) ← readField 1 12 (← readMark '-' s)
  let (day, s) ← readField 1 31 (← readMark '-' s)
  let s ←
    match s with
    | 'T' :: rest | 't' :: rest | ' ' :: rest => some rest
    | _ => none
  let (hour, s) ← readField 0 23 s
  let (minute, s) ← readField 0 59 (← readMark ':' s)
  let (second, s) ← readField 0 60 (← readMark ':' s)
  let (nanos, s) ← readFraction s
  let (offset, s) ← readOffset (Text.trimStart s)
  if !(Text.trimStart s).isEmpty ∨ !knownYear year ∨ daysInMonth year month < day ∨
      86400 ≤ offset.natAbs then none
  else
    let civil := daysFromDate year month day * 86400 + hour * 3600 + minute * 60 +
      min second 59
    let t : Timestamp :=
      ⟨civil - offset, if second = 60 then nanos + 1000000000 else nanos⟩
    if knownYear t.date.year then some t else none

end Timestamp
end BinaryPatch
