/-!
# Calendar dates

Days are counted from the first of January 1970 and shown in the Gregorian calendar, which is
continued to the past and the future without an end. A year is taken to start in March, so that
the leap day is its last day; four hundred such years make a period of 146097 days.

## Main definitions

- `Date.ofDays` — the date of a day
- `Date.text` — year, month and day with hyphens between them
-/

namespace Esni

/-- A number in decimal, with zeros in front if it has fewer than `width` digits. -/
def decimal (width n : Nat) : String :=
  String.ofList ((Nat.toDigits 10 n).leftpad width '0')

/-- A date of the Gregorian calendar. -/
structure Date where
  /-- The year; the year before the first is the year zero. -/
  year : Int
  /-- The month, counted from one. -/
  month : Nat
  /-- The day of the month, counted from one. -/
  day : Nat
  deriving DecidableEq

namespace Date

/-- The number of days in four hundred years. -/
def daysPerPeriod : Nat := 146097

/-- The number of days from the first of March of the year zero to the start of the count. -/
def daysToStart : Int := 719468

def ofDays (days : Int) : Date :=
  let day := days + daysToStart
  let period := day / daysPerPeriod
  let dayOfPeriod := (day % daysPerPeriod).toNat
  let yearOfPeriod :=
    (dayOfPeriod - dayOfPeriod / 1460 + dayOfPeriod / 36524 - dayOfPeriod / 146096) / 365
  let dayOfYear := dayOfPeriod - (365 * yearOfPeriod + yearOfPeriod / 4 - yearOfPeriod / 100)
  let monthFromMarch := (5 * dayOfYear + 2) / 153
  let year := yearOfPeriod + period * 400
  let dayOfMonth := dayOfYear - (153 * monthFromMarch + 2) / 5 + 1
  if monthFromMarch < 10 then ⟨year, monthFromMarch + 3, dayOfMonth⟩
  else ⟨year + 1, monthFromMarch - 9, dayOfMonth⟩

/-- The text of a year. Years of one to four digits fill up four places; the others have a sign
in front. -/
def yearText (year : Int) : String :=
  if 0 ≤ year ∧ year ≤ 9999 then decimal 4 year.toNat
  else (if year < 0 then "-" else "+") ++ decimal 4 year.natAbs

def text (date : Date) : String :=
  yearText date.year ++ "-" ++ decimal 2 date.month ++ "-" ++ decimal 2 date.day

end Date

end Esni
