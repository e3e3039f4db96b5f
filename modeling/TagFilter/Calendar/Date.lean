import TagFilter.Text.Padded

/-!
# Dates

Days of the proleptic Gregorian calendar.  A date is written `YYYY-MM-DD`; a year before `0` or
after `9999` carries a sign, and such a date has no literal in a filter.
-/

namespace TagFilter

/-- Whether a year has a twenty-ninth of February. -/
def isLeapYear (year : Int) : Bool :=
  year % 4 == 0 && (year % 100 != 0 || year % 400 == 0)

/-- The number of days of a month. -/
def daysInMonth (year : Int) (month : Nat) : Nat :=
  if month = 2 then (if isLeapYear year then 29 else 28)
  else if month = 4 ∨ month = 6 ∨ month = 9 ∨ month = 11 then 30
  else 31

/-- A day of the calendar. -/
structure Date where
  /-- The year, where the year before `1` is `0`. -/
  year : Int
  /-- The month, from `1`. -/
  month : Nat
  /-- The day of the month, from `1`. -/
  day : Nat
  /-- The month is one of the twelve. -/
  month_mem : 1 ≤ month ∧ month ≤ 12
  /-- The day is one of its month. -/
  day_mem : 1 ≤ day ∧ day ≤ daysInMonth year month
  deriving DecidableEq, Repr

namespace Date

/-- The date with the given fields, if the calendar has it. -/
def ofFields? (year : Int) (month day : Nat) : Option Date :=
  if h : (1 ≤ month ∧ month ≤ 12) ∧ (1 ≤ day ∧ day ≤ daysInMonth year month) then
    some ⟨year, month, day, h.1, h.2⟩
  else none

/-- The order of two dates, from earlier to later. -/
protected def compare (a b : Date) : Ordering :=
  (compare a.year b.year).then ((compare a.month b.month).then (compare a.day b.day))

/-- The text of a year: four digits, with a sign only outside of `0` to `9999`. -/
def yearText (year : Int) : String :=
  if 0 ≤ year ∧ year ≤ 9999 then padded 4 year.toNat
  else (if year < 0 then "-" else "+") ++ padded 4 year.natAbs

/-- The text of a date, `YYYY-MM-DD`. -/
def toText (d : Date) : String :=
  yearText d.year ++ "-" ++ padded 2 d.month ++ "-" ++ padded 2 d.day

end Date

end TagFilter
