import TagFilter.Text.Padded

/-!
# Times of day

A time of day to the nanosecond.  A leap second is counted into the second before it: its
nanoseconds run from `10 ^ 9` upwards, and it is written as second `60`.
-/

namespace TagFilter

/-- A time of day. -/
structure TimeOfDay where
  /-- The hour, from `0` to `23`. -/
  hour : Nat
  /-- The minute, from `0` to `59`. -/
  minute : Nat
  /-- The second, from `0` to `59`. -/
  second : Nat
  /-- The nanoseconds since the second began; those of a leap second start at `10 ^ 9`. -/
  nanosecond : Nat
  /-- The hour is one of the day. -/
  hour_lt : hour < 24
  /-- The minute is one of the hour. -/
  minute_lt : minute < 60
  /-- The second is one of the minute. -/
  second_lt : second < 60
  /-- Only the last second of a minute may be followed by a leap second. -/
  nanosecond_lt : nanosecond < 1000000000 ∨ (second = 59 ∧ nanosecond < 2000000000)
  deriving DecidableEq, Repr

namespace TimeOfDay

/-- The time with the given fields, if there is one. -/
def ofFields? (hour minute second nanosecond : Nat) : Option TimeOfDay :=
  if h : hour < 24 ∧ minute < 60 ∧ second < 60 ∧
      (nanosecond < 1000000000 ∨ (second = 59 ∧ nanosecond < 2000000000)) then
    some ⟨hour, minute, second, nanosecond, h.1, h.2.1, h.2.2.1, h.2.2.2⟩
  else none

/-- The time as it is written, where the second may be `60` and the fraction is below one second. -/
def ofWritten? (hour minute second fraction : Nat) : Option TimeOfDay :=
  if second = 60 then ofFields? hour minute 59 (1000000000 + fraction)
  else if fraction < 1000000000 then ofFields? hour minute second fraction
  else none

/-- The order of two times, from earlier to later. -/
protected def compare (a b : TimeOfDay) : Ordering :=
  (compare a.hour b.hour).then ((compare a.minute b.minute).then
    ((compare a.second b.second).then (compare a.nanosecond b.nanosecond)))

/-- The second as it is written. -/
def writtenSecond (t : TimeOfDay) : Nat :=
  t.second + t.nanosecond / 1000000000

/-- The fraction of the second in nanoseconds, as it is written. -/
def fraction (t : TimeOfDay) : Nat :=
  t.nanosecond % 1000000000

/-- The text of a fraction of a second: nothing, or as many groups of three digits as it needs. -/
def fractionText (fraction : Nat) : String :=
  if fraction = 0 then ""
  else if fraction % 1000000 = 0 then "." ++ padded 3 (fraction / 1000000)
  else if fraction % 1000 = 0 then "." ++ padded 6 (fraction / 1000)
  else "." ++ padded 9 fraction

/-- The text of a time, `HH:MM:SS` with a fraction if there is one. -/
def toText (t : TimeOfDay) : String :=
  padded 2 t.hour ++ ":" ++ padded 2 t.minute ++ ":" ++ padded 2 t.writtenSecond
    ++ fractionText t.fraction

end TimeOfDay

end TagFilter
