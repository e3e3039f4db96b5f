import TagFilter.Number.Shortest

/-!
# Numbers

A number is a magnitude with an optional unit.  Numbers are ordered by magnitude and then by unit,
where a missing unit comes before every other.  Only a finite number is written with its unit.
-/

namespace TagFilter

/-- The order of two texts, by code points. -/
def compareText (a b : String) : Ordering :=
  if a < b then .lt else if a = b then .eq else .gt

/-- The order of two optional texts: a missing one first. -/
def compareText? : Option String → Option String → Ordering
  | none, none => .eq
  | none, some _ => .lt
  | some _, none => .gt
  | some a, some b => compareText a b

/-- A magnitude with an optional unit, such as `72.5°F`. -/
structure Number where
  /-- The size of the number. -/
  magnitude : Magnitude
  /-- The unit, if the number has one. -/
  unit : Option String := none
  deriving DecidableEq, Repr

namespace Number

/-- The order of two numbers: by magnitude, then by unit. -/
protected def compare (a b : Number) : Ordering :=
  (a.magnitude.compare b.magnitude).then (compareText? a.unit b.unit)

/-- The text of a magnitude in a filter, where zero has no sign. -/
def magnitudeText (magnitude : Magnitude) : String :=
  if magnitude.key = 0 then "0" else magnitude.toText

/-- The text of a number in a filter. -/
def toText (n : Number) : String :=
  match n.unit with
  | some unit =>
    if n.magnitude.isFinite then magnitudeText n.magnitude ++ unit else magnitudeText n.magnitude
  | none => magnitudeText n.magnitude

end Number

end TagFilter
