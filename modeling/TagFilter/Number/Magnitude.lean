/-!
# Magnitudes

The size of a number is a binary64 value.  The finite values of one sign are numbered from zero
upwards: *rank* `0` is zero, and the next rank is the next larger value.  `Magnitude.scaled` is
the value of a rank as a whole number of steps of `2 ^ -1074`, so that every question about a
magnitude is one about natural numbers.

`Magnitude.key` places all magnitudes on one line, on which both zeros share a place and the value
that is not a number stands last; `Magnitude.nearestRank` rounds a fraction to the nearest rank.
-/

namespace TagFilter

/-- The number of ranks over which the spacing stays the same, which is `2 ^ 52`. -/
abbrev blockSize : Nat := Nat.pow 2 52

/-- The number of finite binary64 values of one sign. -/
abbrev rankLimit : Nat := 2047 * blockSize

/-- The number of the least steps in one, which is `2 ^ 1074`. -/
def stepsPerUnit : Nat := Nat.pow 2 1074

/-- A binary64 value. -/
inductive Magnitude where
  /-- The value that is not a number. -/
  | nan
  /-- The value beyond all finite values of its sign. -/
  | infinite (negative : Bool)
  /-- A finite value, given by its sign and its rank among the values of that sign. -/
  | finite (negative : Bool) (rank : Fin rankLimit)
  deriving DecidableEq, Repr

namespace Magnitude

/-- The power of two, in steps of `2 ^ -1074`, between a rank and the next. -/
def spacing (rank : Nat) : Nat :=
  rank / blockSize - 1

/-- The value of a rank as a multiple of `2 ^ -1074`.  The ranks below `2 ^ 53` are evenly spaced
and each further block of `2 ^ 52` ranks doubles the spacing. -/
def scaled (rank : Nat) : Nat :=
  (rank - spacing rank * blockSize) <<< spacing rank

/-- The largest rank whose scaled value is at most `n`. -/
def rankBelow (n : Nat) : Nat :=
  let spacing := n.log2 - 52
  spacing * blockSize + n >>> spacing

/-- The rank nearest to the fraction `numerator / denominator` of steps of `2 ^ -1074`; half way
between two ranks the even one is taken. -/
def nearestRank (numerator denominator : Nat) : Nat :=
  let below := rankBelow (numerator / denominator)
  let middle := denominator * (scaled below + scaled (below + 1))
  if 2 * numerator < middle then below
  else if middle < 2 * numerator then below + 1
  else if below % 2 = 0 then below else below + 1

/-- The magnitude of a rank, which is infinite when the rank exceeds all finite ones. -/
def ofRank (negative : Bool) (rank : Nat) : Magnitude :=
  if h : rank < rankLimit then .finite negative ⟨rank, h⟩ else .infinite negative

/-- The zero without a sign. -/
def zero : Magnitude := ofRank false 0

/-- The place of a magnitude on the line of all magnitudes. -/
def key : Magnitude → Int
  | .nan => rankLimit + 1
  | .infinite false => rankLimit
  | .infinite true => -rankLimit
  | .finite false rank => rank.val
  | .finite true rank => -rank.val

/-- The order of two magnitudes: by value, the value that is not a number last. -/
protected def compare (a b : Magnitude) : Ordering :=
  compare a.key b.key

/-- Whether a magnitude is a finite value. -/
def isFinite : Magnitude → Bool
  | .finite _ _ => true
  | _ => false

end Magnitude

end TagFilter
