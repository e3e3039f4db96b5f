import TagFilter.Number.Decimal

/-!
# Shortest decimals

`Magnitude.shortest` is the decimal with the fewest digits among those that read back as a given
rank, and the nearest of those to its value; half way between two the larger is taken.  The search
runs over decimal grids from coarse to fine: a grid holds a decimal that reads back exactly when
one of the two grid points around the value does.
-/

namespace TagFilter

namespace Magnitude

/-- The place of the leading digit of a rank's value: the least `p` with the value below
`10 ^ p`. -/
def leadingPlace (rank : Nat) : Int :=
  let value := scaled rank
  if stepsPerUnit ≤ value then (Nat.toDigits 10 (value / stepsPerUnit)).length
  else 1 - ((Nat.toDigits 10 ((stepsPerUnit - 1) / value)).length : Int)

/-- Whether `digits * 10 ^ exponent` reads back as the rank. -/
def readsBack (rank digits : Nat) (exponent : Int) : Bool :=
  match ofDecimal ⟨false, digits, exponent⟩ with
  | .finite _ r => r.val == rank
  | _ => false

/-- A rank's value over the step of the grid `10 ^ exponent`, as a numerator and a denominator. -/
def onGrid (rank : Nat) : Int → Nat × Nat
  | .ofNat places => (scaled rank, Nat.pow 10 places * stepsPerUnit)
  | .negSucc n => (scaled rank * Nat.pow 10 (n + 1), stepsPerUnit)

/-- The nearest point of a grid around a rank's value, among those of the two neighbours that read
back. -/
def gridPoint? (rank : Nat) (exponent : Int) : Option Decimal :=
  let (numerator, denominator) := onGrid rank exponent
  let below := numerator / denominator
  let above := below + 1
  let pick (digits : Nat) : Option Decimal := some ⟨false, digits, exponent⟩
  match readsBack rank below exponent, readsBack rank above exponent with
  | false, false => none
  | true, false => pick below
  | false, true => pick above
  | true, true =>
    if 2 * numerator < denominator * (below + above) then pick below else pick above

/-- The whole decimal expansion of a rank's value. -/
def expansion (rank : Nat) : Decimal :=
  ⟨false, scaled rank * Nat.pow 5 1074, -1074⟩

/-- The shortest decimal that reads back as a rank. -/
def shortest (rank : Nat) : Decimal :=
  let place := leadingPlace rank
  ((List.range 18).findSome? fun digits : Nat => gridPoint? rank (place - digits)).getD
    (expansion rank)

/-- The text of a finite magnitude without its sign. -/
def plainDigits (rank : Nat) : String :=
  if rank = 0 then "0" else String.ofList (shortest rank).plainText

/-- The text of a magnitude: the shortest decimal that reads back, without an exponent; zero keeps
its sign. -/
def toText : Magnitude → String
  | .nan => "NaN"
  | .infinite false => "INF"
  | .infinite true => "-INF"
  | .finite false rank => plainDigits rank
  | .finite true rank => "-" ++ plainDigits rank

end Magnitude

end TagFilter
