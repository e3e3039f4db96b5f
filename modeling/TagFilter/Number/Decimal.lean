import TagFilter.Number.Magnitude
import TagFilter.Text.CharClass

/-!
# Decimal notation

A decimal is a signed whole number times a power of ten.  `Decimal.read` takes the longest decimal
that opens a text: digits that may be grouped by underscores, a fraction when a digit follows the
point, and an exponent when a digit follows its mark.  `Magnitude.ofDecimal` is the nearest
magnitude of a decimal, and `Decimal.plainText` writes one without an exponent.
-/

namespace TagFilter

/-- The number `± digits * 10 ^ exponent`. -/
structure Decimal where
  /-- Whether the number carries a minus sign. -/
  negative : Bool
  /-- The digits, read as one whole number. -/
  digits : Nat
  /-- The power of ten. -/
  exponent : Int
  deriving DecidableEq, Repr

/-- The whole number written by the digits of a text; other characters are passed over. -/
def wholeNumber (text : List Char) : Nat :=
  text.foldl (fun n c => if c.isDigit then 10 * n + (c.toNat - '0'.toNat) else n) 0

/-- The number of digits in a text. -/
def digitCount (text : List Char) : Nat :=
  text.countP Char.isDigit

namespace Decimal

/-- The fraction that opens a text: a point and the digits after it.  The point is no part of a
number unless a digit follows. -/
def readFraction : List Char → List Char × List Char
  | '.' :: d :: rest =>
    if d.isDigit then
      ((d :: rest).takeWhile isDigitOrGroup, (d :: rest).dropWhile isDigitOrGroup)
    else ([], '.' :: d :: rest)
  | text => ([], text)

/-- The digits that open a text as an exponent with the given sign. -/
def readPower (negative : Bool) (text : List Char) : Int × List Char :=
  let power := wholeNumber (text.takeWhile Char.isDigit)
  (if negative then -(power : Int) else power, text.dropWhile Char.isDigit)

/-- Whether a text opens with a digit. -/
def startsWithDigit : List Char → Bool
  | [] => false
  | c :: _ => c.isDigit

/-- The exponent that opens a text: a mark, perhaps a sign, and at least one digit. -/
def readExponent (text : List Char) : Int × List Char :=
  match text with
  | [] => (0, text)
  | mark :: rest =>
    if mark = 'e' ∨ mark = 'E' then
      match rest with
      | '+' :: power => if startsWithDigit power then readPower false power else (0, text)
      | '-' :: power => if startsWithDigit power then readPower true power else (0, text)
      | power => if startsWithDigit power then readPower false power else (0, text)
    else (0, text)

/-- The digits, fraction and exponent that open a text, as a decimal with the given sign. -/
def readUnsigned (negative : Bool) (text : List Char) : Decimal × List Char :=
  let whole := text.takeWhile isDigitOrGroup
  let (fraction, text) := readFraction (text.dropWhile isDigitOrGroup)
  let (exponent, text) := readExponent text
  (⟨negative, wholeNumber (whole ++ fraction), exponent - digitCount fraction⟩, text)

/-- The decimal that opens a text, and what follows it. -/
def read : List Char → Decimal × List Char
  | '-' :: text => readUnsigned true text
  | text => readUnsigned false text

/-- The decimal that a whole text writes. -/
def ofText? (text : String) : Option Decimal :=
  let unsigned := match text.toList with
    | '+' :: rest => rest
    | chars => chars
  if unsigned.any Char.isDigit then
    match read unsigned with
    | (decimal, []) => some decimal
    | _ => none
  else none

/-- The digits of a decimal without its sign, in positional notation: zeros fill the places up to
the point, and a fraction is written only when the exponent is negative. -/
def plainText (decimal : Decimal) : List Char :=
  let digits := Nat.toDigits 10 decimal.digits
  match decimal.exponent with
  | .ofNat zeros => digits ++ List.replicate zeros '0'
  | .negSucc n =>
    let places := n + 1
    let padded := List.replicate (places + 1 - digits.length) '0' ++ digits
    padded.take (padded.length - places) ++ '.' :: padded.drop (padded.length - places)

end Decimal

namespace Magnitude

/-- The magnitude nearest to a decimal.  Exponents beyond the range of magnitudes are settled
first: `10 ^ 310` exceeds every finite magnitude, and a value below `2 ^ -1076` rounds to zero. -/
def ofDecimal (decimal : Decimal) : Magnitude :=
  if decimal.digits = 0 then ofRank decimal.negative 0
  else match decimal.exponent with
    | .ofNat places =>
      if 310 < places then .infinite decimal.negative
      else ofRank decimal.negative (nearestRank (decimal.digits * Nat.pow 10 places * stepsPerUnit) 1)
    | .negSucc n =>
      if decimal.digits.log2 + 1077 < 3 * (n + 1) then ofRank decimal.negative 0
      else ofRank decimal.negative (nearestRank (decimal.digits * stepsPerUnit) (Nat.pow 10 (n + 1)))

/-- The magnitude that a whole text names: a decimal, `INF`, `-INF` or `NaN`. -/
def ofText? (text : String) : Option Magnitude :=
  if text = "INF" then some (.infinite false)
  else if text = "-INF" then some (.infinite true)
  else if text = "NaN" then some .nan
  else (Decimal.ofText? text).map ofDecimal

end Magnitude

end TagFilter
