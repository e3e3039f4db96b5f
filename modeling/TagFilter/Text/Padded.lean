/-!
# Padded digits

Whole numbers written to a least width, with zeros in front.
-/

namespace TagFilter

/-- The digits of a whole number to a given base, with zeros in front up to a least width. -/
def paddedDigits (base width n : Nat) : List Char :=
  let digits := Nat.toDigits base n
  List.replicate (width - digits.length) '0' ++ digits

/-- The decimal digits of a whole number, with zeros in front up to a least width. -/
def padded (width n : Nat) : String :=
  String.ofList (paddedDigits 10 width n)

end TagFilter
