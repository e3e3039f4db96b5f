/-!
# Edit distance

The least number of insertions, deletions and replacements of characters that turn one text into
another.  The distances from a text to all beginnings of another are kept as a row, to which each
character of the first text adds one step.
-/

namespace TagFilter

/-- The rest of the row after one more character `c` of the first text.  `diagonal` is the old
entry to the left and `left` the new one; `others` are the remaining characters of the second text
and `row` the old entries at them. -/
def nextEntries (c : Char) (diagonal left : Nat) : List Char → List Nat → List Nat
  | d :: others, above :: row =>
    let entry := min (min (above + 1) (left + 1)) (if c = d then diagonal else diagonal + 1)
    entry :: nextEntries c above entry others row
  | _, _ => []

/-- The row after one more character of the first text. -/
def nextRow (others : List Char) (row : List Nat) (c : Char) : List Nat :=
  match row with
  | [] => []
  | first :: row => (first + 1) :: nextEntries c first (first + 1) others row

/-- The number of single edits between two texts. -/
def editDistance (a b : List Char) : Nat :=
  (a.foldl (nextRow b) (List.range (b.length + 1))).getLastD 0

end TagFilter
