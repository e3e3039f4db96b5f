import TagFilter.Text.CharClass

/-!
# Pieces of text

Cutting a text at a separator and at its outer blanks.  A text with `n` separators has `n + 1`
pieces, of which any may be empty.
-/

namespace TagFilter

/-- A list of pieces with one more character at the front of the first. -/
def consFirst (c : Char) : List (List Char) → List (List Char)
  | [] => [[c]]
  | piece :: pieces => (c :: piece) :: pieces

/-- The pieces of a text between the occurrences of a character. -/
def piecesAt (separator : Char) : List Char → List (List Char)
  | [] => [[]]
  | c :: rest =>
    if c = separator then [] :: piecesAt separator rest else consFirst c (piecesAt separator rest)

/-- The pieces of a text between its arrows `->`. -/
def piecesAtArrow : List Char → List (List Char)
  | [] => [[]]
  | '-' :: '>' :: rest => [] :: piecesAtArrow rest
  | c :: rest => consFirst c (piecesAtArrow rest)

/-- A text without the blanks at its ends. -/
def trimBlanks (text : List Char) : List Char :=
  ((text.dropWhile isBlank).reverse.dropWhile isBlank).reverse

theorem piecesAt_ne_nil (separator : Char) (text : List Char) : piecesAt separator text ≠ [] := by
  cases text with
  | nil => simp [piecesAt]
  | cons c rest =>
    simp only [piecesAt]
    split
    · simp
    · cases piecesAt separator rest <;> simp [consFirst]

theorem piecesAtArrow_ne_nil (text : List Char) : piecesAtArrow text ≠ [] := by
  fun_cases piecesAtArrow text with
  | case1 => simp
  | case2 rest => simp
  | case3 c rest => cases piecesAtArrow rest <;> simp [consFirst]

end TagFilter
