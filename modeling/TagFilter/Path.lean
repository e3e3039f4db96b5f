import TagFilter.Name
import TagFilter.SyntaxError

/-!
# Paths

A path is a non-empty sequence of tag names, written with arrows between them.  `Path.ofText?`
admits blanks around each name and requires every name to be a tag name.
-/

namespace TagFilter

/-- A non-empty sequence of tag names. -/
structure Path where
  /-- The first name. -/
  head : String
  /-- The names after the first. -/
  tail : List String
  deriving DecidableEq, Repr

namespace Path

/-- The names of a path. -/
def segments (p : Path) : List String :=
  p.head :: p.tail

/-- The path of a single name. -/
def single (name : String) : Path := ⟨name, []⟩

/-- Whether a path is a single name. -/
def isSingle (p : Path) : Bool :=
  p.tail.isEmpty

/-- The text of a path. -/
def toText (p : Path) : String :=
  String.intercalate "->" p.segments

/-- The path with another first name. -/
def withHead (p : Path) (head : String) : Path :=
  ⟨head, p.tail⟩

/-- The names of a path, several times over. -/
def copies (p : Path) : Nat → List String
  | 0 => []
  | n + 1 => p.segments ++ p.copies n

/-- The path repeated a number of times, and at least once. -/
def repeated (p : Path) (times : Nat) : Path :=
  ⟨p.head, p.tail ++ p.copies (times - 1)⟩

/-- The path that a text writes: tag names between arrows, each perhaps among blanks. -/
def ofText? (text : String) : Except SyntaxError Path :=
  let names := (piecesAtArrow text.toList).map fun piece => String.ofList (trimBlanks piece)
  match names with
  | [] => .error (.invalidLiteral text 0)
  | head :: tail =>
    if names.all isTagName then .ok ⟨head, tail⟩ else .error (.invalidLiteral text 0)

@[simp] theorem segments_single (name : String) : (single name).segments = [name] := rfl

@[simp] theorem withHead_segments (p : Path) (head : String) :
    (p.withHead head).segments = head :: p.tail := rfl

end Path

end TagFilter
