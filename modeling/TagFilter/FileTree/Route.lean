import TagFilter.FileTree.Basic
import TagFilter.Text.Pieces

/-!
# Routes

A path as the steps that it takes, and where they lead in a file tree.  A step can only be taken
from a directory, so a path leads nowhere as soon as it goes through a file or through nothing, even
if it returns from there at once.
-/

namespace TagFilter

/-- A step of a path. -/
inductive PathStep where
  /-- The step that remains where it is, `.`. -/
  | stay
  /-- The step to the directory around, `..`. -/
  | up
  /-- The step to a name. -/
  | into (name : String)
  deriving DecidableEq, Repr

namespace PathStep

/-- The step of a piece of a path; between two slashes in a row there is none. -/
def ofPiece? : List Char → Option PathStep
  | [] => none
  | ['.'] => some .stay
  | ['.', '.'] => some .up
  | name => some (.into (String.ofList name))

/-- The place that a step leads to.  The top is the directory around itself. -/
def move (place : Place) : PathStep → Place
  | .stay => place
  | .up => place.tail
  | .into name => name :: place

/-- The greatest number of bytes in a name. -/
def maxNameSize : Nat := 255

/-- Whether a step has a name that no place has. -/
def isTooLong : PathStep → Bool
  | .into name => maxNameSize < name.utf8ByteSize
  | _ => false

end PathStep

/-- What a path says. -/
structure Route where
  /-- Whether the path leads from the top. -/
  fromTop : Bool
  /-- The steps, the last of them first. -/
  steps : List PathStep
  /-- Whether the path ends in a slash, as only the path of a directory does. -/
  endsInSlash : Bool
  /-- The number of bytes in the path. -/
  size : Nat
  deriving DecidableEq, Repr

namespace Route

/-- The route of a path. -/
def ofText (path : String) : Route :=
  ⟨path.toList.head? == some '/',
    ((piecesAt '/' path.toList).filterMap PathStep.ofPiece?).reverse,
    path.toList.getLast? == some '/', path.utf8ByteSize⟩

/-- The greatest number of bytes in a path. -/
def maxSize : Nat := 4095

/-- The place that a route begins at. -/
def origin (r : Route) (start : Place) : Place :=
  if r.fromTop then [] else start

/-- The places that steps lead through if nothing is in their way, the last of them first. -/
def placesFrom (place : Place) : List PathStep → List Place
  | [] => [place]
  | step :: earlier =>
    let places := placesFrom place earlier
    step.move (places.headD place) :: places

/-- The places that a route leads through if nothing is in its way, the last of them first. -/
def places (r : Route) (start : Place) : List Place :=
  placesFrom (r.origin start) r.steps

end Route

/-- The path of a list of characters, the last of them first, without the slashes and the steps that
remain where they are at its end. -/
def dropStays : List Char → List Char
  | '/' :: rest => dropStays rest
  | '.' :: '/' :: rest => dropStays rest
  | ['.'] => []
  | rest => rest

/-- The path of the directory that a path ends in: the path without its last step. -/
def directoryPath (path : String) : String :=
  String.ofList (dropStays ((dropStays path.toList.reverse).dropWhile (· != '/'))).reverse

namespace FileSystem

/-- What stands at a place. -/
def state (files : FileSystem) (place : Place) : FileState :=
  files.tree.state place

/-- The place that a step leads to, if it can be taken. -/
def step (files : FileSystem) (place : Place) (s : PathStep) : Except FileError Place :=
  match files.state place with
  | .absent => .error .notFound
  | .directory => if s.isTooLong then .error .nameTooLong else .ok (s.move place)
  | _ => .error .notDirectory

/-- The place that steps lead to, the last of which is given first. -/
def walk (files : FileSystem) (place : Place) : List PathStep → Except FileError Place
  | [] => .ok place
  | s :: earlier => do files.step (← files.walk place earlier) s

/-- The place that a route leads to. -/
def find (files : FileSystem) (r : Route) : Except FileError Place :=
  if Route.maxSize < r.size then .error .nameTooLong
  else files.walk (r.origin files.start) r.steps

/-- What stands where a path leads; a file does not stand at a path that ends in a slash. -/
def stateAt (files : FileSystem) (path : String) : FileState :=
  let r := Route.ofText path
  match files.find r with
  | .ok place =>
    if r.endsInSlash ∧ files.state place ≠ .directory then .absent else files.state place
  | .error _ => .absent

end FileSystem

end TagFilter
