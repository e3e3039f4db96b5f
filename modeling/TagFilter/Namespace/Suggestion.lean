import TagFilter.Namespace.Basic
import TagFilter.Text.EditDistance

/-!
# Suggestions for unknown names

The def that is closest to a name by edit distance, the first of several, if it is not further away
than two edits and not the name itself.
-/

namespace TagFilter

namespace Namespace

/-- The largest distance of a suggestion. -/
def maxDistance : Nat := 2

/-- The closer of a candidate and the best of the candidates after it, the candidate itself when
both are equally close. -/
def closer (name candidate : String) (best : Option (String × Nat)) : String × Nat :=
  let distance := editDistance name.toList candidate.toList
  match best with
  | some (other, least) => if least < distance then (other, least) else (candidate, distance)
  | none => (candidate, distance)

/-- The first of the candidates at the least distance from a name, with its distance. -/
def closest? (name : String) : List String → Option (String × Nat)
  | [] => none
  | candidate :: candidates => some (closer name candidate (closest? name candidates))

/-- The def to suggest for a name. -/
def suggestion? (ns : Namespace) (name : String) : Option String :=
  match closest? name ns.names with
  | some (candidate, distance) =>
    if 0 < distance ∧ distance ≤ maxDistance then some candidate else none
  | none => none

end Namespace

end TagFilter
