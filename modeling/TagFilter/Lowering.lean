import TagFilter.Filter.Text
import TagFilter.Taxonomy

/-!
# Lowering

The plain dialect of filters has no type tests, relationship tests or wildcards.  Lowering replaces
a type test by tests for the tags of the type and its subtypes, a relationship test by tests for
the ref tags of the relationship, and a wildcard by comparisons along the path repeated up to a
depth.  A relationship to a given record cannot be expressed: its lowered form is wider than the
test, and what it finds has to be filtered again.

Any namespace will do, and a set of defs is one of them.
-/

namespace TagFilter

/-- The number of repetitions of a path up to which a wildcard is lowered. -/
def maxDepth : Nat := 10

/-- Texts of which one must hold, in parentheses unless there is only one. -/
def anyOf : List String → String
  | [text] => text
  | texts => parenthesized (joinOr texts)

/-- The tags of a type as a filter: a single tag, or all tags that the name joins. -/
def typeText (name : String) : String :=
  let type : Symbol := ⟨name⟩
  if type.isConjunct then parenthesized (joinAnd type.parts) else name

/-- The lowered text of a type test. -/
def lowerType (ns : Taxonomy) (type : Symbol) : String :=
  anyOf ((type.name :: ns.subtypesOf type.name).map typeText)

/-- The lowered text of a relationship test.  A relationship that no ref tag stands for becomes a
test for the tag of its own name. -/
def lowerRelated (ns : Taxonomy) (r : Relationship) : String :=
  match ns.refTags r with
  | [] => r.name
  | tags => anyOf tags

/-- The lowered text of a wildcard. -/
def lowerReaches (p : Path) (target : Ref) : String :=
  anyOf ((List.range maxDepth).map fun n =>
    (Test.compare (p.repeated (n + 1)) .equal (.ref target)).toText)

/-- The lowered text of a test. -/
def Test.lower (ns : Taxonomy) : Test → String
  | .isA type => lowerType ns type
  | .related r _ => lowerRelated ns r
  | .reaches p target => lowerReaches p target
  | test => test.toText

/-- Whether the lowered form of a test is wider than the test. -/
def Test.isWidened : Test → Bool
  | .related _ (some _) => true
  | _ => false

/-- A lowered filter. -/
structure Lowered where
  /-- The text in the plain dialect. -/
  text : String
  /-- Whether results have to be filtered again. -/
  requery : Bool
  deriving DecidableEq, Repr

/-- A node in the plain dialect. -/
def Node.lower (ns : Taxonomy) (n : Node) : Lowered where
  text := n.textWith (Test.lower ns)
  requery := n.tests.any Test.isWidened

end TagFilter
