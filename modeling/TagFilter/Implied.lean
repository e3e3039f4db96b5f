import TagFilter.Filter.Partial
import TagFilter.Lowering

/-!
# Implied tags

A def may name tags that imply it when they all are present.  Expansion replaces each test whose
path begins with such a tag by the test or the tests along the implying tags, and so on for those;
a negated test becomes the dual.  A name that is already being expanded stands for itself.

A type test is lowered first, and its lowered text is read and expanded in turn.

Expansion need not end.  The lowered text of a type test may hold the same type test again, where
the name of a def begins with the mark of symbols, and a namespace other than a set of defs may name
new tags forever.  There is no expanded text then.
-/

namespace TagFilter

/-- Several texts joined by a connective and in parentheses; a single one stands for itself. -/
def grouped (connective : String) : List String → String
  | [text] => text
  | texts => parenthesized (String.intercalate connective texts)

/-- The text of a test along a tag or all that implies it.  `expanding` holds the names that are
being expanded. -/
def Taxonomy.expandName (ns : Taxonomy) (negated : Bool) (text : String → String)
    (expanding : List String) (name : String) : Option String :=
  if ns.impliedBy name = [] ∨ name ∈ expanding then some (text name)
  else do
    let alternatives ←
      (ns.impliedBy name).mapM (ns |>.expandName negated text (name :: expanding))
    let (outer, inner) := if negated then (" and ", " or ") else (" or ", " and ")
    some (parenthesized (text name ++ outer ++ grouped inner alternatives))
partial_fixpoint

/-- The text of a test along a path or all that implies its first name. -/
def Taxonomy.expandPath (ns : Taxonomy) (negated : Bool) (text : Path → String) (p : Path) :
    Option String :=
  ns.expandName negated (fun head => text (p.withHead head)) [] p.head

mutual

/-- The expanded text of a test, if the expansion ends. -/
def Test.expand (ns : Taxonomy) : Test → Option String
  | .has p => ns.expandPath false Path.toText p
  | .missing p => ns.expandPath true (fun p => "not " ++ p.toText) p
  | .compare p op operand => ns.expandPath false (fun p => (Test.compare p op operand).toText) p
  | .isA type =>
    match Filter.ofText? (lowerType ns type) with
    | .ok f => Node.filter f |>.expand ns
    | .error _ => some (lowerType ns type)
  | .related r target =>
    ns.expandName false (fun name => relatedText ⟨name, r.term⟩ target) [] r.name
  | .reaches p target => ns.expandPath false (fun p => (Test.reaches p target).toText) p
partial_fixpoint

/-- The expanded text of a term. -/
def Term.expand (ns : Taxonomy) : Term → Option String
  | .test t => t |>.expand ns
  | .group body => do return parenthesized (← Node.filter body |>.expand ns)
partial_fixpoint

/-- The text of a node with its implied tags expanded, if the expansion ends. -/
def Node.expand (ns : Taxonomy) : Node → Option String
  | .filter f => do return joinOr (← f.mapM fun c => Node.conjunction c |>.expand ns)
  | .conjunction c => do return joinAnd (← c.mapM fun t => t |>.expand ns)
  | .term t => t |>.expand ns
partial_fixpoint

end

/-- The expanded text of a conjunction. -/
def Conjunction.expand (ns : Taxonomy) (c : Conjunction) : Option String :=
  (Node.conjunction c).expand ns

/-- The expanded text of a filter. -/
def Filter.expand (ns : Taxonomy) (f : Filter) : Option String :=
  (Node.filter f).expand ns

end TagFilter
