import TagFilter.Filter.Text
import TagFilter.Json

/-!
# Outlines of filters

The tree of a filter as a list of its nodes from the root down, and as JSON.  A group is a node
with the disjunction in its parentheses as its only child.
-/

namespace TagFilter

namespace Token

/-- The JSON description of a token. -/
def describe : Token → Json
  | .name text => .ofFields [("type", .text "text"), ("text", .text text)]
  | .path p => .ofFields [("type", .text "path"), ("segments", .texts p.segments)]
  | .value v =>
    .ofFields [("type", .text "value"), ("kind", .text v.kind.name), ("text", .text v.toText)]
  | .relationship r =>
    .ofFields [("type", .text "relationship"), ("name", .text r.name),
      ("term", .text? (r.term.map Symbol.name))]
  | .comparison op => .ofFields [("type", .text "cmp"), ("op", .text op.toText)]
  | token => .ofFields [("type", .text token.kindName)]

end Token

namespace Test

/-- The name of the kind of a test. -/
def kindName : Test → String
  | .has _ => "has"
  | .missing _ => "missing"
  | .compare _ _ _ => "cmp"
  | .isA _ => "isA"
  | .related _ _ => "relationship"
  | .reaches _ _ => "wildcardEq"

/-- The tokens that a test carries. -/
def tokens : Test → List Token
  | .has p => [Token.ofPath p]
  | .missing p => [Token.ofPath p]
  | .compare p op operand => [Token.ofPath p, .comparison op, .value operand]
  | .isA type => [.value (.symbol type)]
  | .related r target => .relationship r :: (target.map fun t => Token.value (.ref t)).toList
  | .reaches p target => [Token.ofPath p, .wildcard, .value (.ref target)]

/-- The JSON description of a test. -/
def describe (t : Test) : Json :=
  .ofFields [("type", .text t.kindName), ("tokens", .array (t.tokens.map Token.describe))]

end Test

/-- The JSON description of a node with children. -/
def describeParent (kind : String) (children : List Json) : Json :=
  .ofFields [("type", .text kind), ("children", .array children)]

/-- The JSON description of a filter, given those of its terms. -/
def describeFilter (terms : List (List Json)) : Json :=
  describeParent "or" (terms.map (describeParent "and"))

/-- The JSON description of a term. -/
def Term.describe (t : Term) : Json :=
  t.fold Test.describe fun body => describeParent "parens" [describeFilter body]

/-- The JSON description of a node. -/
def Node.describe : Node → Json
  | .filter f => describeFilter (f.map (List.map Term.describe))
  | .conjunction c => describeParent "and" (c.map Term.describe)
  | .term t => t.describe

/-- A node of a filter as it is met on the way through the tree. -/
structure Visit where
  /-- The distance from the root. -/
  depth : Nat
  /-- The name of the kind of the node. -/
  kind : String
  /-- Whether nodes of the kind have children and no tokens. -/
  isComposite : Bool
  /-- The number of children. -/
  children : Nat
  /-- The tokens of a test. -/
  tokens : List Token
  /-- The canonical text of the node. -/
  text : String

/-- The visit of a test. -/
def Test.visit (depth : Nat) (t : Test) : Visit :=
  ⟨depth, t.kindName, false, 0, t.tokens, t.toText⟩

mutual

/-- The visits of a term and all below it, from the root down. -/
def Term.visits (depth : Nat) : Term → List Visit
  | .test t => [t.visit depth]
  | .group body =>
    ⟨depth, "parens", true, 1, [], parenthesized (Filter.toText body)⟩
      :: ⟨depth + 1, "or", true, body.length, [], Filter.toText body⟩
      :: visitsOfAlternatives (depth + 2) body
termination_by structural t => t

/-- The visits of conjunctions and all below them. -/
def visitsOfAlternatives (depth : Nat) : List (List Term) → List Visit
  | [] => []
  | c :: cs =>
    ⟨depth, "and", true, c.length, [], Conjunction.toText c⟩ :: visitsOfTerms (depth + 1) c
      ++ visitsOfAlternatives depth cs
termination_by structural f => f

/-- The visits of terms and all below them. -/
def visitsOfTerms (depth : Nat) : List Term → List Visit
  | [] => []
  | t :: ts => t.visits depth ++ visitsOfTerms depth ts
termination_by structural c => c

end

/-- The visits of a filter and all below it. -/
def Filter.visits (f : Filter) : List Visit :=
  ⟨0, "or", true, f.length, [], Filter.toText f⟩ :: visitsOfAlternatives 1 f

end TagFilter
