import TagFilter.Filter.Basic

/-!
# Text of filters

The canonical text of a filter: single blanks between words, no blanks inside of parentheses, and
every literal in its written form.  The text is a fold over the terms with a text for each test;
`Term.textWith` takes that text as a parameter, so that other forms of filters share the rest.
-/

namespace TagFilter

/-- The text of a relationship test, where the term stands after the name. -/
def relatedText (r : Relationship) (target : Option Ref) : String :=
  let term := match r.term with
    | some term => " " ++ term.toText
    | none => ""
  let target := match target with
    | some target => " " ++ target.toText
    | none => ""
  r.name ++ "?" ++ term ++ target

/-- The text of a test. -/
def Test.toText : Test → String
  | .has p => p.toText
  | .missing p => "not " ++ p.toText
  | .compare p op operand => p.toText ++ " " ++ op.toText ++ " " ++ operand.toText
  | .isA type => type.toText
  | .related r target => relatedText r target
  | .reaches p target => p.toText ++ " *== " ++ target.toText

/-- The text of a conjunction whose terms have the given texts. -/
def joinAnd (terms : List String) : String :=
  String.intercalate " and " terms

/-- The text of a disjunction whose parts have the given texts. -/
def joinOr (alternatives : List String) : String :=
  String.intercalate " or " alternatives

/-- A text in parentheses. -/
def parenthesized (text : String) : String :=
  "(" ++ text ++ ")"

/-- The text of a filter whose terms have the given texts. -/
def joinTerms (terms : List (List String)) : String :=
  joinOr (terms.map joinAnd)

/-- The text of a term, given the text of each test. -/
def Term.textWith (text : Test → String) (t : Term) : String :=
  t.fold text fun body => parenthesized (joinTerms body)

/-- The text of a conjunction, given the text of each test. -/
def Conjunction.textWith (text : Test → String) (c : Conjunction) : String :=
  joinAnd (c.map (Term.textWith text))

/-- The text of a filter, given the text of each test. -/
def Filter.textWith (text : Test → String) (f : Filter) : String :=
  joinOr (f.map (Conjunction.textWith text))

/-- The text of a node, given the text of each test. -/
def Node.textWith (text : Test → String) : Node → String
  | .filter f => Filter.textWith text f
  | .conjunction c => Conjunction.textWith text c
  | .term t => t.textWith text

/-- The canonical text of a term. -/
def Term.toText (t : Term) : String :=
  t.textWith Test.toText

/-- The canonical text of a conjunction. -/
def Conjunction.toText (c : Conjunction) : String :=
  Conjunction.textWith Test.toText c

/-- The canonical text of a filter. -/
def Filter.toText (f : Filter) : String :=
  Filter.textWith Test.toText f

/-- The canonical text of a node. -/
def Node.toText (n : Node) : String :=
  n.textWith Test.toText

@[simp] theorem Term.textWith_test (text : Test → String) (t : Test) :
    (Term.test t).textWith text = text t := rfl

/-- The text of a group is that of its filter in parentheses. -/
@[simp] theorem Term.textWith_group (text : Test → String) (f : Filter) :
    (Term.group f).textWith text = parenthesized (Filter.textWith text f) := by
  simp only [Term.textWith, Term.fold_group, joinTerms, List.map_map, Filter.textWith]
  rfl

end TagFilter
