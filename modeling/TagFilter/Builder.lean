import TagFilter.Filter.Partial

/-!
# Building filters

A builder collects the text of a filter word by word and puts a blank between words, except after
an opening and before a closing parenthesis.  Nothing is checked until the filter is built.
-/

namespace TagFilter

/-- What can be added to the text of a filter. -/
inductive BuildStep where
  /-- A test for the presence of a path. -/
  | has (path : String)
  /-- The word between terms. -/
  | and
  /-- The word between conjunctions. -/
  | or
  /-- The word that negates a path. -/
  | not
  /-- A type test. -/
  | isA (type : String)
  /-- A relationship test. -/
  | related (name : String) (term : Option String) (target : Option Ref)
  /-- A wildcard test. -/
  | reaches (path : String) (target : Ref)
  /-- An opening parenthesis. -/
  | opening
  /-- A closing parenthesis. -/
  | closing
  /-- A comparison. -/
  | compare (path : String) (op : Comparison) (operand : Value)
  /-- A filter given by its text, as a group. -/
  | filter (text : String)
  /-- A filter given by the steps of another builder, as a group. -/
  | nested (steps : List BuildStep)

/-- The text of a filter that is being built. -/
structure Builder where
  /-- The text so far. -/
  text : String
  deriving DecidableEq, Repr

/-- A name without the mark of a symbol that it may begin with. -/
def unmarked (name : String) : String :=
  match name.toList with
  | '^' :: rest => String.ofList rest
  | _ => name

namespace Builder

/-- The builder without text. -/
def empty : Builder := ⟨""⟩

/-- Whether a word is set off from the text before it by a blank. -/
def needsBlank (text word : String) : Bool :=
  !text.isEmpty && text.toList.getLast? != some '(' && word != ")"

/-- The builder with one more word. -/
def push (b : Builder) (word : String) : Builder :=
  ⟨if needsBlank b.text word then b.text ++ " " ++ word else b.text ++ word⟩

/-- The text of a relationship test from plain texts. -/
def relatedWord (name : String) (term : Option String) (target : Option Ref) : String :=
  relatedText ⟨name, term.map fun term => ⟨unmarked term⟩⟩ target

end Builder

mutual

/-- The word that a step adds. -/
def BuildStep.word : BuildStep → String
  | .has path => path
  | .and => "and"
  | .or => "or"
  | .not => "not"
  | .isA type => "^" ++ unmarked type
  | .related name term target => Builder.relatedWord name term target
  | .reaches path target => path ++ " *== " ++ target.toText
  | .opening => "("
  | .closing => ")"
  | .compare path op operand => path ++ " " ++ op.toText ++ " " ++ operand.toText
  | .filter text => parenthesized text
  | .nested steps => parenthesized (Builder.runSteps Builder.empty steps).text
termination_by structural step => step

/-- The builder after several steps. -/
def Builder.runSteps (b : Builder) : List BuildStep → Builder
  | [] => b
  | step :: steps => (b.push step.word).runSteps steps
termination_by structural steps => steps

end

namespace Builder

/-- The builder after a step. -/
def add (b : Builder) (step : BuildStep) : Builder :=
  b.push step.word

/-- The text of the filter, if it is one. -/
def build (b : Builder) : Except SyntaxError String :=
  (Filter.ofText? b.text).map fun _ => b.text

end Builder

end TagFilter
