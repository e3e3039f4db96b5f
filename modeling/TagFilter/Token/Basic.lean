import TagFilter.Path
import TagFilter.Value.Order
import TagFilter.Value.Text

/-!
# Tokens

The words of a filter.  A single name is a token of its own and can also be read as a path; the
end of the input is a token that closes every list of tokens.
-/

namespace TagFilter

/-- A word of a filter. -/
inductive Token where
  /-- A single tag name. -/
  | name (text : String)
  /-- A path of several names. -/
  | path (p : Path)
  /-- A literal. -/
  | value (v : Value)
  /-- A relationship name with its mark. -/
  | relationship (r : Relationship)
  /-- The word between the terms of a conjunction. -/
  | and
  /-- The word between the conjunctions of a filter. -/
  | or
  /-- The word that negates a path. -/
  | not
  /-- The parenthesis that opens a group. -/
  | opening
  /-- The parenthesis that closes a group. -/
  | closing
  /-- A comparison operator. -/
  | comparison (op : Comparison)
  /-- The wildcard operator. -/
  | wildcard
  /-- The end of the input. -/
  | endOfInput

namespace Token

/-- The name of the kind of a token. -/
def kindName : Token → String
  | .name _ => "text"
  | .path _ => "path"
  | .value _ => "value"
  | .relationship _ => "relationship"
  | .and => "and"
  | .or => "or"
  | .not => "not"
  | .opening => "lparen"
  | .closing => "rparen"
  | .comparison _ => "cmp"
  | .wildcard => "wildcardEq"
  | .endOfInput => "eof"

/-- The token of a path: a single name stands for itself. -/
def ofPath (p : Path) : Token :=
  if p.isSingle then .name p.head else .path p

/-- The token of the path that a text writes. -/
def ofPathText? (text : String) : Except SyntaxError Token :=
  (Path.ofText? text).map ofPath

/-- The path that a token can be read as. -/
def path? : Token → Option Path
  | .name text => some (Path.single text)
  | .path p => some p
  | _ => none

/-- The text of a token in a filter; the end of the input has none. -/
def toText : Token → String
  | .name text => text
  | .path p => p.toText
  | .value v => v.toText
  | .relationship r => r.toText
  | .and => "and"
  | .or => "or"
  | .not => "not"
  | .opening => "("
  | .closing => ")"
  | .comparison op => op.toText
  | .wildcard => "*=="
  | .endOfInput => ""

/-- The text of a token in a message. -/
def display : Token → String
  | .endOfInput => "end of input"
  | t => t.toText

/-- Whether two tokens are the same word, where values count up to sameness. -/
def same : Token → Token → Bool
  | .name a, .name b => a == b
  | .path a, .path b => a == b
  | .value a, .value b => a.same b
  | .relationship a, .relationship b => a == b
  | .and, .and => true
  | .or, .or => true
  | .not, .not => true
  | .opening, .opening => true
  | .closing, .closing => true
  | .comparison a, .comparison b => a == b
  | .wildcard, .wildcard => true
  | .endOfInput, .endOfInput => true
  | _, _ => false

/-- Whether two lists of tokens are the same, word by word. -/
def sameAll : List Token → List Token → Bool
  | [], [] => true
  | a :: as, b :: bs => a.same b && sameAll as bs
  | _, _ => false

/-- Whether a token is the end of the input. -/
def isEnd : Token → Bool
  | .endOfInput => true
  | _ => false

end Token

end TagFilter
