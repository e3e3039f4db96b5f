/-!
# Errors of filter texts

The causes for which a text, or a list of tokens, is not a filter.  The last three come from the
characters of the text and carry a position, which counts bytes of its UTF-8 form.
-/

namespace TagFilter

/-- The cause for which a text is not a filter. -/
inductive SyntaxError where
  /-- There is no token at all. -/
  | emptyFilter
  /-- A token stands where none of its kind may stand. -/
  | unexpectedToken (token : String)
  /-- The input ends within a term. -/
  | unexpectedEnd
  /-- The input ends within a group. -/
  | unclosedGroup
  /-- The right side of a comparison is no value. -/
  | comparisonOperand (token : String)
  /-- The wildcard operator has no path on its left. -/
  | wildcardWithoutPath
  /-- The right side of the wildcard operator is no ref. -/
  | wildcardOperand (token : String)
  /-- Something other than the presence of a path is negated. -/
  | negatedOther (token : String)
  /-- A relationship has a term in its name and another after it. -/
  | secondTerm (relationship : String)
  /-- A character begins no token. -/
  | unexpectedCharacter (c : Char) (position : Nat)
  /-- A quoted literal is not closed. -/
  | unterminatedLiteral (position : Nat)
  /-- A literal has the form of its kind but names nothing. -/
  | invalidLiteral (text : String) (position : Nat)
  deriving DecidableEq, Repr

namespace SyntaxError

/-- The position that an error carries, in bytes. -/
def position? : SyntaxError → Option Nat
  | .unexpectedCharacter _ position => some position
  | .unterminatedLiteral position => some position
  | .invalidLiteral _ position => some position
  | _ => none

/-- The wording of an error. -/
def message : SyntaxError → String
  | .emptyFilter => "filter expression is empty"
  | .unexpectedToken token => "unexpected token: " ++ token
  | .unexpectedEnd => "unexpected end of expression"
  | .unclosedGroup => "unclosed parenthesis"
  | .comparisonOperand token => "expected a value after comparison operator, found " ++ token
  | .wildcardWithoutPath => "wildcard equals requires a path"
  | .wildcardOperand token => "wildcard equals requires a ref, found " ++ token
  | .negatedOther token => "only a path can be negated, found " ++ token
  | .secondTerm relationship => "relationship '" ++ relationship ++ "' has more than one term"
  | .unexpectedCharacter c position =>
    "unexpected character '" ++ String.singleton c ++ "' at position " ++ toString position
  | .unterminatedLiteral position =>
    "unterminated literal starting at position " ++ toString position
  | .invalidLiteral text position =>
    "invalid literal '" ++ text ++ "' at position " ++ toString position

end SyntaxError

end TagFilter
