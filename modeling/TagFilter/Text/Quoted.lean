import TagFilter.Text.CharClass
import TagFilter.Text.Padded

/-!
# Quoted text

The written forms of strings and uris.  A string stands between double quotes; quotes, backslashes
and control characters in it are escaped by a backslash.  A uri stands between backquotes, and only
backquotes and backslashes in it are escaped.
-/

namespace TagFilter

/-- The double quote. -/
abbrev doubleQuote : Char := '\x22'

/-- The backquote. -/
abbrev backQuote : Char := '\x60'

/-- The backslash. -/
abbrev backslash : Char := '\x5c'

/-- A character as it stands in a quoted string. -/
def escapeInString (c : Char) : List Char :=
  if c = doubleQuote ∨ c = backslash then [backslash, c]
  else if c = '\n' then [backslash, 'n']
  else if c = '\r' then [backslash, 'r']
  else if c = '\t' then [backslash, 't']
  else if isControl c then backslash :: 'u' :: paddedDigits 16 4 c.toNat
  else [c]

/-- A character as it stands in a quoted uri. -/
def escapeInUri (c : Char) : List Char :=
  if c = backQuote ∨ c = backslash then [backslash, c] else [c]

/-- The written form of a string. -/
def quoteString (text : String) : String :=
  String.ofList (doubleQuote :: text.toList.flatMap escapeInString ++ [doubleQuote])

/-- The written form of a uri. -/
def quoteUri (text : String) : String :=
  String.ofList (backQuote :: text.toList.flatMap escapeInUri ++ [backQuote])

end TagFilter
