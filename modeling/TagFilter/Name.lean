import TagFilter.Text.Pieces

/-!
# Names

The kinds of names that values hold, which are refs to records, symbols of defs and uris, and the
names of relationships.  A ref or symbol may hold any text; `Ref.ofText?` and `Symbol.ofText?` admit
only non-empty texts over the id characters.
-/

namespace TagFilter

/-- A failure to make a value or a def from its parts. -/
inductive ModelError where
  /-- A text that is no valid ref id. -/
  | invalidRef (text : String)
  /-- A text that is no valid symbol name. -/
  | invalidSymbol (text : String)
  /-- A record that does not say which def it is. -/
  | missingDefSymbol
  deriving DecidableEq, Repr

/-- The wording of a failure. -/
def ModelError.message : ModelError → String
  | .invalidRef text => "invalid ref name: '" ++ text ++ "'"
  | .invalidSymbol text => "invalid symbol name: '" ++ text ++ "'"
  | .missingDefSymbol => "def record is missing its 'def' symbol"

/-- Whether a text is non-empty and made of id characters. -/
def isId (text : String) : Bool :=
  !text.isEmpty && text.toList.all isIdChar

/-- Whether a text is a tag name: a letter or underscore, then letters, digits and underscores. -/
def isTagName (text : String) : Bool :=
  match text.toList with
  | [] => false
  | c :: rest => isNameStart c && rest.all isNameChar

/-- A reference to a record. -/
structure Ref where
  /-- The id of the record. -/
  id : String
  /-- A name for display, which plays no part in what the ref points at. -/
  display : Option String := none
  deriving DecidableEq, Repr

namespace Ref

/-- The ref with a valid id. -/
def ofText? (text : String) : Except ModelError Ref :=
  if isId text then .ok ⟨text, none⟩ else .error (.invalidRef text)

/-- The text of a ref. -/
def toText (r : Ref) : String :=
  "@" ++ r.id

end Ref

/-- The name of a def. -/
structure Symbol where
  /-- The name without its mark. -/
  name : String
  deriving DecidableEq, Repr

namespace Symbol

/-- The symbol with a valid name. -/
def ofText? (text : String) : Except ModelError Symbol :=
  if isId text then .ok ⟨text⟩ else .error (.invalidSymbol text)

/-- The text of a symbol. -/
def toText (s : Symbol) : String :=
  "^" ++ s.name

/-- Whether the symbol joins several tags. -/
def isConjunct (s : Symbol) : Bool :=
  s.name.toList.contains '-'

/-- The tags that a symbol joins; a plain symbol is its own only part. -/
def parts (s : Symbol) : List String :=
  (piecesAt '-' s.name.toList).map String.ofList

end Symbol

/-- The name of a relationship with an optional term that qualifies it. -/
structure Relationship where
  /-- The name. -/
  name : String
  /-- The term. -/
  term : Option Symbol := none
  deriving DecidableEq, Repr

namespace Relationship

/-- The compact text of a relationship, where the term is part of the word. -/
def toText (r : Relationship) : String :=
  match r.term with
  | some term => r.name ++ "-" ++ term.name ++ "?"
  | none => r.name ++ "?"

end Relationship

/-- A uniform resource identifier. -/
structure Uri where
  /-- The text of the identifier. -/
  text : String
  deriving DecidableEq, Repr

end TagFilter
