import TagFilter.Token.Basic

/-!
# Reading tokens

`scan` takes the first token of a text, given as the list of its characters, and returns it with
the text that follows.  Where no token can be read it stops with a fault, which is located by the
text that remains at the place of the fault; only `Stop.toError` turns such a place into a number
of bytes.

`scan_shorter` says that a token takes up at least one character, so that `readTokens` ends.
-/

namespace TagFilter

/-- The reason why no token can be read. -/
inductive Fault where
  /-- A character begins no token. -/
  | unexpectedCharacter (c : Char)
  /-- A quoted literal is not closed. -/
  | unterminatedLiteral
  /-- A literal has the form of its kind but names nothing. -/
  | invalidLiteral (text : List Char)
  deriving DecidableEq, Repr

/-- A fault with its place. -/
structure Stop where
  /-- The reason. -/
  fault : Fault
  /-- The text from the place of the fault on. -/
  start : List Char
  /-- The text from which reading can go on. -/
  rest : List Char
  deriving DecidableEq, Repr

/-- What is found at the front of a text. -/
inductive Scan where
  /-- Only blanks. -/
  | finished
  /-- A token, and the text after it. -/
  | token (t : Token) (rest : List Char)
  /-- A fault. -/
  | stopped (s : Stop)

/-- The length of a text in bytes of its UTF-8 form. -/
def byteLength (text : List Char) : Nat :=
  text.foldr (fun c length => c.utf8Size + length) 0

/-- The position of what remains of a text, in bytes. -/
def positionOf (text rest : List Char) : Nat :=
  byteLength text - byteLength rest

/-- The part of a text in front of what remains of it. -/
def partBefore (text rest : List Char) : List Char :=
  text.take (text.length - rest.length)

/-- The error of a fault within a text. -/
def Stop.toError (text : List Char) (s : Stop) : SyntaxError :=
  match s.fault with
  | .unexpectedCharacter c => .unexpectedCharacter c (positionOf text s.start)
  | .unterminatedLiteral => .unterminatedLiteral (positionOf text s.start)
  | .invalidLiteral literal => .invalidLiteral (String.ofList literal) (positionOf text s.start)

/-! ### Words -/

/-- The token of a word that is reserved. -/
def reservedToken? (word : String) : Option Token :=
  if word = "and" then some .and
  else if word = "or" then some .or
  else if word = "not" then some .not
  else if word = "true" then some (.value (.bool true))
  else if word = "false" then some (.value (.bool false))
  else if word = "INF" then some (.value (.number ⟨.infinite false, none⟩))
  else if word = "NaN" then some (.value (.number ⟨.nan, none⟩))
  else none

/-- The mark that makes the word before it a relationship, with the term that it may enclose. -/
def readMark? : List Char → Option (Option Symbol × List Char)
  | '?' :: rest => some (none, rest)
  | '-' :: '>' :: _ => none
  | '-' :: rest =>
    let term := rest.takeWhile isIdChar
    match rest.dropWhile isIdChar with
    | '?' :: after => if term.isEmpty then none else some (some ⟨String.ofList term⟩, after)
    | _ => none
  | _ => none

/-- Whether a text begins as a tag name does. -/
def startsName : List Char → Bool
  | [] => false
  | c :: _ => isNameStart c

/-- The arrows and names that open a text.  Where an arrow is not followed by a name, there are
none, and what remains is the text after the characters that take the place of the name. -/
def readSegments (text : List Char) : Option (List String) × List Char :=
  match text with
  | '-' :: '>' :: rest =>
    if startsName rest then
      let (names, after) := readSegments (rest.dropWhile isNameChar)
      (names.map (String.ofList (rest.takeWhile isNameChar) :: ·), after)
    else (none, rest.dropWhile isNameChar)
  | _ => (some [], text)
termination_by text.length
decreasing_by
  have := (List.dropWhile_suffix isNameChar (l := rest)).length_le
  simp only [List.length_cons]
  omega

/-- The token of a text that begins as a tag name does. -/
def scanWord (text : List Char) : Scan :=
  let word := String.ofList (text.takeWhile isNameChar)
  let after := text.dropWhile isNameChar
  match reservedToken? word with
  | some token => .token token after
  | none =>
    match readMark? after with
    | some (term, rest) => .token (.relationship ⟨word, term⟩) rest
    | none =>
      match readSegments after with
      | (some names, rest) => .token (Token.ofPath ⟨word, names⟩) rest
      | (none, rest) => .stopped ⟨.invalidLiteral (partBefore text rest), text, rest⟩

/-! ### Numbers, dates and times -/

/-- The token of a text that begins with a number. -/
def scanNumber (text : List Char) : Scan :=
  let (decimal, after) := Decimal.read text
  let unit := after.takeWhile isUnitChar
  let unit? := if unit.isEmpty then none else some (String.ofList unit)
  .token (.value (.number ⟨.ofDecimal decimal, unit?⟩)) (after.dropWhile isUnitChar)

/-- The fields of a date that opens a text, and what follows. -/
def readDate? : List Char → Option ((Nat × Nat × Nat) × List Char)
  | y₁ :: y₂ :: y₃ :: y₄ :: '-' :: m₁ :: m₂ :: '-' :: d₁ :: d₂ :: rest =>
    if [y₁, y₂, y₃, y₄, m₁, m₂, d₁, d₂].all Char.isDigit then
      some ((wholeNumber [y₁, y₂, y₃, y₄], wholeNumber [m₁, m₂], wholeNumber [d₁, d₂]), rest)
    else none
  | _ => none

/-- The nanoseconds of a fraction of a second; digits after the ninth do not count. -/
def nanoseconds (digits : List Char) : Nat :=
  wholeNumber ((digits ++ List.replicate 9 '0').take 9)

/-- The fraction of a second that opens a text in nanoseconds, and what follows. -/
def readSecondFraction : List Char → Nat × List Char
  | '.' :: d :: rest =>
    if d.isDigit then
      (nanoseconds ((d :: rest).takeWhile Char.isDigit), (d :: rest).dropWhile Char.isDigit)
    else (0, '.' :: d :: rest)
  | text => (0, text)

/-- The seconds that open a text, with the nanoseconds, and what follows. -/
def readSeconds : List Char → (Nat × Nat) × List Char
  | ':' :: s₁ :: s₂ :: rest =>
    if s₁.isDigit && s₂.isDigit then
      let (fraction, after) := readSecondFraction rest
      ((wholeNumber [s₁, s₂], fraction), after)
    else ((0, 0), ':' :: s₁ :: s₂ :: rest)
  | text => ((0, 0), text)

/-- The fields of a time of day that opens a text, and what follows. -/
def readTime? : List Char → Option ((Nat × Nat × Nat × Nat) × List Char)
  | h₁ :: h₂ :: ':' :: m₁ :: m₂ :: rest =>
    if [h₁, h₂, m₁, m₂].all Char.isDigit then
      let ((second, fraction), after) := readSeconds rest
      some ((wholeNumber [h₁, h₂], wholeNumber [m₁, m₂], second, fraction), after)
    else none
  | _ => none

/-- The token of a literal whose fields may name nothing. -/
def scanFields (text rest : List Char) (value? : Option Value) : Scan :=
  match value? with
  | some value => .token (.value value) rest
  | none => .stopped ⟨.invalidLiteral (partBefore text rest), text, rest⟩

/-- The token of a text that begins with a digit: a date, a time or a number. -/
def scanDigits (text : List Char) : Scan :=
  match readDate? text with
  | some ((year, month, day), rest) =>
    scanFields text rest ((Date.ofFields? year month day).map .date)
  | none =>
    match readTime? text with
    | some ((hour, minute, second, fraction), rest) =>
      scanFields text rest ((TimeOfDay.ofWritten? hour minute second fraction).map .time)
    | none => scanNumber text

/-! ### Quoted literals -/

/-- The character that a single letter stands for after a backslash. -/
def escaped? (c : Char) : Option Char :=
  if c = 'n' then some '\n'
  else if c = 'r' then some '\r'
  else if c = 't' then some '\t'
  else if c = 'b' then some '\x08'
  else if c = 'f' then some '\x0c'
  else if c = doubleQuote ∨ c = backslash ∨ c = '$' ∨ c = backQuote then some c
  else none

/-- The character with a code point given by four hexadecimal digits. -/
def codePoint? (a b c d : Char) : Option Char :=
  if isHexDigit a && isHexDigit b && isHexDigit c && isHexDigit d then
    let n := ((hexValue a * 16 + hexValue b) * 16 + hexValue c) * 16 + hexValue d
    if n.isValidChar then some (Char.ofNat n) else none
  else none

/-- The first bytes of a text up to a number of them, unless a character would be cut. -/
def firstBytes? : Nat → List Char → Option (List Char)
  | 0, _ => some []
  | _ + 1, [] => some []
  | n + 1, c :: rest =>
    if c.utf8Size ≤ n + 1 then (firstBytes? (n + 1 - c.utf8Size) rest).map (c :: ·) else none
termination_by _ text => text

/-- The fault of a code point escape: the text of a whole escape, as far as it goes. -/
def badCodePoint (escape rest : List Char) : Stop :=
  ⟨.invalidLiteral ((firstBytes? 6 escape).getD [backslash, 'u']), escape, rest⟩

/-- The text of a string literal after its opening quote, and what follows the closing quote.
`literal` is the text from the opening quote on. -/
def readString (literal : List Char) : List Char → Except Stop (List Char × List Char)
  | [] => .error ⟨.unterminatedLiteral, literal, []⟩
  | c :: rest =>
    if c = doubleQuote then .ok ([], rest)
    else if c = backslash then
      match rest with
      | [] => .error ⟨.unterminatedLiteral, literal, []⟩
      | e :: rest =>
        if e = 'u' then
          match rest with
          | h₁ :: h₂ :: h₃ :: h₄ :: after =>
            match codePoint? h₁ h₂ h₃ h₄ with
            | some c => (readString literal after).map fun (text, after) => (c :: text, after)
            | none =>
              .error (badCodePoint (c :: e :: h₁ :: h₂ :: h₃ :: h₄ :: after)
                (h₁ :: h₂ :: h₃ :: h₄ :: after))
          | rest => .error (badCodePoint (c :: e :: rest) rest)
        else
          match escaped? e with
          | some c => (readString literal rest).map fun (text, after) => (c :: text, after)
          | none => .error ⟨.invalidLiteral [c, e], c :: e :: rest, rest⟩
    else (readString literal rest).map fun (text, after) => (c :: text, after)

/-- The text of a uri literal after its opening quote, and what follows the closing quote.  A
backslash in front of anything but a backquote or a backslash stands for itself. -/
def readUri (literal : List Char) : List Char → Except Stop (List Char × List Char)
  | [] => .error ⟨.unterminatedLiteral, literal, []⟩
  | c :: rest =>
    if c = backQuote then .ok ([], rest)
    else if c = backslash then
      match rest with
      | [] => .error ⟨.unterminatedLiteral, literal, []⟩
      | e :: after =>
        if e = backQuote ∨ e = backslash then
          (readUri literal after).map fun (text, after) => (e :: text, after)
        else (readUri literal (e :: after)).map fun (text, after) => (c :: text, after)
    else (readUri literal rest).map fun (text, after) => (c :: text, after)

/-- The token of a quoted literal that has been read. -/
def scanQuoted (value : String → Value) (read : Except Stop (List Char × List Char)) : Scan :=
  match read with
  | .ok (text, rest) => .token (.value (value (String.ofList text))) rest
  | .error stop => .stopped stop

/-! ### Marked names and operators -/

/-- The token of a text that begins with the mark of a ref or a symbol. -/
def scanMarked (value : String → Value) (mark : Char) (rest : List Char) : Scan :=
  let name := rest.takeWhile isIdChar
  if name.isEmpty then .stopped ⟨.invalidLiteral [mark], mark :: rest, rest⟩
  else .token (.value (value (String.ofList name))) (rest.dropWhile isIdChar)

/-- The operator that opens a text, and what follows. -/
def readOperator? : List Char → Option (Token × List Char)
  | '*' :: '=' :: '=' :: rest => some (.wildcard, rest)
  | '=' :: '=' :: rest => some (.comparison .equal, rest)
  | '!' :: '=' :: rest => some (.comparison .notEqual, rest)
  | '<' :: '=' :: rest => some (.comparison .atMost, rest)
  | '>' :: '=' :: rest => some (.comparison .atLeast, rest)
  | '<' :: rest => some (.comparison .less, rest)
  | '>' :: rest => some (.comparison .greater, rest)
  | _ => none

/-- The token of a text that begins with a minus sign: a negative number. -/
def scanNegative (rest : List Char) : Scan :=
  match rest with
  | 'I' :: 'N' :: 'F' :: after => .token (.value (.number ⟨.infinite true, none⟩)) after
  | _ =>
    if Decimal.startsWithDigit rest then scanNumber ('-' :: rest)
    else .stopped ⟨.unexpectedCharacter '-', '-' :: rest, '-' :: rest⟩

/-- The token of a text that begins with an operator, or with no token at all. -/
def scanOther (c : Char) (rest : List Char) : Scan :=
  match readOperator? (c :: rest) with
  | some (token, after) => .token token after
  | none => .stopped ⟨.unexpectedCharacter c, c :: rest, c :: rest⟩

/-! ### Whole texts -/

/-- What is found at the front of a text that does not begin with a blank. -/
def scanSolid : List Char → Scan
  | [] => .finished
  | c :: rest =>
    if c = '(' then .token .opening rest
    else if c = ')' then .token .closing rest
    else if c = doubleQuote then scanQuoted .str (readString (c :: rest) rest)
    else if c = backQuote then scanQuoted (fun text => .uri ⟨text⟩) (readUri (c :: rest) rest)
    else if c = '@' then scanMarked (fun id => .ref ⟨id, none⟩) c rest
    else if c = '^' then scanMarked (fun name => .symbol ⟨name⟩) c rest
    else if c = '-' then scanNegative rest
    else if c.isDigit then scanDigits (c :: rest)
    else if isNameStart c then scanWord (c :: rest)
    else scanOther c rest

/-- How a text is read is decided by its first character. -/
inductive ReaderOf (c : Char) : Prop where
  | opening (h : ∀ rest, scanSolid (c :: rest) = .token .opening rest)
  | closing (h : ∀ rest, scanSolid (c :: rest) = .token .closing rest)
  | string (h : ∀ rest, scanSolid (c :: rest) = scanQuoted .str (readString (c :: rest) rest))
  | uri (h : ∀ rest, scanSolid (c :: rest) =
      scanQuoted (fun text => .uri ⟨text⟩) (readUri (c :: rest) rest))
  | ref (h : ∀ rest, scanSolid (c :: rest) = scanMarked (fun id => .ref ⟨id, none⟩) c rest)
  | symbol (h : ∀ rest, scanSolid (c :: rest) = scanMarked (fun name => .symbol ⟨name⟩) c rest)
  | negative (hc : c = '-') (h : ∀ rest, scanSolid (c :: rest) = scanNegative rest)
  | digits (hc : c.isDigit = true) (h : ∀ rest, scanSolid (c :: rest) = scanDigits (c :: rest))
  | word (hc : isNameStart c = true) (h : ∀ rest, scanSolid (c :: rest) = scanWord (c :: rest))
  | other (h : ∀ rest, scanSolid (c :: rest) = scanOther c rest)

theorem readerOf (c : Char) : ReaderOf c := by
  by_cases h₁ : c = '('
  · exact .opening fun _ => by rw [scanSolid, if_pos h₁]
  by_cases h₂ : c = ')'
  · exact .closing fun _ => by rw [scanSolid, if_neg h₁, if_pos h₂]
  by_cases h₃ : c = doubleQuote
  · exact .string fun _ => by rw [scanSolid, if_neg h₁, if_neg h₂, if_pos h₃]
  by_cases h₄ : c = backQuote
  · exact .uri fun _ => by rw [scanSolid, if_neg h₁, if_neg h₂, if_neg h₃, if_pos h₄]
  by_cases h₅ : c = '@'
  · refine .ref fun _ => ?_
    rw [scanSolid, if_neg h₁, if_neg h₂, if_neg h₃, if_neg h₄, if_pos h₅]
  by_cases h₆ : c = '^'
  · refine .symbol fun _ => ?_
    rw [scanSolid, if_neg h₁, if_neg h₂, if_neg h₃, if_neg h₄, if_neg h₅, if_pos h₆]
  by_cases h₇ : c = '-'
  · refine .negative h₇ fun _ => ?_
    rw [scanSolid, if_neg h₁, if_neg h₂, if_neg h₃, if_neg h₄, if_neg h₅, if_neg h₆, if_pos h₇]
  by_cases h₈ : c.isDigit = true
  · refine .digits h₈ fun _ => ?_
    rw [scanSolid, if_neg h₁, if_neg h₂, if_neg h₃, if_neg h₄, if_neg h₅, if_neg h₆, if_neg h₇,
      if_pos h₈]
  by_cases h₉ : isNameStart c = true
  · refine .word h₉ fun _ => ?_
    rw [scanSolid, if_neg h₁, if_neg h₂, if_neg h₃, if_neg h₄, if_neg h₅, if_neg h₆, if_neg h₇,
      if_neg h₈, if_pos h₉]
  · refine .other fun _ => ?_
    rw [scanSolid, if_neg h₁, if_neg h₂, if_neg h₃, if_neg h₄, if_neg h₅, if_neg h₆, if_neg h₇,
      if_neg h₈, if_neg h₉]

/-- What is found at the front of a text. -/
def scan (text : List Char) : Scan :=
  scanSolid (text.dropWhile isBlank)

end TagFilter
