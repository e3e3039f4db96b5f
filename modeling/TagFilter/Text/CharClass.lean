/-!
# Character classes

The sets of characters that decide where a word, an id, a unit or a run of blanks ends.  Letters
and digits are those of ASCII; blanks and control characters follow the Unicode properties
`White_Space` and `Cc`, given here as their complete ranges.
-/

namespace TagFilter

/-- A letter or digit of ASCII, or one of `_ : - . ~`: the alphabet of ref ids and symbol names. -/
def isIdChar (c : Char) : Bool :=
  c.isAlphanum || c == '_' || c == ':' || c == '-' || c == '.' || c == '~'

/-- A letter of ASCII, one of `% _ / $`, or any character outside ASCII: the alphabet of units. -/
def isUnitChar (c : Char) : Bool :=
  c.isAlpha || c == '%' || c == '_' || c == '/' || c == '$' || 128 ≤ c.toNat

/-- The characters that may open a tag name. -/
def isNameStart (c : Char) : Bool :=
  c.isAlpha || c == '_'

/-- The characters that may continue a tag name. -/
def isNameChar (c : Char) : Bool :=
  c.isAlphanum || c == '_'

/-- The digits of a number, which may be grouped by underscores. -/
def isDigitOrGroup (c : Char) : Bool :=
  c.isDigit || c == '_'

/-- A digit to the base sixteen, in either case. -/
def isHexDigit (c : Char) : Bool :=
  c.isDigit || ('a' ≤ c && c ≤ 'f') || ('A' ≤ c && c ≤ 'F')

/-- The Unicode property `White_Space`. -/
def isBlank (c : Char) : Bool :=
  let n := c.toNat
  (9 ≤ n && n ≤ 13) || n == 0x20 || n == 0x85 || n == 0xA0 || n == 0x1680
    || (0x2000 ≤ n && n ≤ 0x200A) || n == 0x2028 || n == 0x2029 || n == 0x202F || n == 0x205F
    || n == 0x3000

/-- The Unicode category `Cc`: the two blocks of control codes. -/
def isControl (c : Char) : Bool :=
  c.toNat < 0x20 || (0x7F ≤ c.toNat && c.toNat ≤ 0x9F)

/-- The value of a hexadecimal digit; other characters count as zero. -/
def hexValue (c : Char) : Nat :=
  if c.isDigit then c.toNat - '0'.toNat
  else if 'a' ≤ c && c ≤ 'f' then c.toNat - 'a'.toNat + 10
  else if 'A' ≤ c && c ≤ 'F' then c.toNat - 'A'.toNat + 10
  else 0

/-- A character that opens a name may also continue one. -/
theorem isNameChar_of_isNameStart {c : Char} (h : isNameStart c = true) : isNameChar c = true := by
  simp only [isNameStart, isNameChar, Char.isAlphanum, Bool.or_eq_true] at h ⊢
  rcases h with h | h
  · exact Or.inl (Or.inl h)
  · exact Or.inr h

/-- A character of a name is a character of an id. -/
theorem isIdChar_of_isNameChar {c : Char} (h : isNameChar c = true) : isIdChar c = true := by
  simp only [isNameChar, isIdChar, Bool.or_eq_true] at h ⊢
  rcases h with h | h
  · exact Or.inl (Or.inl (Or.inl (Or.inl (Or.inl h))))
  · exact Or.inl (Or.inl (Or.inl (Or.inl (Or.inr h))))

end TagFilter
