import TagFilter.Token.Progress

/-!
# Texts as lists of tokens

`readTokens` reads a text up to its end or its first fault, and `tokenize` asks for the whole text.
`Cursor` reads one token at a time and can go on after a fault.
-/

namespace TagFilter

/-- The tokens that open a text, and the place where reading stops if that is not the end. -/
def readChars (text : List Char) : List Token × Option Stop :=
  match _h : scan text with
  | .finished => ([], none)
  | .token token rest =>
    let (tokens, stop) := readChars rest
    (token :: tokens, stop)
  | .stopped stop => ([], some stop)
termination_by text.length
decreasing_by exact scan_shorter ‹_›

/-- The tokens of a text up to its end or its first fault, and the error of that fault. -/
def readTokens (text : String) : List Token × Option SyntaxError :=
  let (tokens, stop) := readChars text.toList
  (tokens, stop.map (Stop.toError text.toList))

/-- The tokens of a text. -/
def tokenize (text : String) : Except SyntaxError (List Token) :=
  match readTokens text with
  | (tokens, none) => .ok tokens
  | (_, some error) => .error error

/-- A place in a text from which tokens are read. -/
structure Cursor where
  /-- The text. -/
  text : List Char
  /-- What remains of it. -/
  rest : List Char

namespace Cursor

/-- The place at the front of a text. -/
def ofText (text : String) : Cursor :=
  ⟨text.toList, text.toList⟩

/-- The position of a place, in bytes. -/
def position (c : Cursor) : Nat :=
  positionOf c.text c.rest

/-- The next token or error, and the place after it.  At the end of the text the token is the end
of the input, again and again. -/
def next (c : Cursor) : Except SyntaxError Token × Cursor :=
  match scan c.rest with
  | .finished => (.ok .endOfInput, ⟨c.text, []⟩)
  | .token token rest => (.ok token, ⟨c.text, rest⟩)
  | .stopped stop => (.error (stop.toError c.text), ⟨c.text, stop.rest⟩)

/-- The answers of a number of calls for the next token. -/
def calls (c : Cursor) : Nat → List (Except SyntaxError Token)
  | 0 => []
  | n + 1 =>
    let (answer, c) := c.next
    answer :: c.calls n

/-- The error of the next call, if it has one. -/
def fault? (c : Cursor) : Option SyntaxError :=
  match c.next.1 with
  | .error error => some error
  | .ok _ => none

variable {c : Cursor}

theorem next_finished (h : scan c.rest = .finished) :
    c.next = (.ok .endOfInput, ⟨c.text, []⟩) := by
  rw [next, h]

theorem next_token {token : Token} {rest : List Char} (h : scan c.rest = .token token rest) :
    c.next = (.ok token, ⟨c.text, rest⟩) := by
  rw [next, h]

theorem next_stopped {stop : Stop} (h : scan c.rest = .stopped stop) :
    c.next = (.error (stop.toError c.text), ⟨c.text, stop.rest⟩) := by
  rw [next, h]

/-- A token takes up a part of what remains of the text. -/
theorem next_shorter {token : Token} {after : Cursor} (h : c.next = (.ok token, after))
    (hend : ¬ token.isEnd = true) : after.rest.length < c.rest.length := by
  cases hscan : scan c.rest with
  | finished =>
    rw [next_finished hscan] at h
    cases h
    exact absurd rfl hend
  | token other rest =>
    rw [next_token hscan] at h
    cases h
    exact scan_shorter hscan
  | stopped stop =>
    rw [next_stopped hscan] at h
    cases h

end Cursor

theorem readChars_finished {text : List Char} (h : scan text = .finished) :
    readChars text = ([], none) := by
  rw [readChars]
  split <;> simp_all

theorem readChars_token {text rest : List Char} {token : Token}
    (h : scan text = .token token rest) :
    readChars text = (token :: (readChars rest).1, (readChars rest).2) := by
  rw [readChars]
  split <;> simp_all

theorem readChars_stopped {text : List Char} {stop : Stop} (h : scan text = .stopped stop) :
    readChars text = ([], some stop) := by
  rw [readChars]
  split <;> simp_all

/-- The next call has an error when no token stands in front of the fault. -/
theorem Cursor.fault?_eq (c : Cursor) :
    c.fault? = if (readChars c.rest).1.isEmpty then
      (readChars c.rest).2.map (Stop.toError c.text) else none := by
  unfold fault?
  cases hscan : scan c.rest with
  | finished => rw [next_finished hscan, readChars_finished hscan]; rfl
  | token token rest => rw [next_token hscan, readChars_token hscan]; rfl
  | stopped stop => rw [next_stopped hscan, readChars_stopped hscan]; rfl

/-- The first of the tokens is found at the front of the text, and the others behind it. -/
theorem scan_of_readChars_cons {text : List Char} {token : Token} {tokens : List Token}
    {stop : Option Stop} (h : readChars text = (token :: tokens, stop)) :
    ∃ rest, scan text = .token token rest ∧ readChars rest = (tokens, stop) := by
  cases hscan : scan text with
  | finished =>
    rw [readChars_finished hscan] at h
    cases h
  | token other rest =>
    rw [readChars_token hscan] at h
    obtain ⟨htokens, hstop⟩ := Prod.mk.inj h
    obtain ⟨rfl, hrest⟩ := List.cons.inj htokens
    exact ⟨rest, rfl, Prod.ext hrest hstop⟩
  | stopped other =>
    rw [readChars_stopped hscan] at h
    cases h

/-- Without tokens there are only blanks, or a fault. -/
theorem scan_of_readChars_nil {text : List Char} {stop : Option Stop}
    (h : readChars text = ([], stop)) : scan text = stop.elim .finished .stopped := by
  cases hscan : scan text with
  | finished =>
    rw [readChars_finished hscan] at h
    cases h
    rfl
  | token other rest =>
    rw [readChars_token hscan] at h
    cases h
  | stopped other =>
    rw [readChars_stopped hscan] at h
    cases h
    rfl

end TagFilter
