import TagFilter.Filter.Text
import TagFilter.Token.Reading

/-!
# Partial filters

A partial filter is what a list of tokens amounts to before its end is known: the groups that are
open, the finished terms of each, and the term that is being read.  `PartialFilter.step` reads one
more token, and `PartialFilter.finish` asks for the filter at the end.  `PartialFilter.readAll`
reads a list of tokens, and `PartialFilter.readFrom` the tokens at a cursor, one after the other.

A token is refused either at once, or only when the token after it has been looked at; the two
differ when the text after the token is faulty.
-/

namespace TagFilter

/-- The finished part of a filter: whole conjunctions and the terms of the conjunction that is
being read, the latest first. -/
structure Level where
  /-- The finished conjunctions. -/
  alternatives : List Conjunction
  /-- The finished terms of the last conjunction. -/
  terms : List Term

/-- A term that is being read. -/
inductive Pending where
  /-- Nothing of the term has been read. -/
  | start
  /-- The word that negates a path. -/
  | negation
  /-- A negated path. -/
  | negated (p : Path)
  /-- A path. -/
  | path (p : Path)
  /-- A path and a comparison operator. -/
  | comparison (p : Path) (op : Comparison)
  /-- A path and the wildcard operator. -/
  | wildcard (p : Path)
  /-- A relationship, which a term and a ref may follow. -/
  | relationship (r : Relationship)
  /-- A relationship and a term after it, which a ref may follow. -/
  | qualified (r : Relationship)
  /-- A term to which nothing can be added. -/
  | complete (t : Term)

/-- What has been read of a filter. -/
structure PartialFilter where
  /-- The levels around the innermost open group, from inside out. -/
  outer : List Level
  /-- The innermost level. -/
  level : Level
  /-- The term that is being read. -/
  pending : Pending

/-- The refusal of a token. -/
structure Refusal where
  /-- The error. -/
  error : SyntaxError
  /-- Whether the token is refused only when the one after it has been looked at. -/
  late : Bool

/-- The level of which nothing has been read. -/
def Level.start : Level := ⟨[], []⟩

/-- The level with one more term in its last conjunction. -/
def Level.addTerm (l : Level) (t : Term) : Level :=
  ⟨l.alternatives, t :: l.terms⟩

/-- The level with its last conjunction finished. -/
def Level.finishConjunction (l : Level) : Level :=
  ⟨l.terms.reverse :: l.alternatives, []⟩

/-- The filter of a level whose last conjunction is finished. -/
def Level.toFilter (l : Level) : Filter :=
  l.alternatives.reverse

/-- The filter of a level that ends with a term. -/
def Level.close (l : Level) (t : Term) : Filter :=
  (l.addTerm t).finishConjunction.toFilter

/-- The term that has been read, if nothing more is needed for it. -/
def Pending.term? : Pending → Option Term
  | .negated p => some (.test (.missing p))
  | .path p => some (.test (.has p))
  | .relationship r => some (.test (.related r none))
  | .qualified r => some (.test (.related r none))
  | .complete t => some t
  | _ => none

/-- A refusal at once. -/
def refuse (error : SyntaxError) : Except Refusal PartialFilter :=
  .error ⟨error, false⟩

/-- A refusal after a look at the next token. -/
def refuseLate (error : SyntaxError) : Except Refusal PartialFilter :=
  .error ⟨error, true⟩

namespace PartialFilter

/-- The partial filter of which nothing has been read. -/
def start : PartialFilter := ⟨[], .start, .start⟩

/-- The partial filter with another term being read. -/
def withPending (s : PartialFilter) (pending : Pending) : Except Refusal PartialFilter :=
  .ok ⟨s.outer, s.level, pending⟩

/-- The partial filter with a complete test. -/
def withTest (s : PartialFilter) (t : Test) : Except Refusal PartialFilter :=
  s.withPending (.complete (.test t))

/-- Reads the first token of a term. -/
def beginTerm (s : PartialFilter) : Token → Except Refusal PartialFilter
  | .not => s.withPending .negation
  | .opening => .ok ⟨s.level :: s.outer, .start, .start⟩
  | .name text => s.withPending (.path (Path.single text))
  | .path p => s.withPending (.path p)
  | .relationship r => s.withPending (.relationship r)
  | .value (.symbol type) => s.withTest (.isA type)
  | .wildcard => refuseLate .wildcardWithoutPath
  | token => refuseLate (.unexpectedToken token.toText)

/-- Reads the token after a term. -/
def afterTerm (s : PartialFilter) (t : Term) : Token → Except Refusal PartialFilter
  | .and => .ok ⟨s.outer, s.level.addTerm t, .start⟩
  | .or => .ok ⟨s.outer, (s.level.addTerm t).finishConjunction, .start⟩
  | .closing =>
    match s.outer with
    | [] => refuse (.unexpectedToken (Token.toText .closing))
    | level :: outer => .ok ⟨outer, level, .complete (.group (s.level.close t))⟩
  | token => refuse (.unexpectedToken token.toText)

/-- Reads a token. -/
def step (s : PartialFilter) (token : Token) : Except Refusal PartialFilter :=
  match s.pending with
  | .start => s.beginTerm token
  | .negation =>
    match token.path? with
    | some p => s.withPending (.negated p)
    | none => refuse (.negatedOther token.toText)
  | .negated p =>
    match token with
    | .comparison op => refuse (.negatedOther (p.toText ++ " " ++ op.toText))
    | .wildcard => refuse (.negatedOther (p.toText ++ " " ++ Token.toText .wildcard))
    | token => s.afterTerm (.test (.missing p)) token
  | .path p =>
    match token with
    | .comparison op => s.withPending (.comparison p op)
    | .wildcard => s.withPending (.wildcard p)
    | token => s.afterTerm (.test (.has p)) token
  | .comparison p op =>
    match token with
    | .value operand => s.withTest (.compare p op operand)
    | token => refuseLate (.comparisonOperand token.toText)
  | .wildcard p =>
    match token with
    | .value (.ref target) => s.withTest (.reaches p target)
    | token => refuseLate (.wildcardOperand token.toText)
  | .relationship r =>
    match token with
    | .value (.symbol term) =>
      if r.term.isSome then refuse (.secondTerm r.name)
      else s.withPending (.qualified ⟨r.name, some term⟩)
    | .value (.ref target) => s.withTest (.related r (some target))
    | token => s.afterTerm (.test (.related r none)) token
  | .qualified r =>
    match token with
    | .value (.ref target) => s.withTest (.related r (some target))
    | token => s.afterTerm (.test (.related r none)) token
  | .complete t => s.afterTerm t token

/-- Whether nothing has been read. -/
def isStart (s : PartialFilter) : Bool :=
  match s.pending with
  | .start => s.outer.isEmpty && s.level.alternatives.isEmpty && s.level.terms.isEmpty
  | _ => false

/-- The filter that has been read, at the end of the input. -/
def finish (s : PartialFilter) : Except SyntaxError Filter :=
  match s.pending.term? with
  | some t => if s.outer.isEmpty then .ok (s.level.close t) else .error .unclosedGroup
  | none => .error (if s.isStart then .emptyFilter else .unexpectedEnd)

/-- Reads tokens to their end, which may be a fault of the text they come from. -/
def readAll (fault : Option SyntaxError) (s : PartialFilter) : List Token →
    Except SyntaxError Filter
  | [] =>
    match fault with
    | some error => .error error
    | none => s.finish
  | token :: tokens =>
    match s.step token with
    | .ok s => readAll fault s tokens
    | .error refusal =>
      .error (if refusal.late && tokens.isEmpty then fault.getD refusal.error else refusal.error)

/-! ### Reading from a cursor -/

/-- Reads a filter from the tokens at a cursor, each of which is asked for when it is needed.  A
token that is refused late needs the one after it. -/
def readFrom (s : PartialFilter) (c : Cursor) : Except SyntaxError Filter :=
  match _h : c.next with
  | (.error error, _) => .error error
  | (.ok token, after) =>
    if _hend : token.isEnd = true then s.finish
    else
      match s.step token with
      | .ok next => next.readFrom after
      | .error refusal =>
        .error (if refusal.late then after.fault?.getD refusal.error else refusal.error)
termination_by c.rest.length
decreasing_by exact Cursor.next_shorter ‹_› ‹_›

end PartialFilter

/-- The filter that a list of tokens writes.  The end of the input ends the list wherever it
stands. -/
def Filter.ofTokens? (tokens : List Token) : Except SyntaxError Filter :=
  PartialFilter.start.readAll none (tokens.takeWhile fun token => !token.isEnd)

/-- The filter that a text writes. -/
def Filter.ofText? (text : String) : Except SyntaxError Filter :=
  PartialFilter.start.readFrom (Cursor.ofText text)

end TagFilter
