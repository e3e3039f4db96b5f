import TagFilter.Filter.Partial

/-!
# The grammar of filters

The grammar, over tokens, by its derivations:

* a *sentence* is one clause or more, with `or` between them;
* a *clause* is one phrase or more, with `and` between them;
* a *phrase* is a test, or a sentence in parentheses.

A derivation is data.  `tokens` is the list of tokens that it derives, and `Sentence.filter`,
`Clause.terms` and `Phrase.term` are its tree.  `Unambiguous` shows that a list of tokens has at
most one derivation, and `Acceptance` that `Filter.ofTokens?` finds it whenever there is one.
-/

namespace TagFilter

/-- A word that stands for a path: a single name, or several with arrows between them. -/
inductive PathWord where
  /-- A single name. -/
  | name (text : String)
  /-- A path. -/
  | path (p : Path)

/-- The token of a word for a path. -/
def PathWord.token : PathWord → Token
  | .name text => .name text
  | .path p => .path p

/-- The path that a word stands for. -/
def PathWord.toPath : PathWord → Path
  | .name text => Path.single text
  | .path p => p

mutual

/-- A derivation of a term. -/
inductive Phrase where
  /-- The word `not` and a path. -/
  | missing (w : PathWord)
  /-- A sentence in parentheses. -/
  | group (body : Sentence)
  /-- A path. -/
  | has (w : PathWord)
  /-- A path, a comparison operator and a literal. -/
  | compare (w : PathWord) (op : Comparison) (operand : Value)
  /-- A path, the wildcard operator and a ref. -/
  | reaches (w : PathWord) (target : Ref)
  /-- A symbol. -/
  | isA (type : Symbol)
  /-- A relationship, with or without a term in its word, and perhaps a ref. -/
  | related (r : Relationship) (target : Option Ref)
  /-- A relationship without a term in its word, a symbol, and perhaps a ref. -/
  | qualified (name : String) (type : Symbol) (target : Option Ref)

/-- A derivation of a conjunction. -/
inductive Clause where
  /-- A single phrase. -/
  | single (p : Phrase)
  /-- A phrase, the word `and`, and a clause. -/
  | and (p : Phrase) (c : Clause)

/-- A derivation of a filter. -/
inductive Sentence where
  /-- A single clause. -/
  | single (c : Clause)
  /-- A clause, the word `or`, and a sentence. -/
  | or (c : Clause) (s : Sentence)

end

/-- The tokens of an optional ref. -/
def targetTokens : Option Ref → List Token
  | some target => [.value (.ref target)]
  | none => []

/-! ### The tokens of a derivation -/

mutual

/-- The tokens that a phrase derives. -/
def Phrase.tokens : Phrase → List Token
  | .missing w => [.not, w.token]
  | .group body => .opening :: (body.tokens ++ [.closing])
  | .has w => [w.token]
  | .compare w op operand => [w.token, .comparison op, .value operand]
  | .reaches w target => [w.token, .wildcard, .value (.ref target)]
  | .isA type => [.value (.symbol type)]
  | .related r target => .relationship r :: targetTokens target
  | .qualified name type target =>
    .relationship ⟨name, none⟩ :: .value (.symbol type) :: targetTokens target
termination_by structural p => p

/-- The tokens that a clause derives. -/
def Clause.tokens : Clause → List Token
  | .single p => p.tokens
  | .and p c => p.tokens ++ .and :: c.tokens
termination_by structural c => c

/-- The tokens that a sentence derives. -/
def Sentence.tokens : Sentence → List Token
  | .single c => c.tokens
  | .or c s => c.tokens ++ .or :: s.tokens
termination_by structural s => s

end

/-! ### The tree of a derivation -/

mutual

/-- The term that a phrase derives. -/
def Phrase.term : Phrase → Term
  | .missing w => .test (.missing w.toPath)
  | .group body => .group body.filter
  | .has w => .test (.has w.toPath)
  | .compare w op operand => .test (.compare w.toPath op operand)
  | .reaches w target => .test (.reaches w.toPath target)
  | .isA type => .test (.isA type)
  | .related r target => .test (.related r target)
  | .qualified name type target => .test (.related ⟨name, some type⟩ target)
termination_by structural p => p

/-- The terms that a clause derives, in the order of the tokens. -/
def Clause.terms : Clause → List Term
  | .single p => [p.term]
  | .and p c => p.term :: c.terms
termination_by structural c => c

/-- The conjunctions that a sentence derives, in the order of the tokens. -/
def Sentence.filter : Sentence → List (List Term)
  | .single c => [c.terms]
  | .or c s => c.terms :: s.filter
termination_by structural s => s

end

/-! ### Derivations from lists -/

/-- The clause of some phrases and a last one. -/
def Clause.ofList : List Phrase → Phrase → Clause
  | [], last => .single last
  | p :: ps, last => .and p (ofList ps last)

/-- The sentence of some clauses and a last one. -/
def Sentence.ofList : List Clause → Clause → Sentence
  | [], last => .single last
  | c :: cs, last => .or c (ofList cs last)

theorem Clause.tokens_ofList (ps : List Phrase) (last : Phrase) :
    (Clause.ofList ps last).tokens = ps.flatMap (fun p => p.tokens ++ [.and]) ++ last.tokens := by
  induction ps with
  | nil => rfl
  | cons p ps ih =>
    rw [Clause.ofList, Clause.tokens, ih, List.flatMap_cons]
    simp only [List.append_assoc, List.cons_append, List.nil_append]

theorem Clause.terms_ofList (ps : List Phrase) (last : Phrase) :
    (Clause.ofList ps last).terms = ps.map Phrase.term ++ [last.term] := by
  induction ps with
  | nil => rfl
  | cons p ps ih => rw [Clause.ofList, Clause.terms, ih, List.map_cons, List.cons_append]

theorem Sentence.tokens_ofList (cs : List Clause) (last : Clause) :
    (Sentence.ofList cs last).tokens = cs.flatMap (fun c => c.tokens ++ [.or]) ++ last.tokens := by
  induction cs with
  | nil => rfl
  | cons c cs ih =>
    rw [Sentence.ofList, Sentence.tokens, ih, List.flatMap_cons]
    simp only [List.append_assoc, List.cons_append, List.nil_append]

theorem Sentence.filter_ofList (cs : List Clause) (last : Clause) :
    (Sentence.ofList cs last).filter = cs.map Clause.terms ++ [last.terms] := by
  induction cs with
  | nil => rfl
  | cons c cs ih => rw [Sentence.ofList, Sentence.filter, ih, List.map_cons, List.cons_append]

end TagFilter
