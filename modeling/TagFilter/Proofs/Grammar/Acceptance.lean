import TagFilter.Proofs.Grammar.Reading

/-!
# Filters of lists of tokens

`Filter.ofTokens?` accepts exactly the lists that the grammar derives, and returns the tree of
their derivation (`ofTokens?_eq_ok_iff_derivation`).

That nothing else is accepted rests on an invariant of partial filters.  A partial filter *spells*
the tokens that it was read from: the finished terms and conjunctions of each open group have
derivations, and so has the term that is being read, as far as it goes.  A step keeps this
(`PartialFilter.Spells.step`), and the end of the input turns it into a derivation of the whole
(`PartialFilter.Spells.finish`).
-/

namespace TagFilter

/-- The tokens of some clauses, each with `or` after it. -/
def clauseTokens (clauses : List Clause) : List Token :=
  clauses.flatMap fun c => c.tokens ++ [.or]

/-- The tokens of some phrases, each with `and` after it. -/
def phraseTokens (phrases : List Phrase) : List Token :=
  phrases.flatMap fun p => p.tokens ++ [.and]

/-! ### What has been read -/

/-- The finished part of a level has derivations with the given tokens. -/
inductive Level.Spells : Level → List Token → Prop where
  | intro (clauses : List Clause) (phrases : List Phrase) :
    Spells ⟨(clauses.map Clause.terms).reverse, (phrases.map Phrase.term).reverse⟩
      (clauseTokens clauses ++ phraseTokens phrases)

/-- The levels around an open group have derivations with the given tokens. -/
inductive OuterSpells : List Level → List Token → Prop where
  | nil : OuterSpells [] []
  | cons {level : Level} {outer : List Level} {xs ys : List Token} (houter : OuterSpells outer xs)
    (hlevel : level.Spells ys) : OuterSpells (level :: outer) (xs ++ ys ++ [.opening])

/-- A pending term has been read from the given tokens. -/
inductive Pending.Spells : Pending → List Token → Prop where
  | start : Spells .start []
  | negation : Spells .negation [.not]
  | negated (w : PathWord) : Spells (.negated w.toPath) [.not, w.token]
  | path (w : PathWord) : Spells (.path w.toPath) [w.token]
  | comparison (w : PathWord) (op : Comparison) :
    Spells (.comparison w.toPath op) [w.token, .comparison op]
  | wildcard (w : PathWord) : Spells (.wildcard w.toPath) [w.token, .wildcard]
  | relationship (r : Relationship) : Spells (.relationship r) [.relationship r]
  | qualified (name : String) (type : Symbol) :
    Spells (.qualified ⟨name, some type⟩) [.relationship ⟨name, none⟩, .value (.symbol type)]
  | complete (p : Phrase) : Spells (.complete p.term) p.tokens

/-- A partial filter has been read from the given tokens. -/
inductive PartialFilter.Spells : PartialFilter → List Token → Prop where
  | intro {outer : List Level} {level : Level} {pending : Pending} {xs ys zs : List Token}
    (houter : OuterSpells outer xs) (hlevel : level.Spells ys) (hpending : pending.Spells zs) :
    Spells ⟨outer, level, pending⟩ (xs ++ ys ++ zs)

/-! ### Levels -/

theorem Level.Spells.start : Level.start.Spells [] :=
  .intro [] []

theorem Level.Spells.addTerm {l : Level} {xs : List Token} (h : l.Spells xs) (p : Phrase) :
    (l.addTerm p.term).Spells (xs ++ p.tokens ++ [.and]) := by
  obtain ⟨clauses, phrases⟩ := h
  have hspells := Level.Spells.intro clauses (phrases ++ [p])
  simp only [phraseTokens, List.map_append, List.map_cons, List.map_nil, List.reverse_append,
    List.reverse_cons, List.reverse_nil, List.nil_append, List.cons_append, List.flatMap_append,
    List.flatMap_cons, List.flatMap_nil, List.append_nil] at hspells
  simp only [Level.addTerm, phraseTokens, List.append_assoc]
  exact hspells

/-- The finished terms of a level and one more make up a clause. -/
theorem Level.Spells.finishConjunction {l : Level} {xs : List Token} (h : l.Spells xs)
    (p : Phrase) : (l.addTerm p.term).finishConjunction.Spells (xs ++ p.tokens ++ [.or]) := by
  obtain ⟨clauses, phrases⟩ := h
  have hspells := Level.Spells.intro (clauses ++ [Clause.ofList phrases p]) []
  simp only [clauseTokens, phraseTokens, List.map_append, List.map_cons, List.map_nil,
    List.reverse_append, List.reverse_cons, List.reverse_nil, List.nil_append, List.cons_append,
    List.flatMap_append, List.flatMap_cons, List.flatMap_nil, List.append_nil, List.append_assoc,
    Clause.terms_ofList, Clause.tokens_ofList] at hspells
  simp only [Level.addTerm, Level.finishConjunction, clauseTokens, phraseTokens,
    List.append_assoc, List.reverse_cons, List.reverse_reverse]
  exact hspells

/-- A level and one more term make up a sentence. -/
theorem Level.Spells.close {l : Level} {xs : List Token} (h : l.Spells xs) (p : Phrase) :
    ∃ s : Sentence, s.tokens = xs ++ p.tokens ∧ s.filter = l.close p.term := by
  obtain ⟨clauses, phrases⟩ := h
  refine ⟨Sentence.ofList clauses (Clause.ofList phrases p), ?_, ?_⟩
  · rw [Sentence.tokens_ofList, Clause.tokens_ofList, clauseTokens, phraseTokens,
      List.append_assoc]
  · rw [Sentence.filter_ofList, Clause.terms_ofList]
    simp only [Level.close, Level.addTerm, Level.finishConjunction, Level.toFilter,
      List.reverse_cons, List.reverse_reverse]

/-- A pending term that is complete has a derivation with the tokens that were read. -/
theorem Pending.Spells.phrase {pending : Pending} {zs : List Token} {t : Term}
    (h : pending.Spells zs) (hterm : pending.term? = some t) :
    ∃ p : Phrase, p.tokens = zs ∧ p.term = t := by
  cases h with
  | start | negation | comparison | wildcard => cases hterm
  | negated w => cases hterm; exact ⟨.missing w, rfl, rfl⟩
  | path w => cases hterm; exact ⟨.has w, rfl, rfl⟩
  | relationship r => cases hterm; exact ⟨.related r none, rfl, rfl⟩
  | qualified name type => cases hterm; exact ⟨.qualified name type none, rfl, rfl⟩
  | complete p => cases hterm; exact ⟨p, rfl, rfl⟩

/-! ### Steps -/

/-- A token that can be read as a path is a word for that path. -/
theorem Token.exists_pathWord {token : Token} {p : Path} (h : token.path? = some p) :
    ∃ w : PathWord, w.token = token ∧ w.toPath = p := by
  cases token <;> cases h
  · exact ⟨.name _, rfl, rfl⟩
  · exact ⟨.path _, rfl, rfl⟩

namespace PartialFilter

variable {outer : List Level} {level : Level} {xs ys : List Token} {s : PartialFilter}
  {token : Token}

/-- Replacing the pending term keeps what is spelled by the rest. -/
theorem Spells.withPending {pending : Pending} {zs zs' : List Token} {next : Pending}
    (houter : OuterSpells outer xs) (hlevel : level.Spells ys) (hnext : next.Spells zs')
    (h : PartialFilter.withPending ⟨outer, level, pending⟩ next = .ok s)
    (hzs : zs ++ [token] = zs') : s.Spells (xs ++ ys ++ zs ++ [token]) := by
  cases h
  rw [List.append_assoc, hzs]
  exact .intro houter hlevel hnext

/-- The first token of a term. -/
theorem Spells.beginTerm (houter : OuterSpells outer xs) (hlevel : level.Spells ys)
    (h : PartialFilter.beginTerm ⟨outer, level, .start⟩ token = .ok s) :
    s.Spells (xs ++ ys ++ [] ++ [token]) := by
  cases token with
  | name text => exact Spells.withPending houter hlevel (.path (.name text)) h rfl
  | path p => exact Spells.withPending houter hlevel (.path (.path p)) h rfl
  | relationship r => exact Spells.withPending houter hlevel (.relationship r) h rfl
  | not => exact Spells.withPending houter hlevel .negation h rfl
  | opening =>
    cases h
    rw [List.append_nil]
    have hspells := Spells.intro (.cons houter hlevel) .start .start
    rwa [List.append_nil, List.append_nil] at hspells
  | value v =>
    cases v with
    | symbol type => exact Spells.withPending houter hlevel (.complete (.isA type)) h rfl
    | _ => cases h
  | and | or | closing | comparison | wildcard | endOfInput => cases h

/-- A token after a term. -/
theorem Spells.afterTerm (pending : Pending) (houter : OuterSpells outer xs)
    (hlevel : level.Spells ys) (p : Phrase)
    (h : PartialFilter.afterTerm ⟨outer, level, pending⟩ p.term token = .ok s) :
    s.Spells (xs ++ ys ++ p.tokens ++ [token]) := by
  cases token with
  | and =>
    cases h
    have hspells := Spells.intro houter (hlevel.addTerm p) .start
    simpa only [List.append_nil, List.append_assoc] using hspells
  | or =>
    cases h
    have hspells := Spells.intro houter (hlevel.finishConjunction p) .start
    simpa only [List.append_nil, List.append_assoc] using hspells
  | closing =>
    cases houter with
    | nil => cases h
    | cons houter hbelow =>
      obtain ⟨body, htokens, hfilter⟩ := hlevel.close p
      cases h
      have hspells := Spells.intro houter hbelow (.complete (.group body))
      simp only [Phrase.term, Phrase.tokens, hfilter, htokens] at hspells
      simpa only [List.append_assoc, List.cons_append, List.nil_append] using hspells
  | name | path | value | relationship | not | opening | comparison | wildcard | endOfInput =>
    cases h

/-- A step keeps what is spelled, with one more token. -/
theorem Spells.step {tokens : List Token} {s' : PartialFilter} (hs : s.Spells tokens)
    (h : s.step token = .ok s') : s'.Spells (tokens ++ [token]) := by
  obtain ⟨houter, hlevel, hpending⟩ := hs
  cases hpending with
  | start => exact Spells.beginTerm houter hlevel h
  | negation =>
    simp only [PartialFilter.step] at h
    split at h
    · next hpath =>
      obtain ⟨w, rfl, rfl⟩ := Token.exists_pathWord hpath
      exact Spells.withPending houter hlevel (.negated w) h rfl
    · cases h
  | negated w =>
    cases token with
    | comparison | wildcard => cases h
    | _ => exact Spells.afterTerm (.negated w.toPath) houter hlevel (.missing w) h
  | path w =>
    cases token with
    | comparison op => exact Spells.withPending houter hlevel (.comparison w op) h rfl
    | wildcard => exact Spells.withPending houter hlevel (.wildcard w) h rfl
    | _ => exact Spells.afterTerm (.path w.toPath) houter hlevel (.has w) h
  | comparison w op =>
    cases token with
    | value operand =>
      exact Spells.withPending houter hlevel (.complete (.compare w op operand)) h rfl
    | _ => cases h
  | wildcard w =>
    cases token with
    | value v =>
      cases v with
      | ref target => exact Spells.withPending houter hlevel (.complete (.reaches w target)) h rfl
      | _ => cases h
    | _ => cases h
  | relationship r =>
    cases token with
    | value v =>
      cases v with
      | symbol type =>
        obtain ⟨name, term⟩ := r
        cases term with
        | none => exact Spells.withPending houter hlevel (.qualified name type) h rfl
        | some term => cases h
      | ref target =>
        exact Spells.withPending houter hlevel (.complete (.related r (some target))) h rfl
      | _ => exact Spells.afterTerm (.relationship r) houter hlevel (.related r none) h
    | _ => exact Spells.afterTerm (.relationship r) houter hlevel (.related r none) h
  | qualified name type =>
    cases token with
    | value v =>
      cases v with
      | ref target =>
        exact Spells.withPending houter hlevel (.complete (.qualified name type (some target))) h
          rfl
      | _ =>
        exact Spells.afterTerm (.qualified ⟨name, some type⟩) houter hlevel
          (.qualified name type none) h
    | _ =>
      exact Spells.afterTerm (.qualified ⟨name, some type⟩) houter hlevel
        (.qualified name type none) h
  | complete p => exact Spells.afterTerm (.complete p.term) houter hlevel p h

theorem Spells.initial : PartialFilter.start.Spells [] :=
  .intro .nil Level.Spells.start .start

/-- A partial filter that can be finished spells a sentence. -/
theorem Spells.finish {tokens : List Token} {f : Filter} (hs : s.Spells tokens)
    (h : s.finish = .ok f) : ∃ d : Sentence, d.tokens = tokens ∧ d.filter = f := by
  obtain ⟨houter, hlevel, hpending⟩ := hs
  simp only [PartialFilter.finish] at h
  split at h
  · next t hterm =>
    obtain ⟨p, rfl, rfl⟩ := hpending.phrase hterm
    cases houter with
    | nil =>
      obtain ⟨d, htokens, hfilter⟩ := hlevel.close p
      cases h
      exact ⟨d, htokens, hfilter⟩
    | cons houter hbelow => cases h
  · cases h

/-- A filter that is read from a partial filter has a derivation from all of the tokens. -/
theorem Spells.readAll {before tokens : List Token} {f : Filter} (hs : s.Spells before)
    (h : s.readAll none tokens = .ok f) :
    ∃ d : Sentence, d.tokens = before ++ tokens ∧ d.filter = f := by
  induction tokens generalizing s before with
  | nil =>
    rw [List.append_nil]
    exact hs.finish h
  | cons token tokens ih =>
    rw [PartialFilter.readAll] at h
    split at h
    · next s' hstep =>
      obtain ⟨d, htokens, hfilter⟩ := ih (hs.step hstep) h
      refine ⟨d, ?_, hfilter⟩
      rw [htokens, List.append_assoc, List.cons_append, List.nil_append]
    · cases h

end PartialFilter

/-- The filters that are read from a list of tokens are the trees of its derivations. -/
theorem readAll_eq_ok_iff {tokens : List Token} {f : Filter} :
    PartialFilter.start.readAll none tokens = .ok f ↔
      ∃ d : Sentence, d.tokens = tokens ∧ d.filter = f := by
  constructor
  · intro h
    exact PartialFilter.Spells.initial.readAll h
  · rintro ⟨d, rfl, rfl⟩
    exact d.readAll_tokens

/-- The tokens before the end of the input. -/
def Token.beforeEnd (tokens : List Token) : List Token :=
  tokens.takeWhile fun token => !token.isEnd

/-- A list of tokens is accepted exactly when the tokens before the end of the input have a
derivation; the filter is the tree of the derivation, and there is only one. -/
theorem ofTokens?_eq_ok_iff_derivation (tokens : List Token) :
    (∀ f : Filter, Filter.ofTokens? tokens = .ok f ↔
      ∃ d : Sentence, d.tokens = Token.beforeEnd tokens ∧ d.filter = f) ∧
    ∀ d e : Sentence, d.tokens = Token.beforeEnd tokens → e.tokens = Token.beforeEnd tokens →
      d = e := by
  constructor
  · intro f
    exact readAll_eq_ok_iff
  · intro d e hd he
    exact Sentence.tokens_inj (hd.trans he.symm)

end TagFilter
