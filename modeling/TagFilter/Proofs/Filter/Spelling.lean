import TagFilter.Proofs.Filter.Terms
import TagFilter.Proofs.Grammar.Streaming
import TagFilter.Proofs.Scanner.Words

/-!
# Spelling

A text spells a term, a conjunction or a filter when its tokens have a derivation of it.  Joining
spelled texts by connectives and parentheses spells what the connectives and parentheses make of
their parts, so that a text made from a filter test by test spells the filter in which every test is
replaced by the term that its text spells.
-/

namespace TagFilter

/-- The text is read as a term. -/
def SpellsTerm (text : String) (t : Term) : Prop :=
  ∃ p : Phrase, tokenize text = .ok p.tokens ∧ p.term = t

/-- The text is read as a conjunction. -/
def SpellsConjunction (text : String) (c : Conjunction) : Prop :=
  ∃ d : Clause, tokenize text = .ok d.tokens ∧ d.terms = c

/-- The text is read as a filter. -/
def SpellsFilter (text : String) (f : Filter) : Prop :=
  ∃ d : Sentence, tokenize text = .ok d.tokens ∧ d.filter = f

/-- Tokens in front of a fault are no filter. -/
theorem readAll_some_ne_ok (error : SyntaxError) (s : PartialFilter) (tokens : List Token)
    (f : Filter) : s.readAll (some error) tokens ≠ .ok f := by
  induction tokens generalizing s with
  | nil =>
    intro h
    cases h
  | cons token tokens ih =>
    rw [PartialFilter.readAll]
    split
    · next s' hstep => exact ih s'
    · intro h
      cases h

section Reading

variable {text : String} {tokens : List Token} {f : Filter}

/-- A text writes a filter when it is made of tokens and the filter is read from them. -/
theorem ofText?_eq_ok_iff_exists_tokens :
    Filter.ofText? text = .ok f ↔
      ∃ tokens, tokenize text = .ok tokens ∧ PartialFilter.start.readAll none tokens = .ok f := by
  rw [Filter.ofText?_eq_readAll]
  unfold tokenize
  cases readTokens text with
  | mk tokens fault =>
    cases fault with
    | none =>
      constructor
      · exact fun h => ⟨tokens, rfl, h⟩
      · rintro ⟨_, ⟨⟩, h⟩
        exact h
    | some error =>
      constructor
      · intro h
        exact absurd h (readAll_some_ne_ok error _ tokens f)
      · rintro ⟨_, ⟨⟩, -⟩

/-- What a text writes is what is read from its tokens. -/
theorem ofText?_eq_ok_iff_readAll (h : tokenize text = .ok tokens) :
    Filter.ofText? text = .ok f ↔ PartialFilter.start.readAll none tokens = .ok f := by
  rw [ofText?_eq_ok_iff_exists_tokens, h]
  constructor
  · rintro ⟨_, ⟨⟩, hread⟩
    exact hread
  · exact fun hread => ⟨tokens, rfl, hread⟩

/-- What a text writes is what it spells. -/
theorem ofText?_eq_ok_iff : Filter.ofText? text = .ok f ↔ SpellsFilter text f := by
  rw [ofText?_eq_ok_iff_exists_tokens]
  simp only [readAll_eq_ok_iff]
  constructor
  · rintro ⟨_, htokens, d, rfl, hfilter⟩
    exact ⟨d, htokens, hfilter⟩
  · rintro ⟨d, htokens, hfilter⟩
    exact ⟨_, htokens, d, rfl, hfilter⟩

end Reading

/-! ### Joining -/

theorem SpellsTerm.conjunction {text : String} {t : Term} (h : SpellsTerm text t) :
    SpellsConjunction text [t] := by
  obtain ⟨p, htokens, rfl⟩ := h
  exact ⟨.single p, htokens, rfl⟩

theorem SpellsConjunction.filter {text : String} {c : Conjunction} (h : SpellsConjunction text c) :
    SpellsFilter text [c] := by
  obtain ⟨d, htokens, rfl⟩ := h
  exact ⟨.single d, htokens, rfl⟩

/-- A filter in parentheses is a term. -/
theorem SpellsFilter.parenthesized {text : String} {f : Filter} (h : SpellsFilter text f) :
    SpellsTerm (parenthesized text) (.group f) := by
  obtain ⟨d, htokens, rfl⟩ := h
  exact ⟨.group d, tokenize_parenthesized htokens, rfl⟩

theorem SpellsTerm.and {a b : String} {t : Term} {c : Conjunction} (ha : SpellsTerm a t)
    (hb : SpellsConjunction b c) : SpellsConjunction (a ++ " and " ++ b) (t :: c) := by
  obtain ⟨p, hp, rfl⟩ := ha
  obtain ⟨d, hd, rfl⟩ := hb
  exact ⟨.and p d, tokenize_append_and hp hd, rfl⟩

theorem SpellsConjunction.or {a b : String} {c : Conjunction} {f : Filter}
    (ha : SpellsConjunction a c) (hb : SpellsFilter b f) :
    SpellsFilter (a ++ " or " ++ b) (c :: f) := by
  obtain ⟨d, hd, rfl⟩ := ha
  obtain ⟨s, hs, rfl⟩ := hb
  exact ⟨.or d s, tokenize_append_or hd hs, rfl⟩

theorem joinAnd_singleton (text : String) : joinAnd [text] = text :=
  String.intercalate_singleton

theorem joinOr_singleton (text : String) : joinOr [text] = text :=
  String.intercalate_singleton

theorem joinAnd_cons_cons (a b : String) (texts : List String) :
    joinAnd (a :: b :: texts) = a ++ " and " ++ joinAnd (b :: texts) :=
  String.intercalate_cons_cons

theorem joinOr_cons_cons (a b : String) (texts : List String) :
    joinOr (a :: b :: texts) = a ++ " or " ++ joinOr (b :: texts) :=
  String.intercalate_cons_cons

section Joined

variable {α : Type} {text : α → String} {xs : List α}

/-- Texts of terms that are joined by `and` spell the conjunction of the terms. -/
theorem spells_joinAnd {read : α → Term} (hne : xs ≠ [])
    (h : ∀ x ∈ xs, SpellsTerm (text x) (read x)) :
    SpellsConjunction (joinAnd (xs.map text)) (xs.map read) := by
  induction xs with
  | nil => exact absurd rfl hne
  | cons x xs ih =>
    have hx := h x List.mem_cons_self
    cases xs with
    | nil =>
      rw [List.map_singleton, List.map_singleton, joinAnd_singleton]
      exact hx.conjunction
    | cons y ys =>
      have hrest := ih (List.cons_ne_nil y ys) fun z hz => h z (List.mem_cons_of_mem _ hz)
      rw [List.map_cons, List.map_cons, joinAnd_cons_cons]
      exact hx.and hrest

/-- Texts of conjunctions that are joined by `or` spell the filter of the conjunctions. -/
theorem spells_joinOr {read : α → Conjunction} (hne : xs ≠ [])
    (h : ∀ x ∈ xs, SpellsConjunction (text x) (read x)) :
    SpellsFilter (joinOr (xs.map text)) (xs.map read) := by
  induction xs with
  | nil => exact absurd rfl hne
  | cons x xs ih =>
    have hx := h x List.mem_cons_self
    cases xs with
    | nil =>
      rw [List.map_singleton, List.map_singleton, joinOr_singleton]
      exact hx.filter
    | cons y ys =>
      have hrest := ih (List.cons_ne_nil y ys) fun z hz => h z (List.mem_cons_of_mem _ hz)
      rw [List.map_cons, List.map_cons, joinOr_cons_cons]
      exact hx.or hrest

end Joined

/-! ### Whole filters -/

section Whole

variable {text : Test → String} {read : Test → Term}

/-- The text of a filter spells it when the texts of its terms do. -/
theorem Filter.spells_of_terms {f : Filter} (hproper : Filter.IsProper f)
    (h : ∀ c ∈ f, ∀ t ∈ c, SpellsTerm (t.textWith text) (t.bind read)) :
    SpellsFilter (Filter.textWith text f) (Filter.bind read f) :=
  spells_joinOr hproper.1 fun c hc => spells_joinAnd (hproper.2 c hc).1 (h c hc)

/-- A text made test by test spells the term with its tests replaced. -/
theorem Term.spells_textWith {t : Term} (hproper : t.IsProper)
    (h : ∀ test ∈ t.tests, SpellsTerm (text test) (read test)) :
    SpellsTerm (t.textWith text) (t.bind read) := by
  induction t with
  | test u => exact h u List.mem_cons_self
  | group body ih =>
    have hbody := Term.isProper_group.mp hproper
    rw [Term.tests_group] at h
    rw [Term.textWith_group, Term.bind_group]
    refine (Filter.spells_of_terms hbody fun c hc t ht => ?_).parenthesized
    refine ih c hc t ht ((hbody.2 c hc).2 t ht) fun test htest => ?_
    exact h test (Filter.mem_tests.mpr ⟨c, hc, t, ht, htest⟩)

/-- A text made test by test spells the filter with its tests replaced. -/
theorem Filter.spells_textWith {f : Filter} (hproper : Filter.IsProper f)
    (h : ∀ test ∈ Filter.tests f, SpellsTerm (text test) (read test)) :
    SpellsFilter (Filter.textWith text f) (Filter.bind read f) := by
  refine Filter.spells_of_terms hproper fun c hc t ht => ?_
  refine Term.spells_textWith ((hproper.2 c hc).2 t ht) fun test htest => ?_
  exact h test (Filter.mem_tests.mpr ⟨c, hc, t, ht, htest⟩)

end Whole

/-- The text of a node is that of its filter. -/
theorem Node.textWith_toFilter (text : Test → String) (n : Node) :
    Filter.textWith text n.toFilter = n.textWith text := by
  cases n with
  | filter f => rfl
  | conjunction c => exact joinOr_singleton _
  | term t => exact (joinOr_singleton _).trans (joinAnd_singleton _)

/-- The text of a filter of a lone term is that of the term. -/
theorem Filter.textWith_lone (text : Test → String) (t : Term) :
    Filter.textWith text [[t]] = t.textWith text :=
  Node.textWith_toFilter text (.term t)

mutual

/-- The term of a phrase is proper. -/
theorem Phrase.isProper_term : (p : Phrase) → p.term.IsProper
  | .group body => Term.isProper_group.mpr body.isProper_filter
  | .missing _ | .has _ | .compare _ _ _ | .reaches _ _ | .isA _ | .related _ _
  | .qualified _ _ _ => trivial

/-- The terms of a clause are proper, and there are some. -/
theorem Clause.isProper_terms : (c : Clause) → c.terms ≠ [] ∧ ∀ t ∈ c.terms, t.IsProper
  | .single p => by
    refine ⟨List.cons_ne_nil _ _, fun t ht => ?_⟩
    rw [List.mem_singleton.mp ht]
    exact p.isProper_term
  | .and p c => by
    refine ⟨List.cons_ne_nil _ _, fun t ht => ?_⟩
    rcases List.mem_cons.mp ht with rfl | ht
    · exact p.isProper_term
    · exact c.isProper_terms.2 t ht

/-- The filter of a sentence is proper. -/
theorem Sentence.isProper_filter : (s : Sentence) → Filter.IsProper s.filter
  | .single c => by
    refine ⟨List.cons_ne_nil _ _, fun d hd => ?_⟩
    rw [List.mem_singleton.mp hd]
    exact c.isProper_terms
  | .or c s => by
    refine ⟨List.cons_ne_nil _ _, fun d hd => ?_⟩
    rcases List.mem_cons.mp hd with rfl | hd
    · exact c.isProper_terms
    · exact s.isProper_filter.2 d hd

end

/-- A filter that is read from a text is proper. -/
theorem SpellsFilter.isProper {text : String} {f : Filter} (h : SpellsFilter text f) :
    Filter.IsProper f := by
  obtain ⟨d, -, rfl⟩ := h
  exact d.isProper_filter

end TagFilter
