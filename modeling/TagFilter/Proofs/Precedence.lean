import TagFilter.Proofs.Filter.Tests

/-!
# Precedence

Joining two texts joins their filters (`ofText?_joined`).  With `or` between them, the conjunctions
of the second filter come after those of the first; with `and`, which binds more tightly, only the
two conjunctions next to the word become one; and parentheses make a term of the whole filter.

The derivations of the joined tokens are put together from those of the parts: `Clause.append` and
`Sentence.append` set one behind the other, and `Sentence.meet` makes one clause of the last clause
of a sentence and the first clause of another.
-/

namespace TagFilter

/-! ### Joined derivations -/

/-- The clause of the phrases of two clauses. -/
def Clause.append : Clause → Clause → Clause
  | .single p, d => .and p d
  | .and p c, d => .and p (c.append d)

/-- The sentence of the clauses of two sentences. -/
def Sentence.append : Sentence → Sentence → Sentence
  | .single c, t => .or c t
  | .or c s, t => .or c (s.append t)

/-- The sentence of the clauses of two sentences, where the last clause of the one and the first
clause of the other are a single clause. -/
def Sentence.meet : Sentence → Sentence → Sentence
  | .single c, .single d => .single (c.append d)
  | .single c, .or d t => .or (c.append d) t
  | .or c s, t => .or c (s.meet t)

theorem Clause.tokens_append (c d : Clause) :
    (c.append d).tokens = c.tokens ++ .and :: d.tokens := by
  fun_induction Clause.append c d with
  | case1 p d => rfl
  | case2 p c d ih => rw [Clause.tokens, Clause.tokens, ih, List.append_assoc, List.cons_append]

theorem Clause.terms_append (c d : Clause) : (c.append d).terms = c.terms ++ d.terms := by
  fun_induction Clause.append c d with
  | case1 p d => rfl
  | case2 p c d ih => rw [Clause.terms, Clause.terms, ih, List.cons_append]

theorem Sentence.tokens_append (s t : Sentence) :
    (s.append t).tokens = s.tokens ++ .or :: t.tokens := by
  fun_induction Sentence.append s t with
  | case1 c t => rfl
  | case2 c s t ih =>
    rw [Sentence.tokens, Sentence.tokens, ih, List.append_assoc, List.cons_append]

theorem Sentence.filter_append (s t : Sentence) : (s.append t).filter = s.filter ++ t.filter := by
  fun_induction Sentence.append s t with
  | case1 c t => rfl
  | case2 c s t ih => rw [Sentence.filter, Sentence.filter, ih, List.cons_append]

theorem Sentence.tokens_meet (s t : Sentence) :
    (s.meet t).tokens = s.tokens ++ .and :: t.tokens := by
  fun_induction Sentence.meet s t with
  | case1 c d => exact Clause.tokens_append c d
  | case2 c d t =>
    simp only [Sentence.tokens, Clause.tokens_append, List.append_assoc, List.cons_append]
  | case3 c s t ih =>
    rw [Sentence.tokens, Sentence.tokens, ih, List.append_assoc, List.cons_append]

/-- Where two sentences meet, one conjunction has the terms of the last conjunction of the one and
of the first conjunction of the other. -/
theorem Sentence.exists_filter_meet (s t : Sentence) :
    ∃ before last first after, s.filter = before ++ [last] ∧ t.filter = first :: after ∧
      (s.meet t).filter = before ++ (last ++ first) :: after := by
  fun_induction Sentence.meet s t with
  | case1 c d =>
    refine ⟨[], c.terms, d.terms, [], rfl, rfl, ?_⟩
    rw [Sentence.filter, Clause.terms_append, List.nil_append]
  | case2 c d t =>
    refine ⟨[], c.terms, d.terms, t.filter, rfl, rfl, ?_⟩
    rw [Sentence.filter, Clause.terms_append, List.nil_append]
  | case3 c s t ih =>
    obtain ⟨before, last, first, after, hs, ht, hmeet⟩ := ih
    refine ⟨c.terms :: before, last, first, after, ?_, ht, ?_⟩
    · rw [Sentence.filter, hs, List.cons_append]
    · rw [Sentence.filter, hmeet, List.cons_append]

/-! ### Joined texts -/

/-- Texts of filters that are joined by `or` or by `and`, or put in parentheses, are texts of
filters: `or` keeps all conjunctions of both, `and` makes one of the two next to it, and a filter in
parentheses is a single term. -/
theorem ofText?_joined {a b : String} {f g : Filter} (ha : Filter.ofText? a = .ok f)
    (hb : Filter.ofText? b = .ok g) :
    Filter.ofText? (a ++ " or " ++ b) = .ok (f ++ g) ∧
    (∃ before last first after, f = before ++ [last] ∧ g = first :: after ∧
      Filter.ofText? (a ++ " and " ++ b) = .ok (before ++ (last ++ first) :: after)) ∧
    Filter.ofText? ("(" ++ a ++ ")") = .ok [[.group f]] := by
  obtain ⟨s, hs, rfl⟩ := ofText?_eq_ok_iff.mp ha
  obtain ⟨t, ht, rfl⟩ := ofText?_eq_ok_iff.mp hb
  refine ⟨?_, ?_, ?_⟩
  · refine ofText?_eq_ok_iff.mpr ⟨s.append t, ?_, s.filter_append t⟩
    rw [tokenize_append_or hs ht, s.tokens_append t]
  · obtain ⟨before, last, first, after, hlast, hfirst, hmeet⟩ := s.exists_filter_meet t
    refine ⟨before, last, first, after, hlast, hfirst, ?_⟩
    refine ofText?_eq_ok_iff.mpr ⟨s.meet t, ?_, hmeet⟩
    rw [tokenize_append_and hs ht, s.tokens_meet t]
  · have hspells : SpellsFilter a s.filter := ⟨s, hs, rfl⟩
    exact ofText?_eq_ok_iff.mpr hspells.parenthesized.conjunction.filter

theorem ofText?_joined_inputs :
    Filter.ofText? "site or inputs? ^elec or ^meter or not vav" =
      .ok [[.test (.has (.single "site"))], [.test (.related ⟨"inputs", some ⟨"elec"⟩⟩ none)],
        [.test (.isA ⟨"meter"⟩)], [.test (.missing (.single "vav"))]] ∧
    Filter.ofText? "site or inputs? ^elec and ^meter or not vav" =
      .ok [[.test (.has (.single "site"))],
        [.test (.related ⟨"inputs", some ⟨"elec"⟩⟩ none), .test (.isA ⟨"meter"⟩)],
        [.test (.missing (.single "vav"))]] ∧
    Filter.ofText? "(site or inputs? ^elec)" =
      .ok [[.group [[.test (.has (.single "site"))],
        [.test (.related ⟨"inputs", some ⟨"elec"⟩⟩ none)]]]] := by
  have hsite := spells_has (Path.isPlain_single (show IsPlainName "site" by decide))
  have hinputs : SpellsTerm (relatedText ⟨"inputs", some ⟨"elec"⟩⟩ none)
      (.test (.related ⟨"inputs", some ⟨"elec"⟩⟩ (Option.map Ref.written none))) :=
    spells_related (by decide) (by decide) nofun
  have hmeter := spells_isA (show isId (Symbol.mk "meter").name = true by decide)
  have hvav := spells_missing (Path.isPlain_single (show IsPlainName "vav" by decide))
  have ha := ofText?_eq_ok_iff.mpr (hsite.conjunction.or hinputs.conjunction.filter)
  have hb := ofText?_eq_ok_iff.mpr (hmeter.conjunction.or hvav.conjunction.filter)
  obtain ⟨hor, ⟨before, last, first, after, hf, hg, hand⟩, hgroup⟩ := ofText?_joined ha hb
  refine ⟨hor, ?_, hgroup⟩
  obtain ⟨rfl, hlast⟩ := List.append_inj' (show [_] ++ [_] = before ++ [last] from hf) rfl
  cases hlast
  cases hg
  exact hand

end TagFilter
