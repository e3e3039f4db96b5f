import TagFilter.Proofs.Grammar.Unambiguous

/-!
# Reading a derivation

A partial filter reads the tokens of a derivation without a refusal.  `PartialFilter.Run` is a
sequence of steps; `Phrase.run`, `Clause.run` and `Sentence.run` say what a partial filter holds
after the tokens of a derivation, and `readAll_of_run` continues a run to the end of the tokens.
-/

namespace TagFilter

namespace PartialFilter

/-- A partial filter becomes another by reading tokens. -/
inductive Run : PartialFilter → List Token → PartialFilter → Prop where
  /-- Nothing is read. -/
  | refl (s : PartialFilter) : Run s [] s
  /-- A token is read, and then others. -/
  | step {s t u : PartialFilter} {token : Token} {tokens : List Token}
      (h : s.step token = .ok t) (hrest : Run t tokens u) : Run s (token :: tokens) u

theorem Run.single {s t : PartialFilter} {token : Token} (h : s.step token = .ok t) :
    Run s [token] t :=
  .step h (.refl t)

theorem Run.append {s t u : PartialFilter} {xs ys : List Token} (h : Run s xs t)
    (h' : Run t ys u) : Run s (xs ++ ys) u := by
  induction h with
  | refl s => exact h'
  | step hstep _ ih => exact .step hstep (ih h')

/-- After a run the remaining tokens are read from the partial filter that it has led to. -/
theorem readAll_of_run {s t : PartialFilter} {xs : List Token} (h : Run s xs t)
    (fault : Option SyntaxError) (rest : List Token) :
    s.readAll fault (xs ++ rest) = t.readAll fault rest := by
  induction h with
  | refl s => rfl
  | step hstep _ ih =>
    rw [List.cons_append, readAll, hstep]
    exact ih

/-- A token that may stand after a term finishes the term that has been read. -/
theorem step_of_endsTerm {s : PartialFilter} {t : Term} {token : Token}
    (h : s.pending.term? = some t) (hend : token.endsTerm = true) :
    s.step token = s.afterTerm t token := by
  obtain ⟨outer, level, pending⟩ := s
  cases pending <;> cases h <;> cases token <;> first | rfl | cases hend

end PartialFilter

open PartialFilter

theorem PathWord.path?_token (w : PathWord) : w.token.path? = some w.toPath := by
  cases w <;> rfl

/-- A word for a path begins a term. -/
theorem PathWord.run (w : PathWord) (outer : List Level) (level : Level) :
    Run ⟨outer, level, .start⟩ [w.token] ⟨outer, level, .path w.toPath⟩ := by
  cases w <;> exact Run.single rfl

/-- A relationship is complete after an optional ref. -/
theorem targetTokens_run {pending : Pending} {r : Relationship}
    (h : pending = .relationship r ∨ pending = .qualified r) (target : Option Ref)
    (outer : List Level) (level : Level) :
    ∃ next, Run ⟨outer, level, pending⟩ (targetTokens target) ⟨outer, level, next⟩ ∧
      next.term? = some (.test (.related r target)) := by
  cases target with
  | none => rcases h with rfl | rfl <;> exact ⟨_, Run.refl _, rfl⟩
  | some target => rcases h with rfl | rfl <;> exact ⟨_, Run.single rfl, rfl⟩

mutual

/-- The tokens of a phrase lead to its term. -/
theorem Phrase.run (p : Phrase) (outer : List Level) (level : Level) :
    ∃ pending, Run ⟨outer, level, .start⟩ p.tokens ⟨outer, level, pending⟩ ∧
      pending.term? = some p.term := by
  cases p with
  | missing w =>
    refine ⟨.negated w.toPath, .step (t := ⟨outer, level, .negation⟩) rfl (Run.single ?_), rfl⟩
    simp only [PartialFilter.step, w.path?_token, withPending]
  | group body =>
    obtain ⟨inner, pending, t, hrun, hterm, hclose⟩ := Sentence.run body (level :: outer) []
    refine ⟨.complete (.group body.filter), ?_, rfl⟩
    refine .step (t := ⟨level :: outer, .start, .start⟩) rfl (hrun.append (Run.single ?_))
    rw [step_of_endsTerm hterm rfl]
    simp only [afterTerm, hclose, List.reverse_nil, List.nil_append]
  | has w => exact ⟨_, w.run outer level, rfl⟩
  | compare w op operand =>
    refine ⟨.complete (.test (.compare w.toPath op operand)), ?_, rfl⟩
    exact (w.run outer level).append (.step (t := ⟨outer, level, .comparison w.toPath op⟩) rfl
      (Run.single rfl))
  | reaches w target =>
    refine ⟨.complete (.test (.reaches w.toPath target)), ?_, rfl⟩
    exact (w.run outer level).append (.step (t := ⟨outer, level, .wildcard w.toPath⟩) rfl
      (Run.single rfl))
  | isA type => exact ⟨_, Run.single rfl, rfl⟩
  | related r target =>
    obtain ⟨next, hrun, hterm⟩ := targetTokens_run (Or.inl rfl) target outer level
    exact ⟨next, .step rfl hrun, hterm⟩
  | qualified name type target =>
    obtain ⟨next, hrun, hterm⟩ :=
      targetTokens_run (r := ⟨name, some type⟩) (Or.inr rfl) target outer level
    exact ⟨next, .step (t := ⟨outer, level, .relationship ⟨name, none⟩⟩) rfl (.step rfl hrun),
      hterm⟩
termination_by structural p

/-- The tokens of a clause lead to its terms, after those that stand before it. -/
theorem Clause.run (c : Clause) (outer : List Level) (alternatives : List Conjunction)
    (before : List Term) :
    ∃ terms pending t, Run ⟨outer, ⟨alternatives, before⟩, .start⟩ c.tokens
        ⟨outer, ⟨alternatives, terms⟩, pending⟩ ∧
      pending.term? = some t ∧ (t :: terms).reverse = before.reverse ++ c.terms := by
  cases c with
  | single p =>
    obtain ⟨pending, hrun, hterm⟩ := Phrase.run p outer ⟨alternatives, before⟩
    exact ⟨before, pending, p.term, hrun, hterm, List.reverse_cons⟩
  | and p c =>
    obtain ⟨first, hfirst, hp⟩ := Phrase.run p outer ⟨alternatives, before⟩
    obtain ⟨terms, pending, t, hrun, hterm, hterms⟩ :=
      Clause.run c outer alternatives (p.term :: before)
    refine ⟨terms, pending, t, hfirst.append (.step ?_ hrun), hterm, ?_⟩
    · exact step_of_endsTerm hp rfl
    · rw [hterms, List.reverse_cons, List.append_assoc]
      rfl
termination_by structural c

/-- The tokens of a sentence lead to its conjunctions, after those that stand before it. -/
theorem Sentence.run (s : Sentence) (outer : List Level) (before : List Conjunction) :
    ∃ level pending t, Run ⟨outer, ⟨before, []⟩, .start⟩ s.tokens ⟨outer, level, pending⟩ ∧
      pending.term? = some t ∧ level.close t = before.reverse ++ s.filter := by
  cases s with
  | single c =>
    obtain ⟨terms, pending, t, hrun, hterm, hterms⟩ := Clause.run c outer before []
    refine ⟨⟨before, terms⟩, pending, t, hrun, hterm, ?_⟩
    simp only [Level.close, Level.addTerm, Level.finishConjunction, Level.toFilter, hterms,
      List.reverse_cons, List.reverse_nil, List.nil_append]
    rfl
  | or c s =>
    obtain ⟨terms, first, t, hfirst, hc, hterms⟩ := Clause.run c outer before []
    obtain ⟨level, pending, u, hrun, hterm, hclose⟩ := Sentence.run s outer (c.terms :: before)
    refine ⟨level, pending, u, hfirst.append (.step ?_ hrun), hterm, ?_⟩
    · rw [step_of_endsTerm hc rfl]
      simp only [afterTerm, Level.addTerm, Level.finishConjunction, hterms, List.reverse_nil,
        List.nil_append]
    · rw [hclose, List.reverse_cons, List.append_assoc]
      rfl
termination_by structural s

end

/-- The filter of a sentence is read from its tokens. -/
theorem Sentence.readAll_tokens (s : Sentence) :
    PartialFilter.start.readAll none s.tokens = .ok s.filter := by
  obtain ⟨level, pending, t, hrun, hterm, hclose⟩ := s.run [] []
  have hread := readAll_of_run hrun none []
  rw [List.append_nil] at hread
  refine hread.trans ?_
  simp only [readAll, finish, hterm, hclose, List.reverse_nil, List.nil_append, List.isEmpty_nil,
    if_true]

end TagFilter
