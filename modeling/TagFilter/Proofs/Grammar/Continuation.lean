import TagFilter.Proofs.Grammar.Acceptance
import TagFilter.Proofs.Grammar.Nesting

/-!
# Continuations of lists of tokens

An error tells whether the tokens are the front of a filter or of none.  It says that there is too
little of them exactly when a filter can be made by going on, and says anything else exactly when
nothing that follows can mend it (`ofTokens?_error_iff_continuation`).

Reading either refuses a token, and then the refusal stands whatever follows, or it comes to the end
of the tokens (`PartialFilter.run_or_refused`).  In the second case the partial filter that has been
read is never a dead end: one token makes its term complete, and closing parentheses do the rest
(`PartialFilter.exists_continuation`).
-/

namespace TagFilter

/-- Whether an error says no more than that there is too little of a filter. -/
def SyntaxError.isIncomplete : SyntaxError → Bool
  | .emptyFilter => true
  | .unexpectedEnd => true
  | .unclosedGroup => true
  | _ => false

namespace PartialFilter

variable {s t : PartialFilter} {token : Token} {tokens : List Token}

/-! ### Refusals -/

/-- The token that begins a term is refused for its own sake. -/
theorem not_isIncomplete_of_beginTerm {refusal : Refusal} (h : s.beginTerm token = .error refusal) :
    refusal.error.isIncomplete = false := by
  cases token with
  | value v => cases v <;> cases h <;> rfl
  | not | opening | name | path | relationship => cases h
  | and | or | closing | comparison | wildcard | endOfInput =>
    cases h
    rfl

/-- The token after a term is refused for its own sake. -/
theorem not_isIncomplete_of_afterTerm {refusal : Refusal} {term : Term}
    (h : s.afterTerm term token = .error refusal) : refusal.error.isIncomplete = false := by
  cases token with
  | and | or => cases h
  | closing =>
    simp only [afterTerm] at h
    split at h
    · cases h
      rfl
    · cases h
  | name | path | value | relationship | not | opening | comparison | wildcard | endOfInput =>
    cases h
    rfl

/-- No refusal of a token says that there is too little of a filter. -/
theorem not_isIncomplete_of_step {refusal : Refusal} (h : s.step token = .error refusal) :
    refusal.error.isIncomplete = false := by
  unfold step at h
  split at h
  · exact not_isIncomplete_of_beginTerm h
  · split at h <;> cases h
    rfl
  · split at h
    · cases h
      rfl
    · cases h
      rfl
    · exact not_isIncomplete_of_afterTerm h
  · split at h
    · cases h
    · cases h
    · exact not_isIncomplete_of_afterTerm h
  · split at h <;> cases h
    rfl
  · split at h <;> cases h
    rfl
  · split at h
    · split at h <;> cases h
      rfl
    · cases h
    · exact not_isIncomplete_of_afterTerm h
  · split at h
    · cases h
    · exact not_isIncomplete_of_afterTerm h
  · exact not_isIncomplete_of_afterTerm h

/-- The end of the tokens is only ever too early. -/
theorem isIncomplete_of_finish {error : SyntaxError} (h : s.finish = .error error) :
    error.isIncomplete = true := by
  unfold finish at h
  split at h
  · split at h <;> cases h
    rfl
  · split at h <;> cases h <;> rfl

/-- Tokens are all read, or one of them is refused and the refusal stands whatever follows. -/
theorem run_or_refused (s : PartialFilter) (tokens : List Token) :
    (∃ t, Run s tokens t) ∨
      ∃ error : SyntaxError, error.isIncomplete = false ∧
        ∀ more, s.readAll none (tokens ++ more) = .error error := by
  induction tokens generalizing s with
  | nil => exact Or.inl ⟨s, .refl s⟩
  | cons token tokens ih =>
    cases hstep : s.step token with
    | error refusal =>
      refine Or.inr ⟨refusal.error, not_isIncomplete_of_step hstep, fun more => ?_⟩
      rw [List.cons_append, readAll, hstep]
      simp only [Option.getD_none, ite_self]
    | ok next =>
      rcases ih next with ⟨t, hrun⟩ | ⟨error, herror, hall⟩
      · exact Or.inl ⟨t, .step hstep hrun⟩
      · refine Or.inr ⟨error, herror, fun more => ?_⟩
        rw [List.cons_append, readAll, hstep]
        exact hall more

/-! ### Continuations -/

/-- The end of the input is no token of a filter. -/
theorem isEnd_of_step (h : s.step token = .ok t) : token.isEnd = false := by
  cases token with
  | endOfInput =>
    obtain ⟨outer, level, pending⟩ := s
    cases pending <;> cases h
  | _ => rfl

theorem Run.isEnd (h : Run s tokens t) : ∀ token ∈ tokens, token.isEnd = false := by
  induction h with
  | refl s => exact List.forall_mem_nil _
  | step hstep _ ih => exact List.forall_mem_cons.mpr ⟨isEnd_of_step hstep, ih⟩

/-- A term that is being read can be made complete. -/
theorem exists_term (s : PartialFilter) :
    ∃ tokens t term, Run s tokens t ∧ t.pending.term? = some term := by
  obtain ⟨outer, level, pending⟩ := s
  cases pending with
  | start => exact ⟨[.name "a"], _, _, Run.single rfl, rfl⟩
  | negation => exact ⟨[.name "a"], _, _, Run.single rfl, rfl⟩
  | comparison p op => exact ⟨[.value (.bool true)], _, _, Run.single rfl, rfl⟩
  | wildcard p => exact ⟨[.value (.ref ⟨"a", none⟩)], _, _, Run.single rfl, rfl⟩
  | negated | path | relationship | qualified | complete => exact ⟨[], _, _, .refl _, rfl⟩

/-- After a term the open groups can be closed one by one. -/
theorem exists_closed {term : Term} (h : s.pending.term? = some term) :
    ∃ tokens t f, Run s tokens t ∧ t.finish = .ok f := by
  obtain ⟨outer, level, pending⟩ := s
  induction outer generalizing level pending term with
  | nil => exact ⟨[], _, _, .refl _, finish_eq_ok_iff.mpr ⟨term, h, rfl, rfl⟩⟩
  | cons below outer ih =>
    have hclose : PartialFilter.step ⟨below :: outer, level, pending⟩ .closing =
        .ok ⟨outer, below, .complete (.group (level.close term))⟩ := step_of_endsTerm h rfl
    obtain ⟨tokens, t, f, hrun, hfinish⟩ := ih below (.complete (.group (level.close term))) rfl
    exact ⟨.closing :: tokens, t, f, .step hclose hrun, hfinish⟩

/-- Whatever has been read can be continued to a filter. -/
theorem exists_continuation (s : PartialFilter) :
    ∃ tokens t f, Run s tokens t ∧ t.finish = .ok f := by
  obtain ⟨xs, middle, term, hterm, hpending⟩ := exists_term s
  obtain ⟨ys, t, f, hclosed, hfinish⟩ := exists_closed hpending
  exact ⟨xs ++ ys, t, f, hterm.append hclosed, hfinish⟩

end PartialFilter

open PartialFilter

/-! ### Lists of tokens -/

section Lists

variable {tokens more : List Token}

theorem Token.beforeEnd_append (h : ∀ token ∈ tokens, token.isEnd = false) (more : List Token) :
    Token.beforeEnd (tokens ++ more) = tokens ++ Token.beforeEnd more :=
  List.takeWhile_append_of_pos fun token htoken => by rw [h token htoken]; rfl

theorem ofTokens?_append (h : ∀ token ∈ tokens, token.isEnd = false) (more : List Token) :
    Filter.ofTokens? (tokens ++ more) =
      PartialFilter.start.readAll none (tokens ++ Token.beforeEnd more) :=
  congrArg (PartialFilter.start.readAll none) (Token.beforeEnd_append h more)

theorem ofTokens?_eq_readAll (h : ∀ token ∈ tokens, token.isEnd = false) :
    Filter.ofTokens? tokens = PartialFilter.start.readAll none tokens := by
  have happend := ofTokens?_append h []
  rwa [List.append_nil, Token.beforeEnd, List.takeWhile_nil, List.append_nil] at happend

/-- A list of tokens can be continued to a filter exactly when its error, if it has one, says that
there is too little of it. -/
theorem exists_ofTokens?_append_iff (h : ∀ token ∈ tokens, token.isEnd = false) :
    (∃ more f, Filter.ofTokens? (tokens ++ more) = .ok f) ↔
      ∀ error, Filter.ofTokens? tokens = .error error → error.isIncomplete = true := by
  rcases run_or_refused PartialFilter.start tokens with ⟨s, hrun⟩ | ⟨error, herror, hall⟩
  · obtain ⟨more, t, f, hmore, hfinish⟩ := exists_continuation s
    have hwhole := hrun.append hmore
    have hread : Filter.ofTokens? (tokens ++ more) = .ok f := by
      rw [ofTokens?_eq_readAll hwhole.isEnd]
      exact readAll_eq_ok_iff_run.mpr ⟨t, hwhole, hfinish⟩
    refine ⟨fun _ error hfault => ?_, fun _ => ⟨more, f, hread⟩⟩
    have hend := readAll_of_run hrun none []
    rw [List.append_nil] at hend
    rw [ofTokens?_eq_readAll h, hend] at hfault
    exact isIncomplete_of_finish hfault
  · have hrefused (more : List Token) : Filter.ofTokens? (tokens ++ more) = .error error :=
      (ofTokens?_append h more).trans (hall _)
    constructor
    · rintro ⟨more, f, hread⟩
      rw [hrefused more] at hread
      cases hread
    · intro hincomplete
      have hread := hrefused []
      rw [List.append_nil] at hread
      rw [hincomplete error hread] at herror
      cases herror

/-- The error of a list of tokens says that there is too little of it exactly when it is no filter
but can be continued to one, and says anything else exactly when it cannot be continued. -/
theorem ofTokens?_error_iff_continuation (tokens : List Token)
    (h : ∀ token ∈ tokens, token.isEnd = false) :
    ((∃ error, Filter.ofTokens? tokens = .error error ∧ error.isIncomplete = true) ↔
      (∀ f, Filter.ofTokens? tokens ≠ .ok f) ∧
        ∃ more f, Filter.ofTokens? (tokens ++ more) = .ok f) ∧
    ((∃ error, Filter.ofTokens? tokens = .error error ∧ error.isIncomplete = false) ↔
      ∀ more f, Filter.ofTokens? (tokens ++ more) ≠ .ok f) := by
  have hcontinued : (∀ more f, Filter.ofTokens? (tokens ++ more) ≠ .ok f) ↔
      ¬ ∀ error, Filter.ofTokens? tokens = .error error → error.isIncomplete = true := by
    rw [← exists_ofTokens?_append_iff h]
    simp only [not_exists, ne_eq]
  rw [exists_ofTokens?_append_iff h, hcontinued]
  cases Filter.ofTokens? tokens with
  | ok f => simp
  | error error => simp

/-- An open group can still be closed, while two tags without a connective are no front of a
filter. -/
theorem ofTokens?_error_iff_continuation_siteAnd :
    (∀ token ∈ [Token.opening, .name "site", .and], token.isEnd = false) ∧
      (∃ more f, Filter.ofTokens? ([.opening, .name "site", .and] ++ more) = .ok f) ∧
      (∀ token ∈ [Token.opening, .name "site", .name "equip"], token.isEnd = false) ∧
      ∀ more f, Filter.ofTokens? ([.opening, .name "site", .name "equip"] ++ more) ≠ .ok f := by
  have hopen : ∀ token ∈ [Token.opening, .name "site", .and], token.isEnd = false := by decide
  have hstray : ∀ token ∈ [Token.opening, .name "site", .name "equip"], token.isEnd = false := by
    decide
  have hincomplete := (ofTokens?_error_iff_continuation _ hopen).1.mp ⟨.unexpectedEnd, rfl, rfl⟩
  have hwrong := (ofTokens?_error_iff_continuation _ hstray).2.mp
    ⟨.unexpectedToken "equip", rfl, rfl⟩
  exact ⟨hopen, hincomplete.2, hstray, hwrong⟩

end Lists

end TagFilter
