import TagFilter.Proofs.Grammar.Reading

/-!
# Groups within lists of tokens

How many groups are open after some tokens depends only on their parentheses
(`PartialFilter.Run.depth`), and a run that closes no group that was open before it does not depend
on the levels around it (`PartialFilter.Run.within`).

So the tokens between the parentheses at the end of a filter are a filter of their own exactly when
they close no group that they do not open themselves, and that filter is then the last group
(`group_of_readAll`).  They need not be: in `a and (b) or (c)` the tokens between the first and the
last parenthesis close the first group and open another.
-/

namespace TagFilter

/-- Whether a token opens a group. -/
def Token.isOpening : Token → Bool
  | .opening => true
  | _ => false

/-- Whether a token closes a group. -/
def Token.isClosing : Token → Bool
  | .closing => true
  | _ => false

/-- Wherever the tokens are cut off, they have closed no more groups than they have opened and a
number of others. -/
def StaysWithin (depth : Nat) (tokens : List Token) : Prop :=
  ∀ front, front <+: tokens →
    front.countP Token.isClosing ≤ depth + front.countP Token.isOpening

section StaysWithin

variable {depth : Nat} {token : Token} {tokens : List Token}

theorem StaysWithin.pos_of_isClosing (h : StaysWithin depth (token :: tokens))
    (hclosing : token.isClosing = true) : 0 < depth := by
  have hfront := h [token] (List.prefix_append [token] tokens)
  cases token with
  | closing => exact hfront
  | _ => cases hclosing

/-- The tokens after the first stay within the groups that are open after it. -/
theorem StaysWithin.tail {after : Nat} (h : StaysWithin depth (token :: tokens))
    (hafter : after + [token].countP Token.isClosing = depth + [token].countP Token.isOpening) :
    StaysWithin after tokens := by
  intro front hfront
  have hall := h (token :: front) ((List.prefix_cons_inj token).mpr hfront)
  rw [← List.singleton_append, List.countP_append, List.countP_append] at hall
  omega

end StaysWithin

namespace PartialFilter

variable {s t u : PartialFilter} {token : Token} {tokens xs ys : List Token}

/-! ### Runs -/

theorem Run.of_append (h : Run s (xs ++ ys) u) : ∃ t, Run s xs t ∧ Run t ys u := by
  induction xs generalizing s with
  | nil => exact ⟨s, .refl s, h⟩
  | cons x xs ih =>
    cases h with
    | step hstep hrest =>
      obtain ⟨t, hfront, hback⟩ := ih hrest
      exact ⟨t, .step hstep hfront, hback⟩

/-- A filter is read exactly when a run leads to a partial filter that amounts to it. -/
theorem readAll_eq_ok_iff_run {f : Filter} :
    s.readAll none tokens = .ok f ↔ ∃ t, Run s tokens t ∧ t.finish = .ok f := by
  constructor
  · intro h
    induction tokens generalizing s with
    | nil => exact ⟨s, .refl s, h⟩
    | cons token tokens ih =>
      rw [readAll] at h
      split at h
      · next s' hstep =>
        obtain ⟨t, hrun, hfinish⟩ := ih h
        exact ⟨t, .step hstep hrun, hfinish⟩
      · cases h
  · rintro ⟨t, hrun, hfinish⟩
    have hread := readAll_of_run hrun none []
    rw [List.append_nil] at hread
    exact hread.trans hfinish

/-- A filter is finished after a term, outside of all groups. -/
theorem finish_eq_ok_iff {f : Filter} :
    s.finish = .ok f ↔ ∃ term, s.pending.term? = some term ∧ s.outer = [] ∧
      f = s.level.close term := by
  unfold finish
  cases s.pending.term? with
  | none => simp
  | some term =>
    cases s.outer with
    | nil => simp [eq_comm]
    | cons level outer => simp

/-! ### Parentheses -/

/-- A group is opened in the place of a term. -/
theorem step_opening (h : s.step .opening = .ok t) :
    t = ⟨s.level :: s.outer, .start, .start⟩ := by
  obtain ⟨outer, level, pending⟩ := s
  cases pending <;> cases h
  rfl

/-- A group is closed after a term. -/
theorem step_closing (h : s.step .closing = .ok t) :
    ∃ term level outer, s.pending.term? = some term ∧ s.outer = level :: outer ∧
      t = ⟨outer, level, .complete (.group (s.level.close term))⟩ := by
  cases hterm : s.pending.term? with
  | none =>
    obtain ⟨outer, level, pending⟩ := s
    cases pending <;> cases hterm <;> cases h
  | some term =>
    rw [step_of_endsTerm hterm rfl, afterTerm] at h
    split at h
    · cases h
    · next level outer houter =>
      cases h
      exact ⟨term, level, outer, rfl, houter, rfl⟩

/-- A token that is no parenthesis leaves the open groups as they are. -/
theorem step_outer (h : s.step token = .ok t) (hopening : token.isOpening = false)
    (hclosing : token.isClosing = false) : t.outer = s.outer := by
  have hbegin (h : s.beginTerm token = .ok t) : t.outer = s.outer := by
    cases token with
    | opening => cases hopening
    | value v => cases v <;> cases h; rfl
    | not | name | path | relationship => cases h; rfl
    | and | or | closing | comparison | wildcard | endOfInput => cases h
  have hafter {term : Term} (h : s.afterTerm term token = .ok t) : t.outer = s.outer := by
    cases token with
    | closing => cases hclosing
    | and | or => cases h; rfl
    | _ => cases h
  unfold step at h
  split at h
  · exact hbegin h
  · split at h <;> cases h
    rfl
  · split at h
    · cases h
    · cases h
    · exact hafter h
  · split at h
    · cases h
      rfl
    · cases h
      rfl
    · exact hafter h
  · split at h <;> cases h
    rfl
  · split at h <;> cases h
    rfl
  · split at h
    · split at h <;> cases h
      rfl
    · cases h
      rfl
    · exact hafter h
  · split at h
    · cases h
      rfl
    · exact hafter h
  · exact hafter h

/-- A token opens and closes as many groups wherever it stands. -/
theorem step_depth (h : s.step token = .ok t) :
    t.outer.length + [token].countP Token.isClosing =
      s.outer.length + [token].countP Token.isOpening := by
  by_cases hopening : token.isOpening = true
  · cases token with
    | opening =>
      rw [step_opening h]
      rfl
    | _ => cases hopening
  · by_cases hclosing : token.isClosing = true
    · cases token with
      | closing =>
        obtain ⟨term, level, outer, -, houter, rfl⟩ := step_closing h
        rw [houter]
        rfl
      | _ => cases hclosing
    · rw [List.countP_singleton, List.countP_singleton, if_neg hopening, if_neg hclosing,
        step_outer h (Bool.eq_false_iff.mpr hopening) (Bool.eq_false_iff.mpr hclosing)]

/-- The number of open groups after a run. -/
theorem Run.depth (h : Run s tokens t) :
    t.outer.length + tokens.countP Token.isClosing =
      s.outer.length + tokens.countP Token.isOpening := by
  induction h with
  | refl s => rfl
  | @step s t u token tokens hstep _ ih =>
    have hfirst := step_depth hstep
    rw [← List.singleton_append, List.countP_append, List.countP_append]
    omega

/-- A run from no open group closes no other groups. -/
theorem Run.staysWithin (h : Run s tokens t) : StaysWithin s.outer.length tokens := by
  rintro front ⟨back, rfl⟩
  obtain ⟨middle, hfront, -⟩ := h.of_append
  have hdepth := hfront.depth
  omega

/-! ### Levels around a run -/

/-- The partial filter within further levels. -/
def within (base : List Level) (s : PartialFilter) : PartialFilter :=
  ⟨s.outer ++ base, s.level, s.pending⟩

section Within

variable {base : List Level}

theorem beginTerm_within :
    (s.within base).beginTerm token = (s.beginTerm token).map (within base) := by
  cases token with
  | value v => cases v <;> rfl
  | _ => rfl

theorem afterTerm_within (base : List Level) (hinner : token.isClosing = true → s.outer ≠ [])
    (term : Term) :
    (s.within base).afterTerm term token = (s.afterTerm term token).map (within base) := by
  cases token with
  | closing =>
    obtain ⟨outer, level, pending⟩ := s
    cases outer with
    | nil => exact absurd rfl (hinner rfl)
    | cons below outer => rfl
  | _ => rfl

/-- A token that closes none of the further levels is read in the same way within them. -/
theorem step_within (hinner : token.isClosing = true → s.outer ≠ []) :
    (s.within base).step token = (s.step token).map (within base) := by
  have hafter := afterTerm_within base hinner
  obtain ⟨outer, level, pending⟩ := s
  cases pending with
  | start => exact beginTerm_within
  | negation =>
    simp only [step, within]
    cases token.path? <;> rfl
  | negated p =>
    cases token with
    | comparison | wildcard => rfl
    | _ => exact hafter (.test (.missing p))
  | path p =>
    cases token with
    | comparison | wildcard => rfl
    | _ => exact hafter (.test (.has p))
  | comparison p op => cases token <;> rfl
  | wildcard p =>
    cases token with
    | value v => cases v <;> rfl
    | _ => rfl
  | relationship r =>
    cases token with
    | value v =>
      cases v with
      | symbol term =>
        simp only [step, within]
        split <;> rfl
      | ref target => rfl
      | _ => exact hafter (.test (.related r none))
    | _ => exact hafter (.test (.related r none))
  | qualified r =>
    cases token with
    | value v =>
      cases v with
      | ref target => rfl
      | _ => exact hafter (.test (.related r none))
    | _ => exact hafter (.test (.related r none))
  | complete term => exact hafter term

/-- A run that closes none of the further levels does not depend on them. -/
theorem Run.of_within (h : Run (s.within base) tokens u)
    (hinner : StaysWithin s.outer.length tokens) :
    ∃ t, Run s tokens t ∧ u = t.within base := by
  induction tokens generalizing s with
  | nil =>
    cases h
    exact ⟨s, .refl s, rfl⟩
  | cons token tokens ih =>
    cases h with
    | @step _ middle _ _ _ hstep hrest =>
      have hopen : token.isClosing = true → s.outer ≠ [] := fun hclosing =>
        List.length_pos_iff.mp (hinner.pos_of_isClosing hclosing)
      rw [step_within hopen] at hstep
      cases hs : s.step token with
      | error refusal =>
        rw [hs] at hstep
        cases hstep
      | ok s' =>
        rw [hs] at hstep
        cases hstep
        obtain ⟨t, hrun, rfl⟩ := ih hrest (hinner.tail (step_depth hs))
        exact ⟨t, .step hs hrun, rfl⟩

end Within

end PartialFilter

open PartialFilter

/-- The filter of a level that ends with a term ends with that term. -/
theorem Level.close_eq (l : Level) (t : Term) :
    l.close t = l.alternatives.reverse ++ [l.terms.reverse ++ [t]] := by
  simp only [Level.close, Level.addTerm, Level.finishConjunction, Level.toFilter,
    List.reverse_cons]

/-- The tokens of a filter close no group that they do not open. -/
theorem staysWithin_of_readAll {tokens : List Token} {f : Filter}
    (h : PartialFilter.start.readAll none tokens = .ok f) : StaysWithin 0 tokens := by
  obtain ⟨t, hrun, -⟩ := readAll_eq_ok_iff_run.mp h
  exact hrun.staysWithin

/-- Tokens that close no group that they do not open are a filter of their own when they stand
between the parentheses at the end of a filter, and that filter is its last group. -/
theorem exists_group_of_readAll {xs ys : List Token} {f : Filter}
    (h : PartialFilter.start.readAll none (xs ++ .opening :: (ys ++ [.closing])) = .ok f)
    (hinner : StaysWithin 0 ys) :
    ∃ g alternatives terms, PartialFilter.start.readAll none ys = .ok g ∧
      f = alternatives ++ [terms ++ [.group g]] := by
  obtain ⟨last, hrun, hfinish⟩ := readAll_eq_ok_iff_run.mp h
  obtain ⟨s, -, hgroup⟩ := hrun.of_append
  cases hgroup with
  | step hopening hrest =>
    cases step_opening hopening
    obtain ⟨u, hbody, hclose⟩ := hrest.of_append
    have hbody : Run (PartialFilter.start.within (s.level :: s.outer)) ys u := hbody
    obtain ⟨t, hown, rfl⟩ := hbody.of_within hinner
    cases hclose with
    | step hclosing hend =>
      obtain ⟨term, level, outer, hterm, houter, rfl⟩ := step_closing hclosing
      cases hend
      obtain ⟨_, hlast, rfl, rfl⟩ := finish_eq_ok_iff.mp hfinish
      cases hlast
      -- the parenthesis has closed the only open group, so no other was open in front of it
      obtain ⟨hinside, hbelow⟩ : t.outer = [] ∧ s.level :: s.outer = [level] := by
        rcases List.append_eq_singleton_iff.mp houter with h | ⟨-, h⟩
        · exact h
        · cases h
      obtain ⟨rfl, -⟩ := List.cons.inj hbelow
      refine ⟨t.level.close term, s.level.alternatives.reverse, s.level.terms.reverse, ?_, ?_⟩
      · exact readAll_eq_ok_iff_run.mpr ⟨t, hown, finish_eq_ok_iff.mpr ⟨term, hterm, hinside, rfl⟩⟩
      · exact s.level.close_eq _

end TagFilter
