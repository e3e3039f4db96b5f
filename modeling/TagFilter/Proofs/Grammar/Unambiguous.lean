import TagFilter.Proofs.Boundary
import TagFilter.Proofs.Grammar.Derivation

/-!
# The grammar is unambiguous

A derivation is determined by its tokens.  The statement that goes through by recursion on the
derivation is about tokens in front of others: where two derivations, each followed by tokens that
cannot belong to it, make up the same list, they are the same derivation followed by the same
tokens.
-/

namespace TagFilter

/-- Whether a token may stand after a term. -/
def Token.endsTerm : Token → Bool
  | .and => true
  | .or => true
  | .closing => true
  | _ => false

/-- Whether a token may stand after a conjunction. -/
def Token.endsConjunction : Token → Bool
  | .or => true
  | .closing => true
  | _ => false

/-- Whether a token may stand after a filter. -/
def Token.endsFilter : Token → Bool
  | .closing => true
  | _ => false

theorem Token.endsTerm_of_endsConjunction (token : Token)
    (h : token.endsConjunction = true) : token.endsTerm = true := by
  cases token <;> first | rfl | cases h

theorem Token.endsConjunction_of_endsFilter (token : Token)
    (h : token.endsFilter = true) : token.endsConjunction = true := by
  cases token <;> first | rfl | cases h

theorem PathWord.token_inj {v w : PathWord} (h : v.token = w.token) : v = w := by
  cases v <;> cases w <;> cases h <;> rfl

/-- An optional ref is determined by its token, in front of what may stand after a term. -/
theorem targetTokens_append_inj {a b : Option Ref} {r r' : List Token}
    (h : targetTokens a ++ r = targetTokens b ++ r') (hr : StartsIn Token.endsTerm r)
    (hr' : StartsIn Token.endsTerm r') : a = b ∧ r = r' := by
  cases a with
  | none =>
    cases b with
    | none => exact ⟨rfl, h⟩
    | some target =>
      exact absurd h (hr.ne_cons _ rfl)
  | some target =>
    cases b with
    | none =>
      exact absurd h.symm (hr'.ne_cons _ rfl)
    | some other =>
      obtain ⟨htarget, hrest⟩ := List.cons.inj h
      cases htarget
      exact ⟨rfl, hrest⟩

/-- The path that opens a phrase, if one does. -/
def Phrase.path? : Phrase → Option PathWord
  | .has w | .compare w _ _ | .reaches w _ => some w
  | _ => none

/-- The word for a relationship that opens a phrase, if one does. -/
def Phrase.relationship? : Phrase → Option Relationship
  | .related r _ => some r
  | .qualified name _ _ => some ⟨name, none⟩
  | _ => none

section Openings

variable {p q : Phrase} {r r' : List Token}

/-- Phrases that open with a path are told apart by the token after it. -/
theorem Phrase.append_inj_of_path {w v : PathWord} (hp : p.path? = some w) (hq : q.path? = some v)
    (h : p.tokens ++ r = q.tokens ++ r') (hr : StartsIn Token.endsTerm r)
    (hr' : StartsIn Token.endsTerm r') : p = q ∧ r = r' := by
  cases p with
  | missing _ | group _ | isA _ | related _ _ | qualified _ _ _ => cases hp
  | has w =>
    cases q with
    | missing _ | group _ | isA _ | related _ _ | qualified _ _ _ => cases hq
    | has v =>
      injection h with hw hrest
      exact ⟨by rw [PathWord.token_inj hw], hrest⟩
    | compare v _ _ | reaches v _ =>
      injection h with _ hrest
      exact absurd hrest (hr.ne_cons _ rfl)
  | compare w op operand =>
    cases q with
    | missing _ | group _ | isA _ | related _ _ | qualified _ _ _ => cases hq
    | compare v other value =>
      simp only [Phrase.tokens, List.cons_append, List.nil_append] at h
      injection h with hw h
      injection h with hop h
      injection h with hvalue hrest
      cases hop
      cases hvalue
      exact ⟨by rw [PathWord.token_inj hw], hrest⟩
    | has v =>
      injection h with _ hrest
      exact absurd hrest.symm (hr'.ne_cons _ rfl)
    | reaches v _ =>
      injection h with _ h
      cases h
  | reaches w target =>
    cases q with
    | missing _ | group _ | isA _ | related _ _ | qualified _ _ _ => cases hq
    | reaches v other =>
      simp only [Phrase.tokens, List.cons_append, List.nil_append] at h
      injection h with hw h
      injection h with _ h
      injection h with htarget hrest
      cases htarget
      exact ⟨by rw [PathWord.token_inj hw], hrest⟩
    | has v =>
      injection h with _ hrest
      exact absurd hrest.symm (hr'.ne_cons _ rfl)
    | compare v _ _ =>
      injection h with _ h
      cases h

/-- Phrases that open with a relationship are told apart by whether a symbol stands after it. -/
theorem Phrase.append_inj_of_relationship {a b : Relationship} (hp : p.relationship? = some a)
    (hq : q.relationship? = some b) (h : p.tokens ++ r = q.tokens ++ r')
    (hr : StartsIn Token.endsTerm r) (hr' : StartsIn Token.endsTerm r') : p = q ∧ r = r' := by
  cases p with
  | missing _ | group _ | has _ | compare _ _ _ | reaches _ _ | isA _ => cases hp
  | related a target =>
    cases q with
    | missing _ | group _ | has _ | compare _ _ _ | reaches _ _ | isA _ => cases hq
    | related b other =>
      injection h with hname h
      cases hname
      obtain ⟨rfl, hrest⟩ := targetTokens_append_inj h hr hr'
      exact ⟨rfl, hrest⟩
    | qualified name type other =>
      injection h with _ h
      cases target with
      | some target => cases h
      | none => exact absurd h (hr.ne_cons _ rfl)
  | qualified name type target =>
    cases q with
    | missing _ | group _ | has _ | compare _ _ _ | reaches _ _ | isA _ => cases hq
    | qualified name' type' other =>
      injection h with hname h
      injection h with htype h
      cases hname
      cases htype
      obtain ⟨rfl, hrest⟩ := targetTokens_append_inj h hr hr'
      exact ⟨rfl, hrest⟩
    | related b other =>
      injection h with _ h
      cases other with
      | some target => cases h
      | none => exact absurd h.symm (hr'.ne_cons _ rfl)

end Openings

mutual

/-- A phrase in front of what may stand after a term is determined by the tokens. -/
theorem Phrase.append_inj (p q : Phrase) {r r' : List Token}
    (h : p.tokens ++ r = q.tokens ++ r') (hr : StartsIn Token.endsTerm r)
    (hr' : StartsIn Token.endsTerm r') : p = q ∧ r = r' := by
  cases p with
  | missing w =>
    cases q with
    | missing v =>
      simp only [Phrase.tokens, List.cons_append, List.nil_append] at h
      injection h with _ h
      injection h with hw hrest
      exact ⟨by rw [PathWord.token_inj hw], hrest⟩
    | has v | compare v _ _ | reaches v _ => cases v <;> cases h
    | group _ | isA _ | related _ _ | qualified _ _ _ => cases h
  | group body =>
    cases q with
    | group other =>
      simp only [Phrase.tokens, List.cons_append, List.append_assoc, List.nil_append] at h
      injection h with _ h
      obtain ⟨rfl, htail⟩ :=
        Sentence.append_inj body other h (startsIn_cons rfl _) (startsIn_cons rfl _)
      injection htail with _ hrest
      exact ⟨rfl, hrest⟩
    | has v | compare v _ _ | reaches v _ => cases v <;> cases h
    | missing _ | isA _ | related _ _ | qualified _ _ _ => cases h
  | has w | compare w _ _ | reaches w _ =>
    cases q with
    | has v | compare v _ _ | reaches v _ => exact Phrase.append_inj_of_path rfl rfl h hr hr'
    | missing _ | group _ | isA _ | related _ _ | qualified _ _ _ => cases w <;> cases h
  | isA type =>
    cases q with
    | isA other =>
      injection h with htype hrest
      cases htype
      exact ⟨rfl, hrest⟩
    | has v | compare v _ _ | reaches v _ => cases v <;> cases h
    | missing _ | group _ | related _ _ | qualified _ _ _ => cases h
  | related _ _ | qualified _ _ _ =>
    cases q with
    | related _ _ | qualified _ _ _ =>
      exact Phrase.append_inj_of_relationship rfl rfl h hr hr'
    | has v | compare v _ _ | reaches v _ => cases v <;> cases h
    | missing _ | group _ | isA _ => cases h
termination_by structural p

/-- A clause in front of what may stand after a conjunction is determined by the tokens. -/
theorem Clause.append_inj (c d : Clause) {r r' : List Token}
    (h : c.tokens ++ r = d.tokens ++ r') (hr : StartsIn Token.endsConjunction r)
    (hr' : StartsIn Token.endsConjunction r') : c = d ∧ r = r' := by
  have term {r : List Token} (hr : StartsIn Token.endsConjunction r) : StartsIn Token.endsTerm r :=
    hr.mono Token.endsTerm_of_endsConjunction
  cases c with
  | single p =>
    cases d with
    | single q =>
      obtain ⟨rfl, hrest⟩ := Phrase.append_inj p q h (term hr) (term hr')
      exact ⟨rfl, hrest⟩
    | and q d =>
      simp only [Clause.tokens, List.append_assoc] at h
      obtain ⟨-, hrest⟩ := Phrase.append_inj p q h (term hr) (startsIn_cons rfl _)
      exact absurd hrest (hr.ne_cons _ rfl)
  | and p c =>
    simp only [Clause.tokens, List.append_assoc] at h
    cases d with
    | single q =>
      obtain ⟨-, hrest⟩ := Phrase.append_inj p q h (startsIn_cons rfl _) (term hr')
      exact absurd hrest.symm (hr'.ne_cons _ rfl)
    | and q d =>
      simp only [Clause.tokens, List.append_assoc] at h
      obtain ⟨rfl, htail⟩ := Phrase.append_inj p q h (startsIn_cons rfl _) (startsIn_cons rfl _)
      injection htail with _ htail
      obtain ⟨rfl, hrest⟩ := Clause.append_inj c d htail hr hr'
      exact ⟨rfl, hrest⟩
termination_by structural c

/-- A sentence in front of what may stand after a filter is determined by the tokens. -/
theorem Sentence.append_inj (s t : Sentence) {r r' : List Token}
    (h : s.tokens ++ r = t.tokens ++ r') (hr : StartsIn Token.endsFilter r)
    (hr' : StartsIn Token.endsFilter r') : s = t ∧ r = r' := by
  have conjunction {r : List Token} (hr : StartsIn Token.endsFilter r) :
      StartsIn Token.endsConjunction r :=
    hr.mono Token.endsConjunction_of_endsFilter
  cases s with
  | single c =>
    cases t with
    | single d =>
      obtain ⟨rfl, hrest⟩ := Clause.append_inj c d h (conjunction hr) (conjunction hr')
      exact ⟨rfl, hrest⟩
    | or d t =>
      simp only [Sentence.tokens, List.append_assoc] at h
      obtain ⟨-, hrest⟩ := Clause.append_inj c d h (conjunction hr) (startsIn_cons rfl _)
      exact absurd hrest (hr.ne_cons _ rfl)
  | or c s =>
    simp only [Sentence.tokens, List.append_assoc] at h
    cases t with
    | single d =>
      obtain ⟨-, hrest⟩ := Clause.append_inj c d h (startsIn_cons rfl _) (conjunction hr')
      exact absurd hrest.symm (hr'.ne_cons _ rfl)
    | or d t =>
      simp only [Sentence.tokens, List.append_assoc] at h
      obtain ⟨rfl, htail⟩ := Clause.append_inj c d h (startsIn_cons rfl _) (startsIn_cons rfl _)
      injection htail with _ htail
      obtain ⟨rfl, hrest⟩ := Sentence.append_inj s t htail hr hr'
      exact ⟨rfl, hrest⟩
termination_by structural s

end

/-- A sentence is determined by its tokens. -/
theorem Sentence.tokens_inj {s t : Sentence} (h : s.tokens = t.tokens) : s = t := by
  have h : s.tokens ++ [] = t.tokens ++ [] := by rw [h]
  exact (Sentence.append_inj s t h (startsIn_nil _) (startsIn_nil _)).1

end TagFilter
