import TagFilter.Proofs.Filter.Spelling
import TagFilter.Proofs.Scanner.Scanned

/-!
# Texts of tests

The text of a test is read as the test, up to its literals: a test whose names can be written spells
the test with each literal replaced by what its written form is read as.  The tests of a filter that
is read from a text are of this kind.
-/

namespace TagFilter

/-- The names, symbols and refs of a test can be written. -/
def Test.HasPlainNames : Test → Prop
  | .has p | .missing p | .compare p _ _ => p.IsPlain
  | .isA type => isId type.name = true
  | .related r target =>
    IsPlainName r.name ∧ (∀ term ∈ r.term, isId term.name = true) ∧
      ∀ t ∈ target, isId t.id = true
  | .reaches p target => p.IsPlain ∧ isId target.id = true

/-- The literal that a test compares to. -/
def Test.operand? : Test → Option Value
  | .compare _ _ operand => some operand
  | _ => none

/-- The ref that is read back from the written form of a ref. -/
def Ref.written (r : Ref) : Ref :=
  ⟨r.id, none⟩

/-- The test as it is read back, given what its literal is read as. -/
def Test.reread (read : Value → Value) : Test → Test
  | .compare p op operand => .compare p op (read operand)
  | .related r target => .related r (target.map Ref.written)
  | .reaches p target => .reaches p target.written
  | test => test

/-! ### Words -/

/-- The word for a path. -/
def PathWord.ofPath (p : Path) : PathWord :=
  if p.isSingle then .name p.head else .path p

theorem PathWord.token_ofPath (p : Path) : (PathWord.ofPath p).token = Token.ofPath p := by
  unfold PathWord.ofPath Token.ofPath
  split
  · rfl
  · rfl

theorem PathWord.toPath_ofPath (p : Path) : (PathWord.ofPath p).toPath = p := by
  obtain ⟨head, tail⟩ := p
  cases tail with
  | nil => rfl
  | cons name names => rfl

theorem tokenize_pathWord {p : Path} (h : p.IsPlain) :
    tokenize p.toText = .ok [(PathWord.ofPath p).token] := by
  rw [PathWord.token_ofPath]
  exact tokenize_path h

theorem tokenize_target {text : String} {tokens : List Token} (htext : tokenize text = .ok tokens)
    (target : Option Ref) : (∀ t ∈ target, isId t.id = true) →
      tokenize (text ++ (match target with
        | some target => " " ++ target.toText
        | none => "")) = .ok (tokens ++ targetTokens (target.map Ref.written)) := by
  intro h
  cases target with
  | none =>
    simp only [String.append_empty, Option.map_none, targetTokens, List.append_nil]
    exact htext
  | some target =>
    simp only
    rw [← String.append_assoc]
    exact tokenize_append_blank htext (tokenize_ref (h target rfl))

theorem tokenize_compare {p : Path} (h : p.IsPlain) (op : Comparison) {operand : String}
    {token : Token} (hoperand : tokenize operand = .ok [token]) :
    tokenize (p.toText ++ " " ++ op.toText ++ " " ++ operand) =
      .ok [(PathWord.ofPath p).token, .comparison op, token] :=
  tokenize_append_blank (tokenize_append_blank (tokenize_pathWord h) (tokenize_comparison op))
    hoperand

theorem tokenize_reaches {p : Path} (h : p.IsPlain) {target : Ref}
    (htarget : isId target.id = true) :
    tokenize (p.toText ++ " *== " ++ target.toText) =
      .ok [(PathWord.ofPath p).token, .wildcard, .value (.ref target.written)] := by
  have htext : p.toText ++ " *== " ++ target.toText =
      p.toText ++ " " ++ "*==" ++ " " ++ target.toText := by
    simp only [String.append_assoc]
    rfl
  rw [htext]
  exact tokenize_append_blank (tokenize_append_blank (tokenize_pathWord h) tokenize_wildcard)
    (tokenize_ref htarget)

/-- The tokens of a relationship with a term that stands apart. -/
def relatedTokens (r : Relationship) (target : Option Ref) : List Token :=
  .relationship ⟨r.name, none⟩ ::
    ((r.term.map fun term => .value (.symbol term)).toList ++ targetTokens target)

theorem tokenize_related {r : Relationship} {target : Option Ref} (hname : IsPlainName r.name)
    (hterm : ∀ term ∈ r.term, isId term.name = true) (htarget : ∀ t ∈ target, isId t.id = true) :
    tokenize (relatedText r target) = .ok (relatedTokens r (target.map Ref.written)) := by
  obtain ⟨name, term⟩ := r
  have hword := tokenize_relationship hname
  unfold relatedText
  simp only
  cases term with
  | none =>
    rw [String.append_empty]
    exact tokenize_target hword target htarget
  | some term =>
    have hqualified := tokenize_append_blank hword (tokenize_symbol (hterm term rfl))
    rw [← String.append_assoc]
    exact tokenize_target hqualified target htarget

/-! ### Tests -/

section Spelled

variable {p : Path} {read : Value → Value}

theorem spells_has (h : p.IsPlain) : SpellsTerm p.toText (.test (.has p)) := by
  refine ⟨.has (PathWord.ofPath p), tokenize_pathWord h, ?_⟩
  rw [Phrase.term, PathWord.toPath_ofPath]

theorem spells_missing (h : p.IsPlain) : SpellsTerm ("not " ++ p.toText) (.test (.missing p)) := by
  have htext : "not " ++ p.toText = "not" ++ " " ++ p.toText := congrArg (· ++ p.toText) rfl
  refine ⟨.missing (PathWord.ofPath p), ?_, ?_⟩
  · rw [htext]
    exact tokenize_append_blank tokenize_not (tokenize_pathWord h)
  · rw [Phrase.term, PathWord.toPath_ofPath]

theorem spells_compare (h : p.IsPlain) (op : Comparison) {operand other : Value}
    (hoperand : tokenize operand.toText = .ok [.value other]) :
    SpellsTerm (Test.compare p op operand).toText (.test (.compare p op other)) := by
  refine ⟨.compare (PathWord.ofPath p) op other, tokenize_compare h op hoperand, ?_⟩
  rw [Phrase.term, PathWord.toPath_ofPath]

theorem spells_reaches (h : p.IsPlain) {target : Ref} (htarget : isId target.id = true) :
    SpellsTerm (Test.reaches p target).toText (.test (.reaches p target.written)) := by
  refine ⟨.reaches (PathWord.ofPath p) target.written, tokenize_reaches h htarget, ?_⟩
  rw [Phrase.term, PathWord.toPath_ofPath]

theorem spells_isA {type : Symbol} (h : isId type.name = true) :
    SpellsTerm type.toText (.test (.isA type)) :=
  ⟨.isA type, tokenize_symbol h, rfl⟩

/-- A relationship test is read with its term after its name. -/
theorem spells_related {r : Relationship} {target : Option Ref} (hname : IsPlainName r.name)
    (hterm : ∀ term ∈ r.term, isId term.name = true) (htarget : ∀ t ∈ target, isId t.id = true) :
    SpellsTerm (relatedText r target) (.test (.related r (target.map Ref.written))) := by
  have htokens := tokenize_related hname hterm htarget
  obtain ⟨name, term⟩ := r
  cases term with
  | none => exact ⟨.related ⟨name, none⟩ (target.map Ref.written), htokens, rfl⟩
  | some term => exact ⟨.qualified name term (target.map Ref.written), htokens, rfl⟩

/-- The text of a test spells the test with its literal as it is read back. -/
theorem Test.spells {test : Test} (h : test.HasPlainNames)
    (hoperand : ∀ v ∈ test.operand?, tokenize v.toText = .ok [.value (read v)]) :
    SpellsTerm test.toText (.test (test.reread read)) := by
  cases test with
  | has p => exact spells_has h
  | missing p => exact spells_missing h
  | compare p op operand => exact spells_compare h op (hoperand operand rfl)
  | isA type => exact spells_isA h
  | related r target => exact spells_related h.1 h.2.1 h.2.2
  | reaches p target => exact spells_reaches h.1 h.2

end Spelled

/-! ### Tests that are read -/

/-- The test is one that a text can be read as. -/
def Test.IsScanned (test : Test) : Prop :=
  test.HasPlainNames ∧ ∀ v ∈ test.operand?, v.IsScanned

/-- A test without a literal. -/
theorem Test.isScanned_of_operand?_eq_none {test : Test} (h : test.HasPlainNames)
    (hnone : test.operand? = none) : test.IsScanned := by
  refine ⟨h, fun v hv => ?_⟩
  rw [hnone] at hv
  exact absurd hv (Option.not_mem_none v)

theorem PathWord.isPlain_toPath {w : PathWord} (h : w.token.IsScanned) : w.toPath.IsPlain := by
  cases w with
  | name text => exact ⟨h, List.forall_mem_nil _⟩
  | path p => exact h

theorem isId_of_targetTokens {target : Option Ref}
    (h : ∀ token ∈ targetTokens target, token.IsScanned) : ∀ t ∈ target, isId t.id = true := by
  rintro t rfl
  exact h _ List.mem_cons_self

/-- The test of a phrase that is no group. -/
theorem Phrase.isScanned_test {p : Phrase} {test : Test} (hterm : p.term = .test test)
    (h : ∀ token ∈ p.tokens, token.IsScanned) : test.IsScanned := by
  cases p with
  | missing w =>
    cases hterm
    have hpath := h w.token (List.mem_cons_of_mem _ List.mem_cons_self)
    exact Test.isScanned_of_operand?_eq_none (PathWord.isPlain_toPath hpath) rfl
  | group body => cases hterm
  | has w =>
    cases hterm
    have hpath := h w.token List.mem_cons_self
    exact Test.isScanned_of_operand?_eq_none (PathWord.isPlain_toPath hpath) rfl
  | compare w op operand =>
    cases hterm
    have hpath := h w.token List.mem_cons_self
    have hvalue := h (.value operand)
      (List.mem_cons_of_mem _ (List.mem_cons_of_mem _ List.mem_cons_self))
    refine ⟨PathWord.isPlain_toPath hpath, ?_⟩
    rintro v ⟨⟩
    exact hvalue
  | reaches w target =>
    cases hterm
    have hpath := h w.token List.mem_cons_self
    have htarget := h (.value (.ref target))
      (List.mem_cons_of_mem _ (List.mem_cons_of_mem _ List.mem_cons_self))
    exact Test.isScanned_of_operand?_eq_none ⟨PathWord.isPlain_toPath hpath, htarget⟩ rfl
  | isA type =>
    cases hterm
    exact Test.isScanned_of_operand?_eq_none (h _ List.mem_cons_self) rfl
  | related r target =>
    cases hterm
    have hword : Token.IsScanned (.relationship r) := h _ List.mem_cons_self
    have htarget := isId_of_targetTokens fun token htoken => h token (List.mem_cons_of_mem _ htoken)
    exact Test.isScanned_of_operand?_eq_none ⟨hword.1, hword.2, htarget⟩ rfl
  | qualified name type target =>
    cases hterm
    have hword : Token.IsScanned (.relationship ⟨name, none⟩) := h _ List.mem_cons_self
    have htype : Token.IsScanned (.value (.symbol type)) :=
      h _ (List.mem_cons_of_mem _ List.mem_cons_self)
    have htarget := isId_of_targetTokens fun token htoken =>
      h token (List.mem_cons_of_mem _ (List.mem_cons_of_mem _ htoken))
    refine Test.isScanned_of_operand?_eq_none ⟨hword.1, ?_, htarget⟩ rfl
    rintro term ⟨⟩
    exact htype

mutual

/-- The tests of a phrase of scanned tokens. -/
theorem Phrase.isScanned_tests : (p : Phrase) → (∀ token ∈ p.tokens, token.IsScanned) →
    ∀ test ∈ p.term.tests, test.IsScanned
  | .group body, h => by
    rw [Phrase.term, Term.tests_group]
    refine body.isScanned_tests fun token htoken => h token ?_
    exact List.mem_cons_of_mem _ (List.mem_append_left _ htoken)
  | .missing w, h | .has w, h | .compare w _ _, h | .reaches w _, h | .isA _, h | .related _ _, h
  | .qualified _ _ _, h => fun test htest => by
    rw [List.mem_singleton.mp htest]
    exact Phrase.isScanned_test rfl h

/-- The tests of a clause of scanned tokens. -/
theorem Clause.isScanned_tests : (c : Clause) → (∀ token ∈ c.tokens, token.IsScanned) →
    ∀ t ∈ c.terms, ∀ test ∈ t.tests, test.IsScanned
  | .single p, h => fun t ht => by
    rw [List.mem_singleton.mp ht]
    exact p.isScanned_tests h
  | .and p c, h => fun t ht => by
    rcases List.mem_cons.mp ht with rfl | ht
    · exact p.isScanned_tests fun token htoken => h token (List.mem_append_left _ htoken)
    · refine c.isScanned_tests (fun token htoken => h token ?_) t ht
      exact List.mem_append_right _ (List.mem_cons_of_mem _ htoken)

/-- The tests of a sentence of scanned tokens. -/
theorem Sentence.isScanned_tests : (s : Sentence) → (∀ token ∈ s.tokens, token.IsScanned) →
    ∀ test ∈ Filter.tests s.filter, test.IsScanned
  | .single c, h => fun test htest => by
    obtain ⟨d, hd, t, ht, htest⟩ := Filter.mem_tests.mp htest
    rw [List.mem_singleton.mp hd] at ht
    exact c.isScanned_tests h t ht test htest
  | .or c s, h => fun test htest => by
    obtain ⟨d, hd, t, ht, htest⟩ := Filter.mem_tests.mp htest
    rcases List.mem_cons.mp hd with rfl | hd
    · exact c.isScanned_tests (fun token htoken => h token (List.mem_append_left _ htoken)) t ht
        test htest
    · refine s.isScanned_tests (fun token htoken => h token ?_) test
        (Filter.mem_tests.mpr ⟨d, hd, t, ht, htest⟩)
      exact List.mem_append_right _ (List.mem_cons_of_mem _ htoken)

end

/-- The tests of a filter that is read from a text. -/
theorem SpellsFilter.isScanned {text : String} {f : Filter} (h : SpellsFilter text f) :
    ∀ test ∈ Filter.tests f, test.IsScanned := by
  obtain ⟨d, htokens, rfl⟩ := h
  exact d.isScanned_tests (isScanned_of_tokenize htokens)

end TagFilter
