import Mathlib.Data.List.Forall2
import TagFilter.Proofs.BuilderGroups
import TagFilter.Proofs.Filter.LexesBack
import TagFilter.Proofs.Grammar.Continuation
import TagFilter.Proofs.Scanner.Literals

/-!
# The tokens of a builder

A builder writes the tokens that its steps ask for, one step after the other, and no others
(`Builder.tokenize_steps`): no word runs into the one before it, and no literal ends early or takes
in what follows it.

The words of two steps meet in one of three ways.  A blank between them, or a closing parenthesis
behind the first, is a separator, and in front of a separator a text is read as it is read alone.
An opening parenthesis that ends the first may belong to any word, so it is first split off from the
text before it, which can be read without it (`tokenize_append_of_endsOpening`).
-/

namespace TagFilter

/-! ### Texts next to each other -/

section Adjacent

variable {a b : String} {xs ys : List Token}

theorem tokenize_empty : tokenize "" = .ok [] :=
  tokenize_eq_ok_iff.mpr (readChars_finished rfl)

/-- A text is not changed by what begins with a separator. -/
theorem tokenize_append_of_startsIn (ha : tokenize a = .ok xs) (hb : tokenize b = .ok ys)
    (hstart : StartsIn isSeparator b.toList) : tokenize (a ++ b) = .ok (xs ++ ys) := by
  rw [tokenize_eq_ok_iff] at ha hb ⊢
  rw [String.toList_append, readChars_append hstart ha, hb]

/-- Behind an opening parenthesis any text begins anew. -/
theorem tokenize_append_of_endsOpening (ha : tokenize a = .ok xs) (hb : tokenize b = .ok ys)
    (hlast : a.toList.getLast? = some '(') : tokenize (a ++ b) = .ok (xs ++ ys) := by
  rw [tokenize_eq_ok_iff] at ha hb ⊢
  obtain ⟨front, hfront⟩ := List.getLast?_eq_some_iff.mp hlast
  rw [hfront] at ha
  obtain ⟨inner, hinner, rfl⟩ := readChars_of_append_mark rfl rfl ha
  have hopening : scan ('(' :: b.toList) = .token .opening b.toList := rfl
  have hsplit : (a ++ b).toList = front ++ '(' :: b.toList := by
    rw [String.toList_append, hfront, List.append_assoc]
    rfl
  have hstart : StartsIn isSeparator ('(' :: b.toList) := startsIn_cons rfl _
  rw [hsplit, readChars_append hstart hinner, readChars_token hopening, hb, List.append_assoc]
  rfl

end Adjacent

/-- A filter is read from a text as from its tokens. -/
theorem ofText?_eq_ok_iff_ofTokens? {text : String} {tokens : List Token} {f : Filter}
    (h : tokenize text = .ok tokens) :
    Filter.ofText? text = .ok f ↔ Filter.ofTokens? tokens = .ok f := by
  have hinput : ∀ token ∈ tokens, token.isEnd = false := by
    have hend := readChars_isEnd text.toList
    rw [tokenize_eq_ok_iff.mp h] at hend
    exact hend
  rw [ofText?_eq_ok_iff_readAll h, ofTokens?_eq_readAll hinput]

namespace Builder

/-- A word that is added brings its own tokens, behind those that were there before. -/
theorem tokenize_push {b : Builder} {word : String} {before tokens : List Token}
    (hbefore : tokenize b.text = .ok before) (hword : tokenize word = .ok tokens) :
    tokenize (b.push word).text = .ok (before ++ tokens) := by
  unfold push
  cases hblank : needsBlank b.text word with
  | true => exact tokenize_append_blank hbefore hword
  | false =>
    simp only [needsBlank, Bool.and_eq_false_iff, Bool.not_eq_false', String.isEmpty_iff,
      bne_eq_false_iff_eq] at hblank
    rcases hblank with (hempty | hopening) | hclosing
    · have hnone : tokenize b.text = .ok [] := by
        rw [hempty]
        exact tokenize_empty
      rw [hnone] at hbefore
      cases hbefore
      rw [hempty, if_neg Bool.false_ne_true, String.empty_append, List.nil_append]
      exact hword
    · exact tokenize_append_of_endsOpening hbefore hword hopening
    · refine tokenize_append_of_startsIn hbefore hword ?_
      rw [hclosing]
      exact startsIn_cons rfl []

end Builder

/-! ### What steps ask for -/

/-- A step has arguments that can be written, and asks for some tokens. -/
inductive BuildStep.Writes : BuildStep → List Token → Prop where
  /-- A path is one word. -/
  | has {p : Path} (hpath : p.IsPlain) : Writes (.has p.toText) [Token.ofPath p]
  /-- The word between terms. -/
  | and : Writes .and [.and]
  /-- The word between conjunctions. -/
  | or : Writes .or [.or]
  /-- The word that negates a path. -/
  | not : Writes .not [.not]
  /-- A type is a symbol, with its mark or without. -/
  | isA {type : String} (htype : isId (unmarked type) = true) :
    Writes (.isA type) [.value (.symbol ⟨unmarked type⟩)]
  /-- A relationship is followed by its term, with its mark or without, and by its target. -/
  | related {name : String} {term : Option String} {target : Option Ref}
    (hname : IsPlainName name) (hterm : ∀ type ∈ term, isId (unmarked type) = true)
    (htarget : ∀ r ∈ target, isId r.id = true) :
    Writes (.related name term target)
      (relatedTokens ⟨name, term.map fun type => ⟨unmarked type⟩⟩ (target.map Ref.written))
  /-- A wildcard stands between a path and a ref. -/
  | reaches {p : Path} {target : Ref} (hpath : p.IsPlain) (htarget : isId target.id = true) :
    Writes (.reaches p.toText target) [Token.ofPath p, .wildcard, .value (.ref target.written)]
  /-- An opening parenthesis. -/
  | opening : Writes .opening [.opening]
  /-- A closing parenthesis. -/
  | closing : Writes .closing [.closing]
  /-- An operator stands between a path and a value that is its own literal. -/
  | compare {p : Path} {op : Comparison} {v w : Value} (hpath : p.IsPlain)
    (hliteral : tokenize v.toText = .ok [.value w]) (hsame : w.same v = true) :
    Writes (.compare p.toText op v) [Token.ofPath p, .comparison op, .value w]
  /-- A text that is made of tokens is put in parentheses. -/
  | filter {text : String} {tokens : List Token} (htext : tokenize text = .ok tokens) :
    Writes (.filter text) (.opening :: (tokens ++ [.closing]))
  /-- The text of another builder that is made of tokens is put in parentheses. -/
  | nested {steps : List BuildStep} {tokens : List Token}
    (htext : tokenize (Builder.empty.runSteps steps).text = .ok tokens) :
    Writes (.nested steps) (.opening :: (tokens ++ [.closing]))

/-- The word of a step has the tokens that the step asks for. -/
theorem BuildStep.Writes.tokenize_word {step : BuildStep} {tokens : List Token}
    (h : step.Writes tokens) : tokenize step.word = .ok tokens := by
  cases h with
  | has hpath => exact tokenize_path hpath
  | and => exact tokenize_and
  | or => exact tokenize_or
  | not => exact tokenize_not
  | isA htype => exact tokenize_symbol htype
  | related hname hterm htarget =>
    refine tokenize_related hname (fun type htype => ?_) htarget
    obtain ⟨marked, hmarked, rfl⟩ := Option.map_eq_some_iff.mp htype
    exact hterm marked hmarked
  | reaches hpath htarget =>
    rw [← PathWord.token_ofPath]
    exact tokenize_reaches hpath htarget
  | opening => exact tokenize_of_scan rfl
  | closing => exact tokenize_of_scan rfl
  | compare hpath hliteral =>
    rw [← PathWord.token_ofPath]
    exact tokenize_compare hpath _ hliteral
  | filter htext => exact tokenize_parenthesized htext
  | nested htext => exact tokenize_parenthesized htext

namespace Builder

/-- The tokens of several steps stand one after the other behind those that were there before. -/
theorem tokenize_runSteps {b : Builder} {before : List Token} {steps : List BuildStep}
    {tokens : List (List Token)} (hbefore : tokenize b.text = .ok before)
    (h : List.Forall₂ BuildStep.Writes steps tokens) :
    tokenize (b.runSteps steps).text = .ok (before ++ tokens.flatten) := by
  induction h generalizing b before with
  | nil =>
    rw [List.flatten_nil, List.append_nil]
    exact hbefore
  | @cons step written steps tokens hstep _ ih =>
    have hpush := tokenize_push hbefore hstep.tokenize_word
    have hrest := ih hpush
    rw [List.append_assoc] at hrest
    exact hrest

/-- A builder writes the tokens that its steps ask for, one step after the other, and it can be
built exactly when these are the tokens of a filter.  A comparison to a string or to a uri, whatever
its characters are, asks for a single token of the same text. -/
theorem tokenize_steps {steps : List BuildStep} {tokens : List (List Token)}
    (h : List.Forall₂ BuildStep.Writes steps tokens) :
    tokenize (empty.runSteps steps).text = .ok tokens.flatten ∧
    ((∃ whole, (empty.runSteps steps).build = .ok whole) ↔
      ∃ f, Filter.ofTokens? tokens.flatten = .ok f) ∧
    ∀ (p : Path) (op : Comparison) (text : String), p.IsPlain →
      (BuildStep.compare p.toText op (.str text)).Writes
        [Token.ofPath p, .comparison op, .value (.str text)] ∧
      (BuildStep.compare p.toText op (.uri ⟨text⟩)).Writes
        [Token.ofPath p, .comparison op, .value (.uri ⟨text⟩)] := by
  have htokens : tokenize (empty.runSteps steps).text = .ok tokens.flatten :=
    tokenize_runSteps tokenize_empty h
  refine ⟨htokens, ⟨?_, ?_⟩, fun p op text hpath => ⟨?_, ?_⟩⟩
  · rintro ⟨whole, hwhole⟩
    obtain ⟨-, f, hf⟩ := build_eq_ok_iff.mp hwhole
    exact ⟨f, (ofText?_eq_ok_iff_ofTokens? htokens).mp hf⟩
  · rintro ⟨f, hf⟩
    have hread := (ofText?_eq_ok_iff_ofTokens? htokens).mpr hf
    exact ⟨_, build_eq_ok_iff.mpr ⟨rfl, f, hread⟩⟩
  · exact .compare hpath (tokenize_quoteString text) (beq_self_eq_true text)
  · exact .compare hpath (tokenize_quoteUri text) (beq_self_eq_true (Uri.mk text))

end Builder

/-- Steps with a string that looks like the end of a group and the beginning of another one. -/
def stepsWithParentheses : List BuildStep :=
  [.has "site", .and, .opening, .compare "dis" .equal (.str "a\") or (b"), .or, .filter "floor",
    .closing]

theorem tokenize_steps_parentheses :
    tokenize (Builder.empty.runSteps stepsWithParentheses).text =
      .ok [.name "site", .and, .opening, .name "dis", .comparison .equal,
        .value (.str "a\") or (b"), .or, .opening, .name "floor", .closing, .closing] ∧
    ∃ whole, (Builder.empty.runSteps stepsWithParentheses).build = .ok whole := by
  have hsite : IsPlainName "site" := by decide
  have hdis : IsPlainName "dis" := by decide
  have hfloor : tokenize "floor" = .ok [.name "floor"] :=
    tokenize_name (show IsPlainName "floor" by decide)
  have hempty := Builder.tokenize_steps List.Forall₂.nil
  have hstring := (hempty.2.2 (.single "dis") .equal "a\") or (b" (Path.isPlain_single hdis)).1
  have hsteps : List.Forall₂ BuildStep.Writes stepsWithParentheses _ :=
    .cons (.has (Path.isPlain_single hsite)) (.cons .and (.cons .opening (.cons hstring
      (.cons .or (.cons (.filter hfloor) (.cons .closing .nil))))))
  obtain ⟨htokens, hbuild, -⟩ := Builder.tokenize_steps hsteps
  exact ⟨htokens, hbuild.mpr ⟨_, rfl⟩⟩

end TagFilter
