import TagFilter.Proofs.BuilderTokens
import TagFilter.Proofs.Value.Sameness

/-!
# The texts of builders

A builder and the canonical text of a filter put blanks between words by rules of their own.  Both
agree with a builder to which the words of all tokens are added one at a time: a step adds the same
text as the words of its tokens (`BuildStep.WritesPlain.push_word`), and the canonical text of a
filter is what the words of its tokens add up to (`Sentence.isWrittenAs`).  The text of a filter
that is built from anything but raw texts is therefore canonical (`Builder.toText_of_build`).

Steps and tests need not match: a relationship and a type that are added by two steps are read as
one test, and the parentheses of a group may be added by steps or by another builder.
-/

namespace TagFilter

namespace Builder

variable {b : Builder} {word next text : String} {words : List String}

/-! ### Adding words -/

/-- The builder with several more words. -/
def pushAll (b : Builder) (words : List String) : Builder :=
  words.foldl push b

theorem pushAll_nil : b.pushAll [] = b := rfl

theorem pushAll_cons : b.pushAll (word :: words) = (b.push word).pushAll words := rfl

theorem pushAll_append (words others : List String) :
    b.pushAll (words ++ others) = (b.pushAll words).pushAll others :=
  List.foldl_append

/-- The text that a word is added to, with the blank in front of the word. -/
def front (b : Builder) : String :=
  if b.text.isEmpty || b.text.toList.getLast? == some '(' then b.text else b.text ++ " "

theorem push_eq (h : word ≠ ")") : b.push word = ⟨b.front ++ word⟩ := by
  unfold push front needsBlank
  cases b.text.isEmpty <;> cases hlast : b.text.toList.getLast? == some '(' <;>
    simp [bne, hlast, h]

theorem push_closing : b.push ")" = ⟨b.text ++ ")"⟩ := by
  unfold push needsBlank
  simp

theorem push_empty (word : String) : empty.push word = ⟨word⟩ := by
  have hblank : needsBlank empty.text word = false := rfl
  unfold push
  rw [hblank]
  exact congrArg mk String.empty_append

/-- The text is set off by blanks on both sides. -/
structure IsWord (text : String) : Prop where
  /-- There is something to set off. -/
  ne_empty : text ≠ ""
  /-- There is a blank in front of the text. -/
  ne_closing : text ≠ ")"
  /-- There is a blank behind the text. -/
  getLast?_ne : text.toList.getLast? ≠ some '('

theorem getLast?_toList_append {a c : String} (h : c ≠ "") :
    (a ++ c).toList.getLast? = c.toList.getLast? := by
  rw [String.toList_append]
  exact List.getLast?_append_of_ne_nil _ (mt String.toList_eq_nil_iff.mp h)

theorem front_word (h : IsWord word) (start : String) :
    (mk (start ++ word)).front = start ++ word ++ " " := by
  have hempty : (start ++ word).isEmpty = false := by
    rw [Bool.eq_false_iff, ne_eq, String.isEmpty_iff, String.append_eq_empty_iff]
    exact fun hboth => h.ne_empty hboth.2
  have hlast : ((start ++ word).toList.getLast? == some '(') = false := by
    rw [getLast?_toList_append h.ne_empty]
    exact beq_false_of_ne h.getLast?_ne
  unfold front
  simp only [hempty, hlast, Bool.or_self, Bool.false_eq_true, if_false]

theorem mem_append_blank (word next : String) : ' ' ∈ (word ++ " " ++ next).toList := by
  simp

theorem append_blank_ne_closing (word next : String) : word ++ " " ++ next ≠ ")" := by
  intro h
  have hmem := mem_append_blank word next
  rw [h] at hmem
  revert hmem
  decide

/-- Two words are added like one word with a blank in it. -/
theorem push_push (hword : IsWord word) (hnext : next ≠ ")") :
    (b.push word).push next = b.push (word ++ " " ++ next) := by
  rw [push_eq hword.ne_closing, push_eq hnext, front_word hword,
    push_eq (append_blank_ne_closing word next)]
  simp only [String.append_assoc]

theorem IsWord.behind (hnext : IsWord next) (word : String) : IsWord (word ++ " " ++ next) := by
  refine ⟨fun h => ?_, append_blank_ne_closing word next, ?_⟩
  · have hmem := mem_append_blank word next
    rw [h] at hmem
    cases hmem
  · rw [getLast?_toList_append hnext.ne_empty]
    exact hnext.getLast?_ne

/-- A text that is read as a single token, and not as a parenthesis, is a word. -/
theorem isWord_of_tokenize {token : Token} (h : tokenize text = .ok [token])
    (hopening : token.isOpening = false) (hclosing : token.isClosing = false) : IsWord text := by
  refine ⟨?_, ?_, fun hlast => ?_⟩
  · rintro rfl
    rw [tokenize_empty] at h
    cases h
  · rintro rfl
    have hmark : tokenize ")" = .ok [.closing] := tokenize_of_scan rfl
    rw [hmark] at h
    cases h
    cases hclosing
  · obtain ⟨start, hstart⟩ := List.getLast?_eq_some_iff.mp hlast
    rw [tokenize_eq_ok_iff, hstart] at h
    obtain ⟨inner, -, htokens⟩ := readChars_of_append_mark rfl rfl h
    have hend := congrArg List.getLast? htokens
    rw [List.getLast?_append] at hend
    cases hend
    cases hopening

theorem isWord_parenthesized (text : String) : IsWord (parenthesized text) := by
  have hlast : (parenthesized text).toList.getLast? = some ')' := by
    rw [parenthesized, getLast?_toList_append (by decide)]
    rfl
  refine ⟨fun h => ?_, fun h => ?_, fun h => ?_⟩
  · rw [h] at hlast
    cases hlast
  · have hhead := congrArg (fun text => text.toList.head?) h
    simp [parenthesized] at hhead
  · rw [hlast] at h
    cases h

/-! ### Groups -/

section Behind

variable {start : String} (hstart : start.toList.getLast? = some '(')

include hstart

theorem front_append (text : String) : (mk (start ++ text)).front = start ++ (mk text).front := by
  by_cases htext : text = ""
  · have hnone : (mk "").front = "" := by simp [front]
    rw [htext, hnone, String.append_empty]
    simp only [front, hstart, beq_self_eq_true, Bool.or_true, if_true]
  · have hempty : (start ++ text).isEmpty = text.isEmpty := by
      rw [Bool.eq_iff_iff, String.isEmpty_iff, String.isEmpty_iff, String.append_eq_empty_iff]
      exact and_iff_right_of_imp fun h => absurd h htext
    simp only [front, hempty, getLast?_toList_append htext]
    split
    · rfl
    · rw [String.append_assoc]

/-- Behind an opening parenthesis a word is added as to a builder of its own. -/
theorem push_append (text word : String) :
    (mk (start ++ text)).push word = ⟨start ++ ((mk text).push word).text⟩ := by
  by_cases hword : word = ")"
  · subst hword
    rw [push_closing, push_closing, String.append_assoc]
  · rw [push_eq hword, push_eq hword, front_append hstart, String.append_assoc]

theorem pushAll_behind (text : String) (words : List String) :
    (mk (start ++ text)).pushAll words = ⟨start ++ ((mk text).pushAll words).text⟩ := by
  induction words generalizing text with
  | nil => rfl
  | cons word words ih => rw [pushAll_cons, pushAll_cons, push_append hstart, ih]

end Behind

/-- The words of a group are added like the text of a builder of its own in parentheses. -/
theorem pushAll_group (b : Builder) (words : List String) :
    b.pushAll ("(" :: (words ++ [")"])) = b.push (parenthesized (empty.pushAll words).text) := by
  have hopening : (b.front ++ "(").toList.getLast? = some '(' := getLast?_toList_append (by decide)
  have hinner := pushAll_behind hopening "" words
  rw [String.append_empty] at hinner
  rw [pushAll_cons, push_eq (by decide), pushAll_append, hinner, pushAll_cons, push_closing,
    pushAll_nil, push_eq (isWord_parenthesized _).ne_closing]
  simp only [parenthesized, empty, String.append_assoc]

/-! ### Words that add up to a text -/

/-- The words are added like the text, which is set off by blanks. -/
structure IsWrittenAs (words : List String) (text : String) : Prop where
  /-- The text is a word itself. -/
  isWord : IsWord text
  /-- Adding the words is adding the text. -/
  pushAll_eq : ∀ b : Builder, b.pushAll words = b.push text

namespace IsWrittenAs

variable {xs ys : List String} {a c : String}

theorem single (h : IsWord text) : IsWrittenAs [text] text :=
  ⟨h, fun _ => rfl⟩

theorem append (ha : IsWrittenAs xs a) (hc : IsWrittenAs ys c) :
    IsWrittenAs (xs ++ ys) (a ++ " " ++ c) := by
  refine ⟨hc.isWord.behind a, fun b => ?_⟩
  rw [pushAll_append, ha.pushAll_eq, hc.pushAll_eq, push_push ha.isWord hc.isWord.ne_closing]

/-- A word between two texts. -/
theorem around (ha : IsWrittenAs xs a) (hword : IsWrittenAs [word] word) (hc : IsWrittenAs ys c) :
    IsWrittenAs (xs ++ word :: ys) (a ++ " " ++ word ++ " " ++ c) := by
  have hall := (ha.append hword).append hc
  rw [List.append_assoc] at hall
  exact hall

theorem group (h : IsWrittenAs xs a) : IsWrittenAs ("(" :: (xs ++ [")"])) (parenthesized a) := by
  refine ⟨isWord_parenthesized a, fun b => ?_⟩
  rw [pushAll_group, h.pushAll_eq, push_empty]

end IsWrittenAs

end Builder

/-! ### The words of tokens -/

/-- Whether a token is a relationship with a term in its word. -/
def Token.isCompact : Token → Bool
  | .relationship r => r.term.isSome
  | _ => false

/-- The token is read from its text, and if it is a relationship, its term stands apart. -/
structure Token.IsApart (t : Token) : Prop where
  /-- The text is read as the token alone. -/
  tokenize_toText : tokenize t.toText = .ok [t]
  /-- No term is a part of the word. -/
  isCompact_eq_false : t.isCompact = false

/-- A token that is no parenthesis is set off by blanks. -/
theorem Token.IsApart.isWrittenAs {t : Token} (h : t.IsApart) (hopening : t.isOpening = false)
    (hclosing : t.isClosing = false) : Builder.IsWrittenAs [t.toText] t.toText :=
  .single (Builder.isWord_of_tokenize h.tokenize_toText hopening hclosing)

theorem PathWord.toText_token (w : PathWord) : w.token.toText = w.toPath.toText := by
  cases w with
  | name text => exact String.intercalate_singleton.symm
  | path p => rfl

theorem PathWord.isWrittenAs {w : PathWord} (h : w.token.IsApart) :
    Builder.IsWrittenAs [w.token.toText] w.toPath.toText := by
  rw [← w.toText_token]
  cases w <;> exact h.isWrittenAs rfl rfl

/-- Adding the words of tokens adds the tokens. -/
theorem Builder.tokenize_pushAll {b : Builder} {before tokens : List Token}
    (hbefore : tokenize b.text = .ok before) (h : ∀ t ∈ tokens, t.IsApart) :
    tokenize (b.pushAll (tokens.map Token.toText)).text = .ok (before ++ tokens) := by
  induction tokens generalizing b before with
  | nil =>
    rw [List.append_nil]
    exact hbefore
  | cons token tokens ih =>
    obtain ⟨hfirst, hrest⟩ := List.forall_mem_cons.mp h
    rw [List.map_cons, pushAll_cons, ih (tokenize_push hbefore hfirst.tokenize_toText) hrest,
      List.append_assoc]
    rfl

/-! ### The canonical text of a derivation -/

section Derived

variable {xs : List String} {text : String}

theorem isWrittenAs_target (htext : Builder.IsWrittenAs xs text) (target : Option Ref) :
    (∀ t ∈ targetTokens target, t.IsApart) →
      Builder.IsWrittenAs (xs ++ (targetTokens target).map Token.toText)
        (text ++ (match target with
          | some target => " " ++ target.toText
          | none => "")) := by
  intro h
  cases target with
  | none =>
    rw [String.append_empty, targetTokens, List.map_nil, List.append_nil]
    exact htext
  | some target =>
    simp only
    rw [← String.append_assoc]
    exact htext.append ((h _ List.mem_cons_self).isWrittenAs rfl rfl)

theorem isWrittenAs_related (r : Relationship) (target : Option Ref)
    (h : ∀ t ∈ relatedTokens r target, t.IsApart) :
    Builder.IsWrittenAs ((relatedTokens r target).map Token.toText) (relatedText r target) := by
  obtain ⟨name, term⟩ := r
  obtain ⟨hname, hrest⟩ := List.forall_mem_cons.mp h
  have hword := hname.isWrittenAs rfl rfl
  obtain ⟨hterm, htarget⟩ := List.forall_mem_append.mp hrest
  unfold relatedText
  simp only
  cases term with
  | none =>
    rw [String.append_empty]
    exact isWrittenAs_target hword target htarget
  | some term =>
    have hqualified := hword.append ((hterm _ List.mem_cons_self).isWrittenAs rfl rfl)
    rw [← String.append_assoc]
    exact isWrittenAs_target hqualified target htarget

theorem isWrittenAs_compare {w : PathWord} {op : Comparison} {operand : Value}
    (h : ∀ t ∈ (Phrase.compare w op operand).tokens, t.IsApart) :
    Builder.IsWrittenAs [w.token.toText, op.toText, operand.toText]
      (w.toPath.toText ++ " " ++ op.toText ++ " " ++ operand.toText) := by
  obtain ⟨hpath, hrest⟩ := List.forall_mem_cons.mp h
  obtain ⟨hop, hrest⟩ := List.forall_mem_cons.mp hrest
  have hoperand := hrest _ List.mem_cons_self
  exact (PathWord.isWrittenAs hpath).around (hop.isWrittenAs rfl rfl)
    (hoperand.isWrittenAs rfl rfl)

theorem isWrittenAs_reaches {w : PathWord} {target : Ref}
    (h : ∀ t ∈ (Phrase.reaches w target).tokens, t.IsApart) :
    Builder.IsWrittenAs [w.token.toText, "*==", target.toText]
      (w.toPath.toText ++ " *== " ++ target.toText) := by
  obtain ⟨hpath, hrest⟩ := List.forall_mem_cons.mp h
  obtain ⟨hwildcard, hrest⟩ := List.forall_mem_cons.mp hrest
  have htarget := hrest _ List.mem_cons_self
  have htext : w.toPath.toText ++ " *== " ++ target.toText =
      w.toPath.toText ++ " " ++ "*==" ++ " " ++ target.toText := by
    simp only [String.append_assoc]
    rfl
  rw [htext]
  exact (PathWord.isWrittenAs hpath).around (hwildcard.isWrittenAs rfl rfl)
    (htarget.isWrittenAs rfl rfl)

theorem isWrittenAs_missing {w : PathWord} (h : ∀ t ∈ (Phrase.missing w).tokens, t.IsApart) :
    Builder.IsWrittenAs ["not", w.token.toText] ("not " ++ w.toPath.toText) := by
  obtain ⟨hnot, hrest⟩ := List.forall_mem_cons.mp h
  have hpath := PathWord.isWrittenAs (hrest _ List.mem_cons_self)
  exact (hnot.isWrittenAs rfl rfl).append hpath

theorem Clause.toText_and (p : Phrase) (c : Clause) :
    Conjunction.toText (Clause.and p c).terms =
      p.term.toText ++ " " ++ "and" ++ " " ++ Conjunction.toText c.terms := by
  have hcons (t : Term) (ts : List Term) : Conjunction.toText (p.term :: t :: ts) =
      p.term.toText ++ " " ++ "and" ++ " " ++ Conjunction.toText (t :: ts) := by
    have hjoin := joinAnd_cons_cons p.term.toText t.toText (ts.map Term.toText)
    refine hjoin.trans ?_
    simp only [String.append_assoc]
    rfl
  cases c with
  | single q => exact hcons q.term []
  | and q c => exact hcons q.term c.terms

theorem Sentence.toText_or (c : Clause) (s : Sentence) :
    Filter.toText (Sentence.or c s).filter =
      Conjunction.toText c.terms ++ " " ++ "or" ++ " " ++ Filter.toText s.filter := by
  have hcons (d : Conjunction) (ds : List Conjunction) : Filter.toText (c.terms :: d :: ds) =
      Conjunction.toText c.terms ++ " " ++ "or" ++ " " ++ Filter.toText (d :: ds) := by
    have hjoin := joinOr_cons_cons (Conjunction.toText c.terms) (Conjunction.toText d)
      (ds.map Conjunction.toText)
    refine hjoin.trans ?_
    simp only [String.append_assoc]
    rfl
  cases s with
  | single d => exact hcons d.terms []
  | or d s => exact hcons d.terms s.filter

mutual

/-- The words of a phrase are added like the canonical text of its term. -/
theorem Phrase.isWrittenAs : (p : Phrase) → (∀ t ∈ p.tokens, t.IsApart) →
    Builder.IsWrittenAs (p.tokens.map Token.toText) p.term.toText
  | .missing _, h => isWrittenAs_missing h
  | .group body, h => by
    have hbody := body.isWrittenAs fun t ht =>
      h t (List.mem_cons_of_mem _ (List.mem_append_left _ ht))
    rw [Phrase.term, Term.toText, Term.textWith_group, Phrase.tokens, List.map_cons,
      List.map_append]
    exact hbody.group
  | .has _, h => PathWord.isWrittenAs (h _ List.mem_cons_self)
  | .compare _ _ _, h => isWrittenAs_compare h
  | .reaches _ _, h => isWrittenAs_reaches h
  | .isA type, h => (h _ List.mem_cons_self).isWrittenAs rfl rfl
  | .related ⟨name, term⟩ target, h => by
    have hapart : term.isSome = false := (h _ List.mem_cons_self).isCompact_eq_false
    cases term with
    | none => exact isWrittenAs_related ⟨name, none⟩ target h
    | some type => cases hapart
  | .qualified name type target, h => isWrittenAs_related ⟨name, some type⟩ target h

/-- The words of a clause are added like the canonical text of its terms. -/
theorem Clause.isWrittenAs : (c : Clause) → (∀ t ∈ c.tokens, t.IsApart) →
    Builder.IsWrittenAs (c.tokens.map Token.toText) (Conjunction.toText c.terms)
  | .single p, h => by
    have htext : Conjunction.toText (Clause.single p).terms = p.term.toText := joinAnd_singleton _
    rw [htext]
    exact p.isWrittenAs h
  | .and p c, h => by
    obtain ⟨hp, hrest⟩ := List.forall_mem_append.mp h
    obtain ⟨hand, hc⟩ := List.forall_mem_cons.mp hrest
    rw [Clause.toText_and, Clause.tokens, List.map_append, List.map_cons]
    exact (p.isWrittenAs hp).around (hand.isWrittenAs rfl rfl) (c.isWrittenAs hc)

/-- The words of a sentence are added like the canonical text of its filter. -/
theorem Sentence.isWrittenAs : (s : Sentence) → (∀ t ∈ s.tokens, t.IsApart) →
    Builder.IsWrittenAs (s.tokens.map Token.toText) (Filter.toText s.filter)
  | .single c, h => by
    have htext : Filter.toText (Sentence.single c).filter = Conjunction.toText c.terms :=
      joinOr_singleton _
    rw [htext]
    exact c.isWrittenAs h
  | .or c s, h => by
    obtain ⟨hc, hrest⟩ := List.forall_mem_append.mp h
    obtain ⟨hor, hs⟩ := List.forall_mem_cons.mp hrest
    rw [Sentence.toText_or, Sentence.tokens, List.map_append, List.map_cons]
    exact (c.isWrittenAs hc).around (hor.isWrittenAs rfl rfl) (s.isWrittenAs hs)

end

end Derived

/-! ### What steps add -/

mutual

/-- A step that adds no raw text has arguments that can be written, and asks for some tokens. -/
inductive BuildStep.WritesPlain : BuildStep → List Token → Prop where
  /-- A step that adds no group. -/
  | word {step : BuildStep} {tokens : List Token} (hgroup : step.group? = none)
    (h : step.Writes tokens) : WritesPlain step tokens
  /-- The steps of another builder, in parentheses. -/
  | nested {steps : List BuildStep} {tokens : List Token} (h : AllWritePlain steps tokens) :
    WritesPlain (.nested steps) (.opening :: (tokens ++ [.closing]))

/-- Several steps add no raw text and ask for some tokens, one step after the other. -/
inductive BuildStep.AllWritePlain : List BuildStep → List Token → Prop where
  /-- No steps. -/
  | nil : AllWritePlain [] []
  /-- A step and others. -/
  | cons {step : BuildStep} {steps : List BuildStep} {tokens more : List Token}
    (h : step.WritesPlain tokens) (hmore : AllWritePlain steps more) :
    AllWritePlain (step :: steps) (tokens ++ more)

end

namespace Token

theorem toText_ofPath (p : Path) : (Token.ofPath p).toText = p.toText := by
  rw [← PathWord.token_ofPath, PathWord.toText_token, PathWord.toPath_ofPath]

theorem isApart_ofPath {p : Path} (h : p.IsPlain) : (Token.ofPath p).IsApart := by
  refine ⟨(toText_ofPath p).symm ▸ tokenize_path h, ?_⟩
  unfold ofPath
  split <;> rfl

theorem isApart_opening : Token.opening.IsApart := ⟨tokenize_of_scan rfl, rfl⟩

theorem isApart_closing : Token.closing.IsApart := ⟨tokenize_of_scan rfl, rfl⟩

theorem isApart_value {v : Value} (h : tokenize v.toText = .ok [.value v]) :
    (Token.value v).IsApart :=
  ⟨h, rfl⟩

theorem isApart_related {r : Relationship} {target : Option Ref} (hname : IsPlainName r.name)
    (hterm : ∀ type ∈ r.term, isId type.name = true) (htarget : ∀ t ∈ target, isId t.id = true) :
    ∀ t ∈ relatedTokens r (target.map Ref.written), t.IsApart := by
  obtain ⟨name, term⟩ := r
  refine List.forall_mem_cons.mpr ⟨⟨tokenize_relationship hname, rfl⟩,
    List.forall_mem_append.mpr ⟨?_, ?_⟩⟩
  · cases term with
    | none => exact List.forall_mem_nil _
    | some type =>
      exact List.forall_mem_singleton.mpr (isApart_value (tokenize_symbol (hterm type rfl)))
  · cases target with
    | none => exact List.forall_mem_nil _
    | some target =>
      exact List.forall_mem_singleton.mpr (isApart_value (tokenize_ref (htarget target rfl)))

end Token

section Steps

variable {step : BuildStep} {tokens : List Token}

/-- The tokens of a step without a group are apart. -/
theorem BuildStep.Writes.isApart (h : step.Writes tokens) (hgroup : step.group? = none) :
    ∀ t ∈ tokens, t.IsApart := by
  cases h with
  | has hpath => exact List.forall_mem_singleton.mpr (Token.isApart_ofPath hpath)
  | and => exact List.forall_mem_singleton.mpr ⟨tokenize_and, rfl⟩
  | or => exact List.forall_mem_singleton.mpr ⟨tokenize_or, rfl⟩
  | not => exact List.forall_mem_singleton.mpr ⟨tokenize_not, rfl⟩
  | opening => exact List.forall_mem_singleton.mpr Token.isApart_opening
  | closing => exact List.forall_mem_singleton.mpr Token.isApart_closing
  | isA htype => exact List.forall_mem_singleton.mpr (Token.isApart_value (tokenize_symbol htype))
  | related hname hterm htarget =>
    refine Token.isApart_related hname (fun type htype => ?_) htarget
    obtain ⟨marked, hmarked, rfl⟩ := Option.map_eq_some_iff.mp htype
    exact hterm marked hmarked
  | @reaches p target hpath htarget =>
    have hwildcard : Token.wildcard.IsApart := ⟨tokenize_wildcard, rfl⟩
    have hvalue : (Token.value (.ref target.written)).IsApart :=
      Token.isApart_value (tokenize_ref htarget)
    exact List.forall_mem_cons.mpr ⟨Token.isApart_ofPath hpath,
      List.forall_mem_cons.mpr ⟨hwildcard, List.forall_mem_singleton.mpr hvalue⟩⟩
  | @compare p op v w hpath hliteral hsame =>
    have hop : (Token.comparison op).IsApart := ⟨tokenize_comparison op, rfl⟩
    have hvalue : (Token.value w).IsApart :=
      Token.isApart_value ((Value.toText_of_same hsame).symm ▸ hliteral)
    exact List.forall_mem_cons.mpr ⟨Token.isApart_ofPath hpath,
      List.forall_mem_cons.mpr ⟨hop, List.forall_mem_singleton.mpr hvalue⟩⟩
  | filter | nested => cases hgroup

/-- A step without a group adds the same text as the words of its tokens. -/
theorem BuildStep.Writes.push_word (h : step.Writes tokens) (hgroup : step.group? = none)
    (b : Builder) : b.push step.word = b.pushAll (tokens.map Token.toText) := by
  have hapart := h.isApart hgroup
  cases h with
  | @has p hpath => exact congrArg b.push (Token.toText_ofPath p).symm
  | and | or | not | isA | opening | closing => rfl
  | @related name term target hname hterm htarget =>
    rw [(isWrittenAs_related _ _ hapart).pushAll_eq]
    cases target <;> rfl
  | @reaches p target hpath htarget =>
    rw [← PathWord.token_ofPath] at hapart ⊢
    have hwritten := (isWrittenAs_reaches hapart).pushAll_eq b
    rw [PathWord.toPath_ofPath] at hwritten
    exact hwritten.symm
  | @compare p op v w hpath hliteral hsame =>
    rw [← PathWord.token_ofPath] at hapart ⊢
    have hwritten := (isWrittenAs_compare hapart).pushAll_eq b
    rw [PathWord.toPath_ofPath] at hwritten
    rw [BuildStep.word, ← Value.toText_of_same hsame]
    exact hwritten.symm
  | filter | nested => cases hgroup

end Steps

mutual

theorem BuildStep.WritesPlain.isApart {step : BuildStep} {tokens : List Token} :
    step.WritesPlain tokens → ∀ t ∈ tokens, t.IsApart
  | .word hgroup h => h.isApart hgroup
  | .nested h => by
    exact List.forall_mem_cons.mpr ⟨Token.isApart_opening,
      List.forall_mem_append.mpr ⟨h.isApart, List.forall_mem_singleton.mpr Token.isApart_closing⟩⟩

theorem BuildStep.AllWritePlain.isApart {steps : List BuildStep} {tokens : List Token} :
    AllWritePlain steps tokens → ∀ t ∈ tokens, t.IsApart
  | .nil => List.forall_mem_nil _
  | .cons h hmore => List.forall_mem_append.mpr ⟨h.isApart, hmore.isApart⟩

end

mutual

/-- A step adds the same text as the words of its tokens. -/
theorem BuildStep.WritesPlain.push_word {step : BuildStep} {tokens : List Token} (b : Builder) :
    step.WritesPlain tokens → b.push step.word = b.pushAll (tokens.map Token.toText)
  | .word hgroup h => h.push_word hgroup b
  | .nested h => by
    rw [List.map_cons, List.map_append]
    refine Eq.trans ?_ (Builder.pushAll_group b _).symm
    rw [BuildStep.word, h.runSteps_eq]

/-- Several steps add the same text as the words of their tokens. -/
theorem BuildStep.AllWritePlain.runSteps_eq {steps : List BuildStep} {tokens : List Token}
    (b : Builder) :
    AllWritePlain steps tokens → b.runSteps steps = b.pushAll (tokens.map Token.toText)
  | .nil => rfl
  | .cons h hmore => by
    rw [Builder.runSteps, h.push_word, hmore.runSteps_eq, List.map_append, Builder.pushAll_append]

end

/-- The text that several steps add is made of the tokens that they ask for. -/
theorem BuildStep.AllWritePlain.tokenize_runSteps {steps : List BuildStep} {tokens : List Token}
    (h : AllWritePlain steps tokens) :
    tokenize (Builder.empty.runSteps steps).text = .ok tokens := by
  have htokens := Builder.tokenize_pushAll (b := Builder.empty) tokenize_empty h.isApart
  rw [h.runSteps_eq]
  exact htokens

/-! ### Built filters -/

namespace Builder

/-- The text of a filter that is built from anything but raw texts is canonical: it is the text of
the filter that it is read as. -/
theorem toText_of_build {steps : List BuildStep} {tokens : List Token} {whole : String}
    (h : BuildStep.AllWritePlain steps tokens)
    (hbuild : (empty.runSteps steps).build = .ok whole) :
    ∃ f, Filter.ofText? whole = .ok f ∧ Filter.toText f = whole := by
  obtain ⟨rfl, f, hf⟩ := build_eq_ok_iff.mp hbuild
  refine ⟨f, hf, ?_⟩
  obtain ⟨d, htokens, rfl⟩ := ofText?_eq_ok_iff.mp hf
  -- the tokens that the steps ask for are those of the filter that is read
  obtain rfl : tokens = d.tokens := Except.ok.inj (h.tokenize_runSteps.symm.trans htokens)
  rw [h.runSteps_eq, (d.isWrittenAs h.isApart).pushAll_eq, push_empty]

/-- Steps that ask for a relationship and its term one after the other, and for a group. -/
def stepsWithGroup : List BuildStep :=
  [.related "inputs" none none, .isA "^elec", .and,
    .nested [.has "site", .or, .not, .has "floor", .or, .compare "dis" .equal (.str "a) and (b")]]

/-- The text that the steps add. -/
def textWithGroup : String :=
  "inputs? ^elec and (site or not floor or dis == \"a) and (b\")"

theorem allWritePlain_stepsWithGroup : BuildStep.AllWritePlain stepsWithGroup
    [.relationship ⟨"inputs", none⟩, .value (.symbol ⟨"elec"⟩), .and, .opening, .name "site", .or,
      .not, .name "floor", .or, .name "dis", .comparison .equal, .value (.str "a) and (b"),
      .closing] := by
  have hrelated : (BuildStep.related "inputs" none none).WritesPlain _ :=
    .word rfl (.related (show IsPlainName "inputs" by decide) (by rintro _ ⟨⟩) (by rintro _ ⟨⟩))
  have hhas {name : String} (hname : IsPlainName name) :
      (BuildStep.has name).WritesPlain [.name name] :=
    .word rfl (.has (Path.isPlain_single hname))
  have hcompare : (BuildStep.compare "dis" .equal (.str "a) and (b")).WritesPlain _ :=
    .word rfl (.compare (Path.isPlain_single (show IsPlainName "dis" by decide))
      (tokenize_quoteString _) (beq_self_eq_true _))
  have hgroup := BuildStep.AllWritePlain.cons (hhas (show IsPlainName "site" by decide))
    (.cons (.word rfl .or) (.cons (.word rfl .not)
      (.cons (hhas (show IsPlainName "floor" by decide))
        (.cons (.word rfl .or) (.cons hcompare .nil)))))
  exact .cons hrelated (.cons (.word rfl (.isA (by decide)))
    (.cons (.word rfl .and) (.cons (.nested hgroup) .nil)))

theorem toText_of_build_stepsWithGroup :
    (empty.runSteps stepsWithGroup).build = .ok textWithGroup ∧
      ∃ f, Filter.ofText? textWithGroup = .ok f ∧ Filter.toText f = textWithGroup := by
  have hsteps := allWritePlain_stepsWithGroup
  have hread := (ofText?_eq_ok_iff_ofTokens? hsteps.tokenize_runSteps).mpr rfl
  have hbuild : (empty.runSteps stepsWithGroup).build = .ok textWithGroup :=
    build_eq_ok_iff.mpr ⟨rfl, _, hread⟩
  exact ⟨hbuild, toText_of_build hsteps hbuild⟩

end Builder

end TagFilter
