import TagFilter.Builder
import TagFilter.Proofs.Filter.Spelling
import TagFilter.Proofs.Grammar.Nesting
import TagFilter.Proofs.Scanner.Closing

/-!
# Groups that are added to a builder

A builder puts the text of another filter in parentheses and does not look at it.  When the whole
can be built, that text is made of tokens, but the parentheses around it need not belong to each
other: it is a filter of its own exactly when its tokens close no group that they do not open, and
then it is the last group of the whole (`Builder.build_add_group`).
-/

namespace TagFilter

/-- The text that a step puts in parentheses. -/
def BuildStep.group? : BuildStep → Option String
  | .filter text => some text
  | .nested steps => some (Builder.empty.runSteps steps).text
  | _ => none

theorem BuildStep.word_of_group? {step : BuildStep} {text : String} (h : step.group? = some text) :
    step.word = parenthesized text := by
  cases step with
  | filter | nested =>
    cases h
    rfl
  | _ => cases h

namespace Builder

variable {b : Builder}

theorem build_eq_ok_iff {whole : String} :
    b.build = .ok whole ↔ whole = b.text ∧ ∃ f, Filter.ofText? b.text = .ok f := by
  unfold build
  cases Filter.ofText? b.text with
  | error _ => simp [Except.map]
  | ok f => simp [Except.map, eq_comm]

/-- At most a blank stands in front of a word that is added. -/
theorem toList_text_push (b : Builder) (word : String) :
    ∃ blanks : List Char, (blanks = [] ∨ blanks = [' ']) ∧
      (b.push word).text.toList = b.text.toList ++ (blanks ++ word.toList) := by
  unfold push
  split
  · refine ⟨[' '], Or.inr rfl, ?_⟩
    rw [String.toList_append, String.toList_append, List.append_assoc]
    rfl
  · exact ⟨[], Or.inl rfl, String.toList_append⟩

/-- The tokens of a group that is added stand between parentheses behind the tokens that were there
before. -/
theorem exists_tokenize_of_push {text : String} {before tokens : List Token}
    (hbefore : tokenize b.text = .ok before)
    (h : tokenize (b.push (parenthesized text)).text = .ok tokens) :
    ∃ inner, tokenize text = .ok inner ∧
      tokens = before ++ .opening :: (inner ++ [.closing]) := by
  rw [tokenize_eq_ok_iff] at hbefore h
  obtain ⟨blanks, hblanks, hlist⟩ := b.toList_text_push (parenthesized text)
  have hword : (parenthesized text).toList = '(' :: (text.toList ++ [')']) := by
    rw [parenthesized, String.toList_append, String.toList_append]
    rfl
  have hopening (rest : List Char) : scan ('(' :: rest) = .token .opening rest := rfl
  have hskip : ∀ rest, readChars (blanks ++ rest) = readChars rest := by
    refine readChars_blanks_append ?_
    rcases hblanks with rfl | rfl <;> decide
  have hstart : StartsIn isSeparator (blanks ++ '(' :: (text.toList ++ [')'])) := by
    rcases hblanks with rfl | rfl <;> exact startsIn_cons rfl _
  rw [hlist, hword, readChars_append hstart hbefore, hskip, readChars_token (hopening _)] at h
  cases hgroup : readChars (text.toList ++ [')']) with
  | mk found stop =>
    rw [hgroup] at h
    obtain ⟨rfl, rfl⟩ := Prod.mk.inj h
    obtain ⟨inner, hinner, rfl⟩ := readChars_of_append_mark rfl rfl hgroup
    exact ⟨inner, tokenize_eq_ok_iff.mpr hinner, rfl⟩

/-- When a builder with a group added to it can be built, the text of the group is made of tokens;
it is a filter of its own exactly when they close no group that they do not open, and then it is
the last term of the last conjunction of the whole. -/
theorem build_add_group {step : BuildStep} {text whole : String} {before : List Token}
    (hbefore : tokenize b.text = .ok before) (hgroup : step.group? = some text)
    (hbuild : (b.add step).build = .ok whole) :
    ∃ tokens, tokenize text = .ok tokens ∧
      ((∃ g, Filter.ofText? text = .ok g) ↔ StaysWithin 0 tokens) ∧
      ∀ g, Filter.ofText? text = .ok g →
        ∃ alternatives terms,
          Filter.ofText? whole = .ok (alternatives ++ [terms ++ [.group g]]) := by
  obtain ⟨rfl, f, hwhole⟩ := build_eq_ok_iff.mp hbuild
  rw [add, BuildStep.word_of_group? hgroup] at hwhole ⊢
  obtain ⟨d, htokens, -⟩ := ofText?_eq_ok_iff.mp hwhole
  obtain ⟨inner, hinner, hall⟩ := exists_tokenize_of_push hbefore htokens
  have hread := (ofText?_eq_ok_iff_readAll htokens).mp hwhole
  rw [hall] at hread
  have hown := fun g => ofText?_eq_ok_iff_readAll (f := g) hinner
  refine ⟨inner, hinner, ⟨?_, ?_⟩, ?_⟩
  · rintro ⟨g, hg⟩
    exact staysWithin_of_readAll ((hown g).mp hg)
  · intro hwithin
    obtain ⟨g, -, -, hg, -⟩ := exists_group_of_readAll hread hwithin
    exact ⟨g, (hown g).mpr hg⟩
  · intro g hg
    have hg := (hown g).mp hg
    obtain ⟨g', alternatives, terms, hg', rfl⟩ :=
      exists_group_of_readAll hread (staysWithin_of_readAll hg)
    rw [hg] at hg'
    cases hg'
    exact ⟨alternatives, terms, hwhole⟩

end Builder

/-- A site, and something else. -/
def siteAnd : Builder := ⟨"site and"⟩

theorem tokenize_siteAnd : tokenize siteAnd.text = .ok [.name "site", .and] :=
  tokenize_append_blank (tokenize_name (show IsPlainName "site" by decide)) tokenize_and

theorem build_add_areaOrFloor :
    ∃ alternatives terms g, Filter.ofText? "area or floor" = .ok g ∧
      Filter.ofText? "site and (area or floor)" = .ok (alternatives ++ [terms ++ [.group g]]) := by
  have harea := tokenize_append_blank (tokenize_name (show IsPlainName "area" by decide))
    tokenize_or
  have hgroup : tokenize "area or floor" = .ok [.name "area", .or, .name "floor"] :=
    tokenize_append_blank harea (tokenize_name (show IsPlainName "floor" by decide))
  have hwhole := tokenize_append_blank tokenize_siteAnd (tokenize_parenthesized hgroup)
  have hbuild : (siteAnd.add (.nested [.has "area", .or, .has "floor"])).build =
      .ok "site and (area or floor)" :=
    Builder.build_eq_ok_iff.mpr ⟨rfl, _, (ofText?_eq_ok_iff_readAll hwhole).mpr rfl⟩
  obtain ⟨_, -, -, hlast⟩ := Builder.build_add_group tokenize_siteAnd rfl hbuild
  have hread := (ofText?_eq_ok_iff_readAll hgroup).mpr rfl
  obtain ⟨alternatives, terms, hends⟩ := hlast _ hread
  exact ⟨alternatives, terms, _, hread, hends⟩

/-- A text that is no filter can be added as a group, and splits the whole in two. -/
theorem build_add_unbalanced :
    (∃ tokens, tokenize siteAnd.text = .ok tokens) ∧
      (siteAnd.add (.filter "a) or (b")).build = .ok "site and (a) or (b)" ∧
      ∀ g, Filter.ofText? "a) or (b" ≠ .ok g := by
  have ha := tokenize_parenthesized (tokenize_name (show IsPlainName "a" by decide))
  have hb := tokenize_parenthesized (tokenize_name (show IsPlainName "b" by decide))
  have hwhole := tokenize_append_blank
    (tokenize_append_blank (tokenize_append_blank tokenize_siteAnd ha) tokenize_or) hb
  refine ⟨⟨_, tokenize_siteAnd⟩, ?_, fun g hg => ?_⟩
  · exact Builder.build_eq_ok_iff.mpr ⟨rfl, _, (ofText?_eq_ok_iff_readAll hwhole).mpr rfl⟩
  · have hadded : tokenize (siteAnd.push (parenthesized "a) or (b")).text = .ok _ := hwhole
    obtain ⟨inner, hinner, hall⟩ := Builder.exists_tokenize_of_push tokenize_siteAnd hadded
    have hsplit : [Token.name "site", .and, .opening] ++
        ([.name "a", .closing, .or, .opening, .name "b"] ++ [.closing]) =
          [.name "site", .and, .opening] ++ (inner ++ [.closing]) := hall
    have htokens := List.append_cancel_right (List.append_cancel_left hsplit)
    rw [ofText?_eq_ok_iff_readAll hinner, ← htokens] at hg
    cases hg

end TagFilter
