import Mathlib.Logic.Relation
import TagFilter.Proofs.Filter.LexesBack
import TagFilter.Proofs.Implied.Derivable
import TagFilter.Proofs.Implied.Texts
import TagFilter.Proofs.Lowering.StrayNames

/-!
# Meaning of the expansion of implied tags

The expanded text of a filter is read as a filter in which every test holds exactly when it does
along a derivable name: along its own first name, or along names that all imply it, and so on.  A
negated test holds when the test that it negates is not derivable, and a type test when all tags of
the type or of one of its subtypes are derivable.

A search through an arbitrary resolver may go on forever.  The expanded filter asks for alternatives
in order, and it has no answer when such a search comes before the alternative that holds
(`ofText?_expand_colon_endless`); an answer that is there is right (`ofText?_expand`).
-/

namespace TagFilter

/-! ### Tests along other names -/

/-- The first name of the path of a test, or the name of its relationship; a type test has none. -/
def Test.head? : Test → Option String
  | .has p | .missing p | .compare p _ _ | .reaches p _ => some p.head
  | .related r _ => some r.name
  | .isA _ => none

/-- The names of the path of a test after the first. -/
def Test.tail : Test → List String
  | .has p | .missing p | .compare p _ _ | .reaches p _ => p.tail
  | .related _ _ | .isA _ => []

/-- The test with another first name. -/
def Test.withHead (name : String) : Test → Test
  | .has p => .has (p.withHead name)
  | .missing p => .missing (p.withHead name)
  | .compare p op operand => .compare (p.withHead name) op operand
  | .related r target => .related ⟨name, r.term⟩ target
  | .reaches p target => .reaches (p.withHead name) target
  | .isA type => .isA type

/-- The test without a negation. -/
def Test.unsigned : Test → Test
  | .missing p => .has p
  | test => test

/-- Whether a test is negated. -/
def Test.isNegated : Test → Bool
  | .missing _ => true
  | _ => false

/-- The test has a positive answer with a name in the place of its first name. -/
def Test.HoldsAlong (test : Test) (s : Setting) (name : String) : Prop :=
  (test.withHead name).answer s = some true

/-- What a test says when tags are implied by others. -/
def Test.ImpliedHolds (ns : Namespace) (s : Setting) : Test → Prop
  | .isA type => ∃ name ∈ ns.typesOf type, ∀ part ∈ (Symbol.mk name).parts,
      ns.Derivable ((Test.hasTag part).HoldsAlong s) part
  | .missing p => ¬ ns.Derivable ((Test.has p).HoldsAlong s) p.head
  | .related r target => ns.Derivable ((Test.related r target).HoldsAlong s) r.name
  | .has p => ns.Derivable ((Test.has p).HoldsAlong s) p.head
  | .compare p op operand => ns.Derivable ((Test.compare p op operand).HoldsAlong s) p.head
  | .reaches p target => ns.Derivable ((Test.reaches p target).HoldsAlong s) p.head

/-- The names at which the expansion of a test begins. -/
def Test.heads (ns : Namespace) : Test → List String
  | .isA type => (ns.typesOf type).flatMap fun name => (Symbol.mk name).parts
  | test => test.head?.toList

/-- A name is met in the expansion of another: it implies it, perhaps through further names. -/
def Namespace.MetFrom (ns : Namespace) : String → String → Prop :=
  Relation.ReflTransGen fun name other => other ∈ ns.impliedBy name

/-- Names of which each is implied by some of them only are all that is met from one of them. -/
theorem Namespace.MetFrom.mem_of_closed {ns : Namespace} {names : List String} {head name : String}
    (h : ns.MetFrom head name) (hhead : head ∈ names)
    (hclosed : ∀ n ∈ names, ∀ other ∈ ns.impliedBy n, other ∈ names) : name ∈ names := by
  induction h with
  | refl => exact hhead
  | tail _ hother ih => exact hclosed _ ih _ hother

/-- Whatever the expansion of a test writes can be read back. -/
structure Test.IsExpandable (ns : Namespace) (test : Test) : Prop where
  /-- The names that the expansion meets are plain. -/
  names : ∀ head ∈ test.heads ns, ∀ name, ns.MetFrom head name → IsPlainName name
  /-- The further names of the path are tag names. -/
  tail : ∀ name ∈ test.tail, isTagName name = true
  /-- The literals lex back. -/
  literals : ∀ v ∈ test.literals, v.LexesBack

/-- Every test that the expansion of a test asks for has an answer. -/
def Test.IsSettled (ns : Namespace) (s : Setting) (test : Test) : Prop :=
  ∀ head ∈ test.heads ns, ∀ name, ns.MetFrom head name →
    ((test.withHead name).answer s).isSome = true

/-- A proposition or its negation. -/
def Signed (negated : Bool) (p : Prop) : Prop :=
  if negated then ¬ p else p

/-! ### The expansion of a name -/

/-- A term says of a setting whether a proposition holds, and all of its tests have answers where
this is settled. -/
structure Term.Says (t : Term) (s : Setting) (p settled : Prop) : Prop where
  /-- The term holds when the proposition does. -/
  holds : t.HoldsFor s ↔ p
  /-- The tests have answers. -/
  answers : settled → ∀ test ∈ t.tests, (test.answer s).isSome = true

/-- The texts of a set of names are read as terms that say something about each name. -/
def SpellsAlong (s : Setting) (settled : Prop) (negated : Bool) (text : String → String)
    (holds names : String → Prop) : Prop :=
  ∀ name, names name → ∃ t, SpellsTerm (text name) t ∧
    t.Says s (Signed negated (holds name)) settled

section Names

variable {ns : Namespace} {s : Setting} {settled : Prop} {negated : Bool} {text : String → String}
  {holds : String → Prop} {expanding : List String} {name : String}

/-- The text of a name with alternatives says that the name or all of the alternatives do, or the
opposite. -/
theorem spells_alternatives {others : List String} (hne : others ≠ [])
    {alternative : String → String} {derived : String → Prop}
    (hname : SpellsAlong s settled negated text holds (· = name))
    (halternative : SpellsAlong s settled negated alternative derived (· ∈ others)) :
    ∃ t, SpellsTerm (parenthesized (text name ++ (if negated then " and " else " or ") ++
        grouped (if negated then " or " else " and ") (others.map alternative))) t ∧
      t.Says s (Signed negated (holds name ∨ ∀ other ∈ others, derived other)) settled := by
  obtain ⟨base, hbase, hsays⟩ := hname name rfl
  obtain ⟨read, hread⟩ := exists_forall_mem halternative
  have hspells := fun other hother => (hread other hother).1
  cases negated with
  | false =>
    refine ⟨.group [[base], [allTerm (others.map read)]], ?_, ?_, fun hsettled test htest => ?_⟩
    · have hall := spells_grouped_and hne hspells
      exact (hbase.conjunction.or hall.conjunction.filter).parenthesized
    · rw [Term.HoldsFor, Term.means_either, means_allTerm_map hne]
      refine or_congr hsays.holds ?_
      exact forall₂_congr fun other hother => (hread other hother).2.holds
    · rcases Term.mem_tests_either.mp htest with hmem | hmem
      · exact hsays.answers hsettled test hmem
      · obtain ⟨other, hother, hmem⟩ := mem_tests_allTerm_map hne hmem
        exact (hread other hother).2.answers hsettled test hmem
  | true =>
    refine ⟨.group [[base, anyTerm (others.map read)]], ?_, ?_, fun hsettled test htest => ?_⟩
    · have hany := spells_grouped_or hne hspells
      exact (hbase.and hany.conjunction).filter.parenthesized
    · have hany : (∃ other ∈ others, (read other).HoldsFor s) ↔
          ¬ ∀ other ∈ others, derived other := by
        constructor
        · rintro ⟨other, hother, h⟩ hall
          exact (hread other hother).2.holds.mp h (hall other hother)
        · intro h
          obtain ⟨other, hother, hnot⟩ : ∃ other ∈ others, ¬ derived other := by
            simpa only [Classical.not_forall, exists_prop] using h
          exact ⟨other, hother, (hread other hother).2.holds.mpr hnot⟩
      rw [Term.HoldsFor, Term.means_both, means_anyTerm_map hne]
      exact (and_congr hsays.holds hany).trans not_or.symm
    · rcases Term.mem_tests_both.mp htest with hmem | hmem
      · exact hsays.answers hsettled test hmem
      · obtain ⟨other, hother, hmem⟩ := mem_tests_anyTerm_map hne hmem
        exact (hread other hother).2.answers hsettled test hmem

/-- A name has an expanded text, which is read as a term that says that the expansion holds, or the
opposite. -/
theorem spells_expandName {names : String → Prop}
    (htext : SpellsAlong s settled negated text holds names)
    (hclosed : ∀ n, names n → ∀ other ∈ ns.impliedBy n, names other) (expanding : List String)
    (hname : names name) :
    ∃ out t, Taxonomy.expandName ns negated text expanding name = some out ∧ SpellsTerm out t ∧
      t.Says s (Signed negated (Expands ns holds expanding name)) settled := by
  induction expanding, name using ns.expansion_induction with
  | cut expanding name hcut =>
    obtain ⟨t, hspells, hsays⟩ := htext name hname
    refine ⟨text name, t, expandName_of_cut hcut, hspells, ?_⟩
    rw [Expands.iff_test hcut]
    exact hsays
  | step expanding name hcut ih =>
    obtain ⟨alternative, halternative⟩ := exists_forall_mem fun other hother =>
      ih other hother (hclosed name hname other hother)
    have hself : SpellsAlong s settled negated text holds (· = name) := by
      rintro _ rfl
      exact htext _ hname
    have hothers : SpellsAlong s settled negated alternative (Expands ns holds (name :: expanding))
        (· ∈ ns.impliedBy name) := fun other hother =>
      let ⟨t, _, hspells, hsays⟩ := halternative other hother
      ⟨t, hspells, hsays⟩
    obtain ⟨t, hspells, hsays⟩ := spells_alternatives (not_or.mp hcut).1 hself hothers
    refine ⟨_, t, expandName_of_alternatives hcut fun other hother => ?_, hspells, ?_⟩
    · obtain ⟨_, htext, _⟩ := halternative other hother
      exact htext
    · rw [Expands.iff_implied hcut]
      exact hsays

end Names

/-! ### The expansion of a test -/

section Tests

variable {ns : Namespace} {s : Setting} {test : Test} {head : String}

/-- The expanded text of a test with a first name. -/
theorem Test.expand_eq_expandName (h : test.head? = some head) :
    test.expand ns = Taxonomy.expandName ns test.isNegated
      (fun name => (test.withHead name).toText) [] head := by
  cases test with
  | isA type => cases h
  | has p | missing p | compare p op operand | related r target | reaches p target =>
    cases h
    rw [Test.expand]
    rfl

/-- The expanded text of a test whose first name is implied by one name alone, which is not expanded
further. -/
theorem Test.expand_of_impliedBy_eq {other : String} (h : test.head? = some head)
    (himplied : ns.impliedBy head = [other]) (hcut : ns.impliedBy other = [] ∨ other = head) :
    test.expand ns = some (parenthesized ((test.withHead head).toText ++
      (if test.isNegated then " and " else " or ") ++ (test.withHead other).toText)) := by
  have hopen : ¬ (ns.impliedBy head = [] ∨ head ∈ []) := by
    rw [himplied]
    exact not_or_intro (List.cons_ne_nil _ _) List.not_mem_nil
  have halternative : ∀ name ∈ ns.impliedBy head,
      Taxonomy.expandName ns test.isNegated (fun name => (test.withHead name).toText) [head] name =
        some (test.withHead name).toText := by
    intro name hname
    rw [himplied] at hname
    rw [List.mem_singleton.mp hname]
    exact expandName_of_cut (hcut.imp_right List.mem_singleton.mpr)
  rw [expand_eq_expandName h, expandName_of_alternatives hopen halternative, himplied]
  rfl

/-- What a test with a first name says. -/
theorem Test.impliedHolds_iff (h : test.head? = some head) :
    test.ImpliedHolds ns s ↔
      Signed test.isNegated (ns.Derivable (test.unsigned.HoldsAlong s) head) := by
  cases test with
  | isA type => cases h
  | has p | missing p | compare p op operand | related r target | reaches p target =>
    cases h
    exact Iff.rfl

/-- A negated test holds along a name when what it negates does not. -/
theorem Test.holdsAlong_iff (h : test.head? = some head) (name : String) :
    test.HoldsAlong s name ↔ Signed test.isNegated (test.unsigned.HoldsAlong s name) := by
  cases test with
  | isA type => cases h
  | missing p =>
    change some (s.valuesOf (p.withHead name)).isEmpty = some true ↔
      ¬ some (!(s.valuesOf (p.withHead name)).isEmpty) = some true
    rw [Option.some.injEq, Option.some.injEq, Bool.not_eq_true', Bool.not_eq_false]
  | has p | compare p op operand | related r target | reaches p target => exact Iff.rfl

/-- A test can be written along every plain name. -/
theorem Test.hasPlainPath_withHead (h : test.head? = some head)
    (htail : ∀ name ∈ test.tail, isTagName name = true) {name : String} (hname : IsPlainName name) :
    (test.withHead name).HasPlainPath := by
  cases test with
  | isA type => cases h
  | related r target => exact hname
  | has p | missing p | compare p op operand | reaches p target => exact ⟨hname, htail⟩

theorem Test.literals_withHead (test : Test) (name : String) :
    (test.withHead name).literals = test.literals := by
  cases test <;> rfl

theorem Test.isFullyWritten_withHead (h : test.IsFullyWritten s) (name : String) :
    (test.withHead name).IsFullyWritten s := by
  cases test <;> exact h

/-- A test with a first name has an expanded text, which is read as a term that says what the test
says when tags are implied by others. -/
theorem Test.spells_expand_of_head (h : test.head? = some head)
    (hnames : ∀ name, ns.MetFrom head name → IsPlainName name)
    (htail : ∀ name ∈ test.tail, isTagName name = true)
    (hliterals : ∀ v ∈ test.literals, v.LexesBack) (hwritten : test.IsFullyWritten s) :
    ∃ text t, test.expand ns = some text ∧ SpellsTerm text t ∧
      t.Says s (test.ImpliedHolds ns s)
        (∀ name, ns.MetFrom head name → ((test.withHead name).answer s).isSome = true) := by
  have htext : SpellsAlong s
      (∀ name, ns.MetFrom head name → ((test.withHead name).answer s).isSome = true)
      test.isNegated (fun name => (test.withHead name).toText) (test.unsigned.HoldsAlong s)
      (ns.MetFrom head) := by
    intro name hname
    have hread : ∀ v ∈ (test.withHead name).literals, v.LexesBack := by
      rwa [Test.literals_withHead]
    have hplain := Test.hasPlainNames (Test.hasPlainPath_withHead h htail (hnames name hname)) hread
    obtain ⟨other, hspells, hanswer⟩ :=
      Test.exists_spells_answer hplain fun v hv => hread v (Test.operand_mem_literals hv)
    have hsame := hanswer s (Test.isFullyWritten_withHead hwritten name)
    refine ⟨.test other, hspells, ?_, fun hsettled => ?_⟩
    · rw [← Test.holdsAlong_iff h, Test.HoldsAlong, ← hsame]
      exact Iff.rfl
    · refine List.forall_mem_singleton.mpr ?_
      rw [hsame]
      exact hsettled name hname
  have hclosed : ∀ n, ns.MetFrom head n → ∀ other ∈ ns.impliedBy n, ns.MetFrom head other :=
    fun _ hn _ hother => hn.tail hother
  obtain ⟨text, t, hexpand, hspells, hsays⟩ :=
    spells_expandName htext hclosed [] Relation.ReflTransGen.refl
  rw [expands_iff_derivable, ← Test.impliedHolds_iff h] at hsays
  exact ⟨text, t, (Test.expand_eq_expandName h).trans hexpand, hspells, hsays⟩

end Tests

/-! ### Type tests -/

section Types

variable {ns : Namespace} {s : Setting} {test : Test}

/-- The expanded text of a type test is that of the tests for the tags of the type. -/
theorem Test.expand_isA {type : Symbol}
    (h : ∀ name ∈ ns.typesOf type, ∀ part ∈ (Symbol.mk name).parts, IsPlainName part) :
    (Test.isA type).expand ns = (ns.loweredType type).expand ns := by
  have hlowered : Filter.ofText? (lowerType ns type) = .ok [[ns.loweredType type]] :=
    ofText?_eq_ok_iff.mpr (Namespace.spells_lowerType h).conjunction.filter
  rw [Test.expand]
  simp only [hlowered]
  exact Filter.expand_lone ns _

/-- A test has an expanded text, which is read as a term that says what the test says when tags are
implied by others. -/
theorem Test.spells_expand (h : test.IsExpandable ns) (hwritten : test.IsFullyWritten s) :
    ∃ text t, test.expand ns = some text ∧ SpellsTerm text t ∧
      t.Says s (test.ImpliedHolds ns s) (test.IsSettled ns s) := by
  cases hhead : test.head? with
  | some head =>
    have hmem : head ∈ test.heads ns := by
      cases test with
      | isA type => cases hhead
      | _ =>
        cases hhead
        exact List.mem_cons_self
    obtain ⟨text, t, hexpand, hspells, hsays⟩ :=
      Test.spells_expand_of_head hhead (h.names head hmem) h.tail h.literals hwritten
    exact ⟨text, t, hexpand, hspells, hsays.holds, fun hsettled =>
      hsays.answers (hsettled head hmem)⟩
  | none =>
    cases test with
    | isA type =>
      have hmet : ∀ name ∈ ns.typesOf type, ∀ part ∈ (Symbol.mk name).parts,
          ∀ other, ns.MetFrom part other → IsPlainName other := fun name hname part hpart =>
        h.names part (List.mem_flatMap.mpr ⟨name, hname, hpart⟩)
      have hparts : ∀ u ∈ (ns.loweredType type).tests, ∃ text t, u.expand ns = some text ∧
          SpellsTerm text t ∧ t.Says s (u.ImpliedHolds ns s) True := by
        intro u hu
        obtain ⟨name, hname, part, hpart, rfl⟩ := Namespace.mem_tests_loweredType hu
        have hbare : (Test.hasTag part).IsFullyWritten s :=
          Or.inr fun _ htarget => absurd htarget (Option.not_mem_none _)
        obtain ⟨text, t, hexpand, hspells, hsays⟩ :=
          Test.spells_expand_of_head rfl (hmet name hname part hpart) (List.forall_mem_nil _)
            (List.forall_mem_nil _) hbare
        -- a test for a tag has an answer on whatever it is evaluated
        exact ⟨text, t, hexpand, hspells, hsays.holds, fun _ => hsays.answers fun _ _ => rfl⟩
      obtain ⟨text, read, hexpand, hspells, hread⟩ :=
        Term.exists_expand Namespace.isProper_loweredType hparts
      refine ⟨text, (ns.loweredType type).bind read, ?_, hspells, ?_, fun _ u hu => ?_⟩
      · rw [Test.expand_isA fun name hname part hpart =>
          hmet name hname part hpart part Relation.ReflTransGen.refl]
        exact hexpand
      · have hmeans := Term.means_congr fun u hu => (hread u hu).holds
        exact (Term.means_bind.trans hmeans).trans Namespace.means_loweredType
      · obtain ⟨v, hv, hu⟩ := Term.mem_tests_bind hu
        exact (hread v hv).answers trivial u hu
    | _ => cases hhead

end Types

/-! ### The expansion of a filter -/

/-- The expanded text of a filter is read as a filter whose answer on a setting, if there is one,
says whether the terms of one of the conjunctions hold.  There is one when all tests that the
expansion asks for have answers. -/
theorem exists_ofText?_expand {ns : Namespace} {n : Node} {s : Setting}
    (hproper : Filter.IsProper n.toFilter) (h : ∀ test ∈ n.tests, test.IsExpandable ns)
    (hwritten : ∀ test ∈ n.tests, test.IsFullyWritten s) :
    ∃ text g, n.expand ns = some text ∧ Filter.ofText? text = .ok g ∧
      (∀ answer, Filter.answer s g = some answer →
        (answer = true ↔ Filter.Means (Test.ImpliedHolds ns s) n.toFilter)) ∧
      ((∀ test ∈ n.tests, test.IsSettled ns s) → (Filter.answer s g).isSome = true) := by
  simp only [← Node.tests_toFilter] at h hwritten ⊢
  obtain ⟨text, read, hexpand, hspells, hread⟩ := Filter.exists_expand hproper fun test htest =>
    Test.spells_expand (h test htest) (hwritten test htest)
  rw [Node.expand_toFilter] at hexpand
  refine ⟨text, _, hexpand, ofText?_eq_ok_iff.mpr hspells, fun answer hanswer => ?_,
    fun hsettled => Filter.isSome_answer fun u hu => ?_⟩
  · rw [Filter.answer_iff_means hspells.isProper hanswer, Filter.means_bind]
    exact Filter.means_congr fun test htest => (hread test htest).holds
  · obtain ⟨test, htest, hu⟩ := Filter.mem_tests_bind hu
    exact (hread test htest).answers (hsettled test htest) u hu

/-- The expanded text of a filter does not depend on the setting, nor what it is read as. -/
theorem exists_ofText?_expand_of_settings {ns : Namespace} {n : Node}
    (hproper : Filter.IsProper n.toFilter) (h : ∀ test ∈ n.tests, test.IsExpandable ns) :
    ∃ text g, n.expand ns = some text ∧ Filter.ofText? text = .ok g ∧
      ∀ s : Setting, (∀ test ∈ n.tests, test.IsFullyWritten s) →
        (∀ answer, Filter.answer s g = some answer →
          (answer = true ↔ Filter.Means (Test.ImpliedHolds ns s) n.toFilter)) ∧
        ((∀ test ∈ n.tests, test.IsSettled ns s) → (Filter.answer s g).isSome = true) := by
  have hbare : ∀ test ∈ n.tests, test.IsFullyWritten ⟨NameMap.empty, none, none⟩ :=
    fun _ _ => Or.inl fun _ htypes => absurd htypes (Option.some_ne_none _).symm
  obtain ⟨text, g, hexpand, hread, -⟩ := exists_ofText?_expand hproper h hbare
  refine ⟨text, g, hexpand, hread, fun s hwritten => ?_⟩
  obtain ⟨text', g', hexpand', hread', hanswer⟩ := exists_ofText?_expand hproper h hwritten
  obtain rfl : text = text' := Option.some.inj (hexpand.symm.trans hexpand')
  obtain rfl : g = g' := Except.ok.inj (hread.symm.trans hread')
  exact hanswer

/-- A filter has an expanded text, which is read as a filter.  On any record, with any namespace and
any resolver, its answer, if there is one, says whether the terms of one of the conjunctions hold,
where every test holds when it does along a derivable name.  There is an answer when every test that
the expansion asks for has one, as always in a context of defs and a store. -/
theorem ofText?_expand {ns : Namespace} {n : Node} (hproper : Filter.IsProper n.toFilter)
    (h : ∀ test ∈ n.tests, test.IsExpandable ns) :
    ∃ text g, n.expand ns = some text ∧ Filter.ofText? text = .ok g ∧
      (∀ s : Setting, (∀ test ∈ n.tests, test.IsFullyWritten s) →
        (∀ answer, Filter.answer s g = some answer →
          (answer = true ↔ Filter.Means (Test.ImpliedHolds ns s) n.toFilter)) ∧
        ((∀ test ∈ n.tests, test.IsSettled ns s) → (Filter.answer s g).isSome = true)) ∧
      ∀ cx : Context, Filter.holds cx g = true ↔
        Filter.Means (Test.ImpliedHolds ns cx.setting) n.toFilter := by
  obtain ⟨text, g, hexpand, hread, hall⟩ := exists_ofText?_expand_of_settings hproper h
  refine ⟨text, g, hexpand, hread, hall, fun cx => ?_⟩
  have hwritten : ∀ test ∈ n.tests, test.IsFullyWritten cx.setting :=
    fun _ _ => Or.inl cx.ignoresDisplays
  exact (hall cx.setting hwritten).1 _ (Node.answer_eq_some cx (.filter g))

/-- Two tags that imply each other. -/
def mutualTags : Namespace where
  defs := ⟨[("heating", ⟨[("def", .symbol ⟨"heating"⟩), ("impliedBy", .symbol ⟨"warming"⟩)]⟩),
    ("warming", ⟨[("def", .symbol ⟨"warming"⟩), ("impliedBy", .symbol ⟨"heating"⟩)]⟩)]⟩

theorem ofText?_expand_mutualTags :
    ∃ text g, (Node.term (.test (.hasTag "heating"))).expand mutualTags = some text ∧
      Filter.ofText? text = .ok g ∧
      Filter.holds ⟨⟨[("warming", .marker)]⟩, none, none⟩ g = true ∧
      ∀ resolver, Filter.answer ⟨⟨[("warming", .marker)]⟩, none, some resolver⟩ g = some true := by
  have hplain : ∀ name ∈ ["heating", "warming"], IsPlainName name := by decide
  have hexpandable : (Test.hasTag "heating").IsExpandable mutualTags := by
    refine ⟨fun head hhead name hname => ?_, List.forall_mem_nil _, List.forall_mem_nil _⟩
    rw [List.mem_singleton.mp hhead] at hname
    exact hplain name (hname.mem_of_closed List.mem_cons_self (by decide))
  obtain ⟨text, g, hexpand, hread, hsettings, hcontexts⟩ :=
    @ofText?_expand mutualTags (.term (.test (.hasTag "heating"))) (Filter.isProper_lone _)
      (List.forall_mem_singleton.mpr hexpandable)
  have hmeans (s : Setting) (hwarming : (Test.hasTag "warming").answer s = some true) :
      Filter.Means (Test.ImpliedHolds mutualTags s) [[.test (.hasTag "heating")]] := by
    refine Filter.means_lone.mpr (.implied (List.cons_ne_nil "warming" []) ?_)
    exact List.forall_mem_singleton.mpr (.test hwarming)
  refine ⟨text, g, hexpand, hread, (hcontexts _).mpr (hmeans _ rfl), fun resolver => ?_⟩
  have hbare : ∀ test ∈ (Node.term (.test (.hasTag "heating"))).tests,
      test.IsFullyWritten ⟨⟨[("warming", .marker)]⟩, none, some resolver⟩ :=
    fun _ _ => Or.inl fun _ htypes => absurd htypes (Option.some_ne_none _).symm
  obtain ⟨hanswer, hsettled⟩ := hsettings _ hbare
  obtain ⟨answer, hsome⟩ := Option.isSome_iff_exists.mp
    (hsettled (List.forall_mem_singleton.mpr fun _ _ _ _ => rfl))
  rw [hsome, (hanswer answer hsome).mpr (hmeans _ rfl)]

/-- A tag that is implied by a symbol that is no tag. -/
def phTags : Namespace where
  defs := ⟨[("ph", ⟨[("def", .symbol ⟨"ph"⟩), ("impliedBy", .symbol ⟨"lib:ph"⟩)]⟩)]⟩

/-- A place among equipment that is implied by the place at a site. -/
def placeTags : Namespace where
  defs := ⟨[("equipRef", ⟨[("def", .symbol ⟨"equipRef"⟩), ("impliedBy", .symbol ⟨"siteRef"⟩)]⟩)]⟩

/-- Equipment at the main site that is part of other equipment. -/
def partOf (id : String) : Record :=
  ⟨[("equipRef", .ref ⟨id, none⟩), ("siteRef", .ref ⟨"main", none⟩)]⟩

/-- Every ref points at equipment, which is part of further equipment. -/
def endlessParts : Resolver :=
  ⟨fun r => some (partOf (r.id ++ "x"))⟩

/-- Equipment without a last part to which it belongs. -/
def endlessSetting : Setting where
  record := partOf "plant"
  resolver := some endlessParts

/-- A search for a site along the parts never ends. -/
theorem answer_endlessSetting :
    (Test.reaches (.single "equipRef") ⟨"main", none⟩).answer endlessSetting = none := by
  -- the ids grow from record to record, so that none is the target or comes again
  have hstart : ∃ id, partOf "plant" = partOf id ∧ 4 < id.length ∧
      ∀ other ∈ ([] : List String), other.length < id.length :=
    ⟨"plant", rfl, by decide, List.forall_mem_nil _⟩
  refine loop_eq_none (fun s : Resolver.Search => ∃ id, s.record = partOf id ∧
    4 < id.length ∧ ∀ other ∈ s.met, other.length < id.length) ?_ hstart
  rintro ⟨met, _⟩ ⟨id, rfl, hlong, hmet⟩
  have hgrown : id.length < (id ++ "x").length := by
    rw [String.length_append]
    exact Nat.lt_succ_self _
  refine ⟨⟨id :: met, partOf (id ++ "x")⟩, ?_, id ++ "x", rfl, ?_, ?_⟩
  · have htarget : id ≠ "main" := by
      rintro rfl
      exact absurd hlong (by decide)
    have hnew : id ∉ met := fun hmem => Nat.lt_irrefl _ (hmet id hmem)
    change (if id = "main" then Round.done true
      else if id ∈ met then .done false
      else .next (Resolver.Search.mk (id :: met) (partOf (id ++ "x")))) = _
    rw [if_neg htarget, if_neg hnew]
  · exact Nat.lt_trans hlong hgrown
  · exact List.forall_mem_cons.mpr ⟨hgrown, fun other hother =>
      Nat.lt_trans (hmet other hother) hgrown⟩

/-- The type test `^ph`, whose only part is plain, has an expanded text that is no filter.  Where a
search never ends, the expansion of a wildcard has no answer, although its tag is derivable. -/
theorem ofText?_expand_colon_endless :
    (Filter.ofText? "^ph" = .ok [[.test (.isA ⟨"ph"⟩)]] ∧
      (∀ name ∈ phTags.typesOf ⟨"ph"⟩, ∀ part ∈ (Symbol.mk name).parts, IsPlainName part) ∧
      (Node.filter [[.test (.isA ⟨"ph"⟩)]]).expand phTags = some "(ph or lib:ph)" ∧
      ∀ g, Filter.ofText? "(ph or lib:ph)" ≠ .ok g) ∧
    (Test.reaches (.single "equipRef") ⟨"main", none⟩).IsExpandable placeTags ∧
    Test.ImpliedHolds placeTags endlessSetting (.reaches (.single "equipRef") ⟨"main", none⟩) ∧
    ∃ g, (Node.filter [[.test (.reaches (.single "equipRef") ⟨"main", none⟩)]]).expand placeTags =
        some "(equipRef *== @main or siteRef *== @main)" ∧
      Filter.ofText? "(equipRef *== @main or siteRef *== @main)" = .ok g ∧
      Filter.answer endlessSetting g = none := by
  have hmain : isId (Ref.mk "main" none).id = true := by decide
  have hequip := spells_reaches (Path.isPlain_single (show IsPlainName "equipRef" by decide)) hmain
  have hsite := spells_reaches (Path.isPlain_single (show IsPlainName "siteRef" by decide)) hmain
  refine ⟨⟨?_, by decide, ?_, ?_⟩, ⟨?_, List.forall_mem_nil _, ?_⟩, ?_, ?_⟩
  · have htype := spells_isA (show isId (Symbol.mk "ph").name = true by decide)
    exact ofText?_eq_ok_iff.mpr htype.conjunction.filter
  · have hplain : ∀ name ∈ phTags.typesOf ⟨"ph"⟩, ∀ part ∈ (Symbol.mk name).parts,
        IsPlainName part := by decide
    change Filter.expand phTags [[.test (.isA ⟨"ph"⟩)]] = _
    have hlowered : phTags.loweredType ⟨"ph"⟩ = .test (.hasTag "ph") := rfl
    rw [Filter.expand_lone, Term.expand, Test.expand_isA hplain, hlowered, Term.expand,
      Test.expand_of_impliedBy_eq rfl rfl (Or.inl rfl)]
    exact congrArg some (by decide)
  · have hname : Unreadable "lib:ph" := unreadable_name (isId_iff.mp (by decide)).2 (by decide)
    have hgroup := (hname.or_right
      (spells_hasTag (show IsPlainName "ph" by decide)).conjunction).parenthesized
    exact hgroup.ofText?_ne_ok
  · have hplain : ∀ name ∈ ["equipRef", "siteRef"], IsPlainName name := by decide
    intro head hhead name hname
    rw [List.mem_singleton.mp hhead] at hname
    exact hplain name (hname.mem_of_closed List.mem_cons_self (by decide))
  · exact List.forall_mem_singleton.mpr ⟨_, tokenize_ref hmain, rfl⟩
  · refine .implied (List.cons_ne_nil "siteRef" []) (List.forall_mem_singleton.mpr ?_)
    exact .test (loop_done rfl)
  · refine ⟨_, ?_, ofText?_eq_ok_iff.mpr
      (hequip.conjunction.or hsite.conjunction.filter).parenthesized.conjunction.filter, ?_⟩
    · change Filter.expand placeTags [[.test (.reaches (.single "equipRef") ⟨"main", none⟩)]] = _
      rw [Filter.expand_lone, Term.expand, Test.expand_of_impliedBy_eq rfl rfl (Or.inl rfl)]
      exact congrArg some (by decide)
    · change anyAnswers [[Term.answer endlessSetting (.group _)]] = none
      rw [Term.answer_group]
      change anyAnswers [[anyAnswers
        [[(Test.reaches (.single "equipRef") ⟨"main", none⟩).answer endlessSetting],
          [(Test.reaches (.single "siteRef") ⟨"main", none⟩).answer endlessSetting]]]] = none
      rw [answer_endlessSetting]
      rfl

end TagFilter
