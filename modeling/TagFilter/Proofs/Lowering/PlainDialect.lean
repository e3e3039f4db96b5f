import TagFilter.Proofs.ExpressibleValues
import TagFilter.Proofs.Lowering.Tightness
import TagFilter.Proofs.Namespace.Supertypes

/-!
# The plain dialect

Lowering ends in the plain dialect, and its texts are canonical: what a lowered text is read as has
no type test, no relationship test and no wildcard, and its canonical text is the lowered text
(`ofText?_lower_stable`).  A filter of the plain dialect is not changed by lowering
(`Filter.IsPlain.lower_eq`), so that lowering a second time gives the same text.

A lowered text is put together from the names of tags by `or` and `and` and parentheses around what
they join.  The terms that these texts spell are put together in the same way, so that it is enough
to know how the canonical text of a group is made from those of its terms (`Term.isForm_anyTerm`,
`Term.isForm_allTerm`).
-/

namespace TagFilter

/-! ### Plain tests and filters -/

/-- The test asks only for values along a path. -/
def Test.IsPlain : Test → Prop
  | .has _ | .missing _ | .compare _ _ _ => True
  | .isA _ | .related _ _ | .reaches _ _ => False

/-- The tests of the filter are plain. -/
def Filter.IsPlain (f : Filter) : Prop :=
  ∀ test ∈ Filter.tests f, test.IsPlain

section Plain

variable {ns : Namespace} {test : Test}

/-- A plain test is lowered to itself. -/
theorem Test.IsPlain.lower_eq (h : test.IsPlain) : test.lower ns = test.toText := by
  cases test with
  | has p | missing p | compare p op operand => rfl
  | isA type | related r target | reaches p target => exact h.elim

theorem Test.IsPlain.isWidened_eq (h : test.IsPlain) : test.isWidened = false := by
  cases test with
  | has p | missing p | compare p op operand => rfl
  | isA type | related r target | reaches p target => exact h.elim

/-- A filter of the plain dialect is lowered to its canonical text and is not widened. -/
theorem Filter.IsPlain.lower_eq {f : Filter} (h : Filter.IsPlain f) :
    (Node.filter f).lower ns = ⟨Filter.toText f, false⟩ := by
  have htext : Filter.textWith (Test.lower ns) f = Filter.textWith Test.toText f :=
    Filter.textWith_congr fun test htest => (h test htest).lower_eq
  have hrequery : (Filter.tests f).any Test.isWidened = false :=
    List.any_eq_false.mpr fun test htest => Bool.eq_false_iff.mp (h test htest).isWidened_eq
  exact congrArg₂ Lowered.mk htext hrequery

end Plain

/-! ### Groups -/

/-- The term has a given canonical text, and its tests are plain. -/
structure Term.IsForm (t : Term) (text : String) : Prop where
  /-- The canonical text. -/
  toText_eq : t.toText = text
  /-- The tests are plain. -/
  tests : ∀ test ∈ t.tests, test.IsPlain

theorem Test.IsPlain.isForm {test : Test} (h : test.IsPlain) {text : String}
    (htext : test.toText = text) : (Term.test test).IsForm text where
  toText_eq := htext
  tests := List.forall_mem_singleton.mpr h

section Grouped

variable {α : Type} {text : α → String} {read : α → Term} {xs : List α}

theorem Term.isForm_anyTerm (hne : xs ≠ []) (h : ∀ x ∈ xs, (read x).IsForm (text x)) :
    (anyTerm (xs.map read)).IsForm (grouped " or " (xs.map text)) where
  toText_eq := by
    rw [toText_anyTerm, List.map_map]
    exact congrArg _ (List.map_congr_left fun x hx => (h x hx).toText_eq)
  tests := by
    intro test htest
    obtain ⟨x, hx, htest⟩ := mem_tests_anyTerm_map hne htest
    exact (h x hx).tests test htest

theorem Term.isForm_allTerm (hne : xs ≠ []) (h : ∀ x ∈ xs, (read x).IsForm (text x)) :
    (allTerm (xs.map read)).IsForm (grouped " and " (xs.map text)) where
  toText_eq := by
    rw [toText_allTerm, List.map_map]
    exact congrArg _ (List.map_congr_left fun x hx => (h x hx).toText_eq)
  tests := by
    intro test htest
    obtain ⟨x, hx, htest⟩ := mem_tests_allTerm_map hne htest
    exact (h x hx).tests test htest

end Grouped

/-! ### Lowered tests -/

section Lowered

variable {ns : Namespace} {type : Symbol} {r : Relationship} {p : Path} {target : Ref}

theorem Term.isForm_hasTag (name : String) : (Term.test (.hasTag name)).IsForm name :=
  have hplain : (Test.hasTag name).IsPlain := trivial
  have htext : (Path.single name).toText = name := String.intercalate_singleton
  hplain.isForm htext

theorem isForm_typeTerm (name : String) : (typeTerm name).IsForm (typeText name) := by
  have hgrouped := Term.isForm_allTerm (Symbol.parts_ne_nil ⟨name⟩) fun part _ =>
    Term.isForm_hasTag part
  rw [List.map_id'] at hgrouped
  rw [typeText_eq_grouped]
  exact hgrouped

theorem Namespace.isForm_loweredType : (ns.loweredType type).IsForm (lowerType ns type) := by
  unfold lowerType
  rw [anyOf_eq_grouped]
  exact Term.isForm_anyTerm typesOf_ne_nil fun name _ => isForm_typeTerm name

theorem Namespace.isForm_loweredRelated : (ns.loweredRelated r).IsForm (lowerRelated ns r) := by
  unfold lowerRelated loweredRelated
  rw [refTags_taxonomy]
  cases ns.refTags r with
  | nil => exact Term.isForm_hasTag r.name
  | cons tag tags =>
    have hgrouped := Term.isForm_anyTerm (List.cons_ne_nil tag tags) fun tag _ =>
      Term.isForm_hasTag tag
    rw [List.map_id'] at hgrouped
    simp only [anyOf_eq_grouped]
    exact hgrouped

theorem isForm_loweredReaches : (loweredReaches p target).IsForm (lowerReaches p target) := by
  unfold lowerReaches
  rw [anyOf_eq_grouped]
  refine Term.isForm_anyTerm depths_ne_nil fun n _ => ?_
  have hplain : (Test.compare (p.repeated (n + 1)) .equal (.ref target.written)).IsPlain := trivial
  exact hplain.isForm rfl

end Lowered

section Tests

variable {ns : Namespace} {test : Test}

/-- The lowered text of a test is read as a term of the plain dialect, of which it is the canonical
text. -/
theorem Test.exists_isForm_lower (hscanned : test.IsScanned) (h : test.IsLowerable ns)
    (hnames : ns.HasPlainParts) :
    ∃ t, SpellsTerm (test.lower ns) t ∧ t.IsForm (test.lower ns) := by
  have hlowered := h.isPlainName hnames
  cases test with
  | has p =>
    have hplain : (Test.has p).IsPlain := trivial
    exact ⟨_, spells_has hscanned.1, hplain.isForm rfl⟩
  | missing p =>
    have hplain : (Test.missing p).IsPlain := trivial
    exact ⟨_, spells_missing hscanned.1, hplain.isForm rfl⟩
  | compare p op operand =>
    have hliteral : operand.IsLiteral := (h.literals operand List.mem_cons_self).isLiteral
    have hplain : (Test.compare p op operand.written).IsPlain := trivial
    refine ⟨_, spells_compare hscanned.1 op (Value.tokenize_toText hliteral), hplain.isForm ?_⟩
    exact congrArg (fun text => p.toText ++ " " ++ op.toText ++ " " ++ text) operand.toText_written
  | isA type =>
    exact ⟨_, Namespace.spells_lowerType (List.forall_mem_flatMap.mp hlowered),
      Namespace.isForm_loweredType⟩
  | related r target =>
    exact ⟨_, Namespace.spells_lowerRelated hscanned.1.1 hlowered, Namespace.isForm_loweredRelated⟩
  | reaches p target =>
    exact ⟨_, spells_lowerReaches hscanned.1.1 hscanned.1.2, isForm_loweredReaches⟩

end Tests

/-! ### Lowered filters -/

/-- The lowered text of a filter is read as a filter of the plain dialect, it is the canonical text
of this filter, and lowering the filter again gives the same text without a need to filter again. -/
theorem ofText?_lower_stable {ns : Namespace} {text : String} {f : Filter}
    (hread : Filter.ofText? text = .ok f) (h : ∀ test ∈ Filter.tests f, test.IsLowerable ns)
    (hnames : ns.HasPlainParts) :
    ∃ g, Filter.ofText? ((Node.filter f).lower ns).text = .ok g ∧ Filter.IsPlain g ∧
      Filter.toText g = ((Node.filter f).lower ns).text ∧
      (Node.filter g).lower ns = ⟨((Node.filter f).lower ns).text, false⟩ := by
  have hspells := ofText?_eq_ok_iff.mp hread
  obtain ⟨read, hlowered, hform⟩ := Filter.exists_spells hspells.isProper fun test htest =>
    Test.exists_isForm_lower (hspells.isScanned test htest) (h test htest) hnames
  have hplain : Filter.IsPlain (Filter.bind read f) := by
    intro test htest
    obtain ⟨u, hu, htest⟩ := Filter.mem_tests_bind htest
    exact (hform u hu).tests test htest
  have htext : Filter.toText (Filter.bind read f) = ((Node.filter f).lower ns).text := by
    unfold Filter.toText
    rw [Filter.textWith_bind]
    exact Filter.textWith_congr fun test htest => (hform test htest).toText_eq
  refine ⟨Filter.bind read f, ofText?_eq_ok_iff.mpr hlowered, hplain, htext, ?_⟩
  rw [hplain.lower_eq, htext]

theorem subtypesOf_meterTypes : meterTypes.subtypesOf "meter" = ["elec-meter"] := by
  have hlink : meterTypes.HasSupertype "elec-meter" "meter" :=
    ⟨_, rfl, _, rfl, ⟨"meter"⟩, List.mem_cons_self, rfl⟩
  have hsubtype : meterTypes.isSubtype "elec-meter" "meter" = true :=
    Namespace.isSubtype_iff.mpr (.single hlink)
  have hnames : meterTypes.names = ["elec-meter", "meter"] := rfl
  simp [Namespace.subtypesOf, hnames, hsubtype]

/-- A search for what is no site and is a meter or has inputs. -/
def noSite : Filter :=
  [[.test (.missing (.single "site")),
    .group [[.test (.isA ⟨"meter"⟩)], [.test hasInputs]]]]

theorem ofText?_lower_stable_noSite :
    ∃ g, Filter.ofText? "not site and (^meter or inputs?)" = .ok noSite ∧
      Filter.ofText? "not site and ((meter or (elec and meter)) or inputs)" = .ok g ∧
      Filter.IsPlain g ∧
      (Node.filter g).lower meterTypes =
        ⟨"not site and ((meter or (elec and meter)) or inputs)", false⟩ := by
  have hmissing := spells_missing (Path.isPlain_single (show IsPlainName "site" by decide))
  have htype := spells_isA (show isId (Symbol.mk "meter").name = true by decide)
  have hgroup := (htype.conjunction.or spells_hasInputs.conjunction.filter).parenthesized
  have hread : Filter.ofText? "not site and (^meter or inputs?)" = .ok noSite :=
    ofText?_eq_ok_iff.mpr (hmissing.and hgroup.conjunction).filter
  have hlowerable : ∀ test ∈ Filter.tests noSite, test.IsLowerable meterTypes := by
    have htests : Filter.tests noSite = [.missing (.single "site"), .isA ⟨"meter"⟩, hasInputs] :=
      rfl
    rw [htests, List.forall_mem_cons, List.forall_mem_cons, List.forall_mem_singleton]
    refine ⟨⟨List.forall_mem_nil _, nofun, nofun⟩, ⟨List.forall_mem_nil _, ?_, nofun⟩,
      ⟨List.forall_mem_nil _, nofun, ?_⟩⟩
    · rintro type ⟨⟩
      decide
    · rintro r target ⟨⟩
      decide
  have hnames : meterTypes.HasPlainParts := by
    unfold Namespace.HasPlainParts
    decide
  have hlower : lowerType meterTypes ⟨"meter"⟩ = "(meter or (elec and meter))" := by
    rw [lowerType, Namespace.subtypesOf_taxonomy, subtypesOf_meterTypes]
    decide
  have htext : ((Node.filter noSite).lower meterTypes).text =
      "not site and ((meter or (elec and meter)) or inputs)" :=
    (congrArg (fun text => joinAnd ["not site", parenthesized (joinOr [text, "inputs"])])
      hlower).trans (by decide)
  obtain ⟨g, hlowered, hplain, -, hstable⟩ := ofText?_lower_stable hread hlowerable hnames
  rw [htext] at hlowered hstable
  exact ⟨g, hread, hlowered, hplain, hstable⟩

end TagFilter
