import TagFilter.Proofs.Filter.Groups
import TagFilter.Proofs.Filter.Tests

/-!
# Lowered type tests

The lowered text of a type test spells a term of tests for tags: all tags that are joined by the
name of the type or by that of one of its subtypes.
-/

namespace TagFilter

/-! ### Parts of names -/

theorem piecesAt_of_not_mem {separator : Char} {text : List Char} (h : separator ∉ text) :
    piecesAt separator text = [text] := by
  induction text with
  | nil => rfl
  | cons c rest ih =>
    have hne : c ≠ separator := by
      rintro rfl
      exact h List.mem_cons_self
    rw [piecesAt, if_neg hne, ih fun hmem => h (List.mem_cons_of_mem c hmem), consFirst]

/-- A text with a separator has at least two pieces. -/
theorem exists_piecesAt_of_mem {separator : Char} {text : List Char} (h : separator ∈ text) :
    ∃ first second rest, piecesAt separator text = first :: second :: rest := by
  induction text with
  | nil => cases h
  | cons c rest ih =>
    rw [piecesAt]
    split
    · cases hpieces : piecesAt separator rest with
      | nil => exact absurd hpieces (piecesAt_ne_nil separator rest)
      | cons first others => exact ⟨[], first, others, rfl⟩
    · next hne =>
      have hmem : separator ∈ rest := by
        rcases List.mem_cons.mp h with heq | hmem
        · exact absurd heq.symm hne
        · exact hmem
      obtain ⟨first, second, others, hpieces⟩ := ih hmem
      rw [hpieces]
      exact ⟨c :: first, second, others, rfl⟩

theorem Symbol.parts_ne_nil (s : Symbol) : s.parts ≠ [] := by
  rw [Symbol.parts, ne_eq, List.map_eq_nil_iff]
  exact piecesAt_ne_nil '-' s.name.toList

/-- A symbol that joins no tags is its own only part. -/
theorem Symbol.parts_of_not_isConjunct {s : Symbol} (h : s.isConjunct = false) :
    s.parts = [s.name] := by
  have hnot : '-' ∉ s.name.toList := by
    intro hmem
    rw [Symbol.isConjunct, List.contains_iff_mem.mpr hmem] at h
    cases h
  rw [Symbol.parts, piecesAt_of_not_mem hnot, List.map_singleton, String.ofList_toList]

/-- The tags of a type as text are its parts, grouped by `and`. -/
theorem typeText_eq_grouped (name : String) :
    typeText name = grouped " and " (Symbol.mk name).parts := by
  unfold typeText
  simp only
  split
  · next h =>
    obtain ⟨first, second, rest, hpieces⟩ :=
      exists_piecesAt_of_mem (List.contains_iff_mem.mp h)
    simp only [Symbol.parts, hpieces, List.map_cons]
    rfl
  · next h =>
    rw [Symbol.parts_of_not_isConjunct (Bool.eq_false_iff.mpr h)]
    rfl

/-! ### Types as terms -/

/-- The test for a tag. -/
def Test.hasTag (name : String) : Test :=
  .has (.single name)

/-- The term for the tags of a type. -/
def typeTerm (name : String) : Term :=
  allTerm ((Symbol.mk name).parts.map fun part => .test (.hasTag part))

namespace Namespace

/-- The names of a type and of its subtypes. -/
def typesOf (ns : Namespace) (type : Symbol) : List String :=
  type.name :: ns.subtypesOf type.name

/-- The term that the lowered text of a type test spells. -/
def loweredType (ns : Namespace) (type : Symbol) : Term :=
  anyTerm ((ns.typesOf type).map typeTerm)

end Namespace

theorem spells_hasTag {name : String} (h : IsPlainName name) :
    SpellsTerm name (.test (.hasTag name)) := by
  have htext : (Path.single name).toText = name := String.intercalate_singleton
  have hspells := spells_has (Path.isPlain_single h)
  rwa [htext] at hspells

theorem spells_typeText {name : String} (h : ∀ part ∈ (Symbol.mk name).parts, IsPlainName part) :
    SpellsTerm (typeText name) (typeTerm name) := by
  have hgrouped := spells_grouped_and (Symbol.parts_ne_nil ⟨name⟩) fun part hpart =>
    spells_hasTag (h part hpart)
  rw [List.map_id'] at hgrouped
  rw [typeText_eq_grouped]
  exact hgrouped

section Lowered

variable {ns : Namespace} {type : Symbol} {sense : Test → Prop}

theorem Namespace.typesOf_ne_nil : ns.typesOf type ≠ [] :=
  List.cons_ne_nil _ _

theorem Namespace.mem_typesOf {name : String} (h : name ∈ ns.typesOf type) :
    name = type.name ∨ name ∈ ns.names := by
  rcases List.mem_cons.mp h with rfl | hname
  · exact Or.inl rfl
  · exact Or.inr (List.mem_filter.mp hname).1

/-- The lowered text of a type test is read when all parts of its names are plain. -/
theorem Namespace.spells_lowerType
    (h : ∀ name ∈ ns.typesOf type, ∀ part ∈ (Symbol.mk name).parts, IsPlainName part) :
    SpellsTerm (lowerType ns type) (ns.loweredType type) := by
  unfold lowerType
  rw [anyOf_eq_grouped]
  exact spells_grouped_or typesOf_ne_nil fun name hname => spells_typeText (h name hname)

/-- A lowered type test asks for all tags of the type or of one of its subtypes. -/
theorem Namespace.means_loweredType :
    (ns.loweredType type).Means sense ↔
      ∃ name ∈ ns.typesOf type, ∀ part ∈ (Symbol.mk name).parts, sense (.hasTag part) := by
  unfold loweredType
  rw [means_anyTerm_map typesOf_ne_nil]
  simp only [typeTerm, means_allTerm_map (Symbol.parts_ne_nil _), Term.means_test]

theorem Namespace.isProper_loweredType : (ns.loweredType type).IsProper := by
  refine isProper_anyTerm_map typesOf_ne_nil fun name _ => ?_
  exact isProper_allTerm_map (Symbol.parts_ne_nil ⟨name⟩) fun _ _ => trivial

/-- The tests of a lowered type test are for parts of the names. -/
theorem Namespace.mem_tests_loweredType {test : Test} (h : test ∈ (ns.loweredType type).tests) :
    ∃ name ∈ ns.typesOf type, ∃ part ∈ (Symbol.mk name).parts, test = .hasTag part := by
  obtain ⟨name, hname, htest⟩ := mem_tests_anyTerm_map typesOf_ne_nil h
  obtain ⟨part, hpart, htest⟩ := mem_tests_allTerm_map (Symbol.parts_ne_nil ⟨name⟩) htest
  exact ⟨name, hname, part, hpart, List.mem_singleton.mp htest⟩

end Lowered

end TagFilter
