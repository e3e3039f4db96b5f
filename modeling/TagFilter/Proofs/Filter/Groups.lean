import TagFilter.Implied
import TagFilter.Proofs.Filter.Meaning
import TagFilter.Proofs.Filter.Spelling

/-!
# Groups of alternatives

Texts that are joined by one connective stand in parentheses unless there is only one.  They spell
the term in which the joined terms are grouped in the same way, and that term means that one of
them, or that all of them, hold.  Its canonical text groups their canonical texts in the same way
again.
-/

namespace TagFilter

/-- The term that one of several terms holds. -/
def anyTerm : List Term → Term
  | [t] => t
  | terms => .group (terms.map fun t => [t])

/-- The term that all of several terms hold. -/
def allTerm : List Term → Term
  | [t] => t
  | terms => .group [terms]

variable {terms : List Term} {sense : Test → Prop}

/-- A lone term is not grouped, and other terms are. -/
theorem anyTerm_cases (hne : terms ≠ []) :
    (∃ t, terms = [t] ∧ anyTerm terms = t) ∨ anyTerm terms = .group (terms.map fun t => [t]) := by
  match terms, hne with
  | [t], _ => exact Or.inl ⟨t, rfl, rfl⟩
  | t :: u :: rest, _ => exact Or.inr rfl

theorem allTerm_cases (hne : terms ≠ []) :
    (∃ t, terms = [t] ∧ allTerm terms = t) ∨ allTerm terms = .group [terms] := by
  match terms, hne with
  | [t], _ => exact Or.inl ⟨t, rfl, rfl⟩
  | t :: u :: rest, _ => exact Or.inr rfl

/-! ### Meaning -/

theorem means_anyTerm (hne : terms ≠ []) :
    (anyTerm terms).Means sense ↔ ∃ t ∈ terms, t.Means sense := by
  rcases anyTerm_cases hne with ⟨t, rfl, heq⟩ | heq
  · rw [heq]
    constructor
    · intro h
      exact ⟨t, List.mem_cons_self, h⟩
    · rintro ⟨u, hu, h⟩
      rwa [List.mem_singleton.mp hu] at h
  · rw [heq, Term.means_group]
    constructor
    · rintro ⟨c, hc, hall⟩
      obtain ⟨t, ht, rfl⟩ := List.mem_map.mp hc
      exact ⟨t, ht, hall t List.mem_cons_self⟩
    · rintro ⟨t, ht, h⟩
      refine ⟨[t], List.mem_map_of_mem ht, fun u hu => ?_⟩
      rwa [List.mem_singleton.mp hu]

theorem means_allTerm (hne : terms ≠ []) :
    (allTerm terms).Means sense ↔ ∀ t ∈ terms, t.Means sense := by
  rcases allTerm_cases hne with ⟨t, rfl, heq⟩ | heq
  · rw [heq]
    constructor
    · intro h u hu
      rwa [List.mem_singleton.mp hu]
    · intro h
      exact h t List.mem_cons_self
  · rw [heq, Term.means_group]
    constructor
    · rintro ⟨c, hc, hall⟩
      rwa [List.mem_singleton.mp hc] at hall
    · intro h
      exact ⟨terms, List.mem_cons_self, h⟩

section Mapped

variable {α : Type} {read : α → Term} {xs : List α}

theorem means_anyTerm_map (hne : xs ≠ []) :
    (anyTerm (xs.map read)).Means sense ↔ ∃ x ∈ xs, (read x).Means sense := by
  rw [means_anyTerm (by rwa [ne_eq, List.map_eq_nil_iff])]
  constructor
  · rintro ⟨t, ht, h⟩
    obtain ⟨x, hx, rfl⟩ := List.mem_map.mp ht
    exact ⟨x, hx, h⟩
  · rintro ⟨x, hx, h⟩
    exact ⟨read x, List.mem_map_of_mem hx, h⟩

theorem means_allTerm_map (hne : xs ≠ []) :
    (allTerm (xs.map read)).Means sense ↔ ∀ x ∈ xs, (read x).Means sense := by
  rw [means_allTerm (by rwa [ne_eq, List.map_eq_nil_iff]), List.forall_mem_map]

end Mapped

/-! ### Tests -/

theorem isProper_anyTerm (hne : terms ≠ []) (h : ∀ t ∈ terms, t.IsProper) :
    (anyTerm terms).IsProper := by
  rcases anyTerm_cases hne with ⟨t, rfl, heq⟩ | heq
  · rw [heq]
    exact h t List.mem_cons_self
  · rw [heq, Term.isProper_group]
    constructor
    · rw [ne_eq, List.map_eq_nil_iff]
      exact hne
    · intro c hc
      obtain ⟨t, ht, rfl⟩ := List.mem_map.mp hc
      refine ⟨List.cons_ne_nil t [], fun u hu => ?_⟩
      rw [List.mem_singleton.mp hu]
      exact h t ht

theorem isProper_allTerm (hne : terms ≠ []) (h : ∀ t ∈ terms, t.IsProper) :
    (allTerm terms).IsProper := by
  rcases allTerm_cases hne with ⟨t, rfl, heq⟩ | heq
  · rw [heq]
    exact h t List.mem_cons_self
  · rw [heq, Term.isProper_group]
    refine ⟨List.cons_ne_nil _ _, fun c hc => ?_⟩
    rw [List.mem_singleton.mp hc]
    exact ⟨hne, h⟩

theorem mem_tests_anyTerm {test : Test} (hne : terms ≠ []) (h : test ∈ (anyTerm terms).tests) :
    ∃ t ∈ terms, test ∈ t.tests := by
  rcases anyTerm_cases hne with ⟨t, rfl, heq⟩ | heq
  · rw [heq] at h
    exact ⟨t, List.mem_cons_self, h⟩
  · rw [heq, Term.tests_group] at h
    obtain ⟨c, hc, u, hu, htest⟩ := Filter.mem_tests.mp h
    obtain ⟨t, ht, rfl⟩ := List.mem_map.mp hc
    rw [List.mem_singleton.mp hu] at htest
    exact ⟨t, ht, htest⟩

theorem mem_tests_allTerm {test : Test} (hne : terms ≠ []) (h : test ∈ (allTerm terms).tests) :
    ∃ t ∈ terms, test ∈ t.tests := by
  rcases allTerm_cases hne with ⟨t, rfl, heq⟩ | heq
  · rw [heq] at h
    exact ⟨t, List.mem_cons_self, h⟩
  · rw [heq, Term.tests_group] at h
    obtain ⟨c, hc, u, hu, htest⟩ := Filter.mem_tests.mp h
    rw [List.mem_singleton.mp hc] at hu
    exact ⟨u, hu, htest⟩

section MappedTests

variable {α : Type} {read : α → Term} {xs : List α}

theorem isProper_anyTerm_map (hne : xs ≠ []) (h : ∀ x ∈ xs, (read x).IsProper) :
    (anyTerm (xs.map read)).IsProper :=
  isProper_anyTerm (by rwa [ne_eq, List.map_eq_nil_iff]) (List.forall_mem_map.mpr h)

theorem isProper_allTerm_map (hne : xs ≠ []) (h : ∀ x ∈ xs, (read x).IsProper) :
    (allTerm (xs.map read)).IsProper :=
  isProper_allTerm (by rwa [ne_eq, List.map_eq_nil_iff]) (List.forall_mem_map.mpr h)

theorem mem_tests_anyTerm_map {test : Test} (hne : xs ≠ [])
    (h : test ∈ (anyTerm (xs.map read)).tests) : ∃ x ∈ xs, test ∈ (read x).tests := by
  obtain ⟨t, ht, htest⟩ := mem_tests_anyTerm (by rwa [ne_eq, List.map_eq_nil_iff]) h
  obtain ⟨x, hx, rfl⟩ := List.mem_map.mp ht
  exact ⟨x, hx, htest⟩

theorem mem_tests_allTerm_map {test : Test} (hne : xs ≠ [])
    (h : test ∈ (allTerm (xs.map read)).tests) : ∃ x ∈ xs, test ∈ (read x).tests := by
  obtain ⟨t, ht, htest⟩ := mem_tests_allTerm (by rwa [ne_eq, List.map_eq_nil_iff]) h
  obtain ⟨x, hx, rfl⟩ := List.mem_map.mp ht
  exact ⟨x, hx, htest⟩

end MappedTests

/-! ### Spelling -/

theorem anyOf_eq_grouped (texts : List String) : anyOf texts = grouped " or " texts := by
  match texts with
  | [] => rfl
  | [text] => rfl
  | a :: b :: rest => rfl

/-- The canonical text of the term that one of several terms holds. -/
theorem toText_anyTerm (terms : List Term) :
    (anyTerm terms).toText = grouped " or " (terms.map Term.toText) := by
  match terms with
  | [] => rfl
  | [t] => rfl
  | t :: u :: rest =>
    have hlone : ∀ v : Term, Conjunction.toText [v] = v.toText := fun v =>
      joinAnd_singleton v.toText
    have hterms : ((t :: u :: rest).map fun v => [v]).map Conjunction.toText =
        (t :: u :: rest).map Term.toText := by
      rw [List.map_map]
      exact List.map_congr_left fun v _ => hlone v
    calc (anyTerm (t :: u :: rest)).toText
      _ = parenthesized (joinOr (((t :: u :: rest).map fun v => [v]).map Conjunction.toText)) :=
        Term.textWith_group _ _
      _ = grouped " or " ((t :: u :: rest).map Term.toText) := by
        rw [hterms]
        rfl

/-- The canonical text of the term that all of several terms hold. -/
theorem toText_allTerm (terms : List Term) :
    (allTerm terms).toText = grouped " and " (terms.map Term.toText) := by
  match terms with
  | [] => rfl
  | [t] => rfl
  | t :: u :: rest =>
    calc (allTerm (t :: u :: rest)).toText
      _ = parenthesized (joinOr [Conjunction.toText (t :: u :: rest)]) := Term.textWith_group _ _
      _ = grouped " and " ((t :: u :: rest).map Term.toText) := by
        rw [joinOr_singleton]
        rfl

section Spelled

variable {α : Type} {text : α → String} {read : α → Term} {xs : List α}

/-- Texts of terms that are grouped by `or`. -/
theorem spells_grouped_or (hne : xs ≠ []) (h : ∀ x ∈ xs, SpellsTerm (text x) (read x)) :
    SpellsTerm (grouped " or " (xs.map text)) (anyTerm (xs.map read)) := by
  match xs, hne with
  | [x], _ => exact h x List.mem_cons_self
  | x :: y :: rest, hne =>
    have hjoined : SpellsFilter (joinOr ((x :: y :: rest).map text))
        ((x :: y :: rest).map fun z => [read z]) :=
      spells_joinOr hne fun z hz => (h z hz).conjunction
    have hmap : ((x :: y :: rest).map read).map (fun t => [t]) =
        (x :: y :: rest).map fun z => [read z] := List.map_map
    have hterm : anyTerm ((x :: y :: rest).map read) =
        .group ((x :: y :: rest).map fun z => [read z]) := congrArg Term.group hmap
    rw [hterm]
    exact hjoined.parenthesized

/-- Texts of terms that are grouped by `and`. -/
theorem spells_grouped_and (hne : xs ≠ []) (h : ∀ x ∈ xs, SpellsTerm (text x) (read x)) :
    SpellsTerm (grouped " and " (xs.map text)) (allTerm (xs.map read)) := by
  match xs, hne with
  | [x], _ => exact h x List.mem_cons_self
  | x :: y :: rest, hne => exact (spells_joinAnd hne h).filter.parenthesized

end Spelled

/-! ### Choosing terms -/

/-- A choice for every member of a list. -/
theorem exists_forall_mem {α β : Type} [Nonempty β] {r : α → β → Prop} {xs : List α}
    (h : ∀ x ∈ xs, ∃ y, r x y) : ∃ f : α → β, ∀ x ∈ xs, r x (f x) := by
  have hall : ∀ x, ∃ y, x ∈ xs → r x y := by
    intro x
    by_cases hx : x ∈ xs
    · obtain ⟨y, hy⟩ := h x hx
      exact ⟨y, fun _ => hy⟩
    · exact ⟨Classical.choice inferInstance, fun hmem => absurd hmem hx⟩
  exact Classical.axiomOfChoice hall

instance : Nonempty Term := ⟨.group []⟩

/-- If the text of every test of a filter spells a term with some property, then the text of the
filter spells the filter with such terms in the places of its tests. -/
theorem Filter.exists_spells {f : Filter} {text : Test → String} {P : Test → Term → Prop}
    (hproper : Filter.IsProper f)
    (h : ∀ test ∈ Filter.tests f, ∃ t, SpellsTerm (text test) t ∧ P test t) :
    ∃ read : Test → Term, SpellsFilter (Filter.textWith text f) (Filter.bind read f) ∧
      ∀ test ∈ Filter.tests f, P test (read test) := by
  obtain ⟨read, hread⟩ := exists_forall_mem h
  exact ⟨read, Filter.spells_textWith hproper fun test htest => (hread test htest).1,
    fun test htest => (hread test htest).2⟩

/-- If the text of every test of a filter spells a term, then the text of the filter is a filter. -/
theorem Filter.exists_ofText?_textWith {f : Filter} {text : Test → String}
    (hproper : Filter.IsProper f)
    (h : ∀ test ∈ Filter.tests f, ∃ t, SpellsTerm (text test) t) :
    ∃ g, Filter.ofText? (Filter.textWith text f) = .ok g := by
  obtain ⟨read, hread⟩ := exists_forall_mem h
  exact ⟨_, ofText?_eq_ok_iff.mpr (Filter.spells_textWith hproper hread)⟩

/-- If the text of every test of a term spells a term with some property, then the text of the
term spells the term with such terms in the places of its tests. -/
theorem Term.exists_spells {t : Term} {text : Test → String} {P : Test → Term → Prop}
    (hproper : t.IsProper)
    (h : ∀ test ∈ t.tests, ∃ u, SpellsTerm (text test) u ∧ P test u) :
    ∃ read : Test → Term, SpellsTerm (t.textWith text) (t.bind read) ∧
      ∀ test ∈ t.tests, P test (read test) := by
  obtain ⟨read, hread⟩ := exists_forall_mem h
  exact ⟨read, Term.spells_textWith hproper fun test htest => (hread test htest).1,
    fun test htest => (hread test htest).2⟩

end TagFilter
