import TagFilter.Log
import TagFilter.Proofs.Filter.Groups

/-!
# Expanded texts

The expansion of a name stands for itself, or is put together from the expansions of the names that
imply it.  The expanded text of a filter is put together from those of its tests; it is there when
these are, and it spells the filter with the terms that they spell in their places.

What is logged of an expansion follows the same type tests, and is there when the expanded text is.
-/

namespace TagFilter

theorem mapM_eq_some_map {α β : Type} {f : α → Option β} {g : α → β} {xs : List α}
    (h : ∀ x ∈ xs, f x = some (g x)) : xs.mapM f = some (xs.map g) := by
  induction xs with
  | nil => rfl
  | cons x xs ih =>
    obtain ⟨hx, hxs⟩ := List.forall_mem_cons.mp h
    rw [List.mapM_cons, hx, ih hxs]
    rfl

/-- A list is mapped as the list of its results says. -/
theorem mapM_eq_of_map_eq {α β : Type} {f : α → Option β} {xs ys : List α}
    (h : xs.map f = ys.map f) : xs.mapM f = ys.mapM f := by
  have hresults (zs : List α) : (zs.map f).mapM id = zs.mapM f := by
    rw [List.mapM_map, Function.id_comp]
  rw [← hresults, h, hresults]

theorem isSome_mapM_iff {α β : Type} {f : α → Option β} {xs : List α} :
    (xs.mapM f).isSome = true ↔ ∀ x ∈ xs, (f x).isSome = true := by
  induction xs with
  | nil => exact iff_of_true rfl (List.forall_mem_nil _)
  | cons x xs ih =>
    rw [List.forall_mem_cons, ← ih, List.mapM_cons]
    cases f x with
    | none => simp
    | some y => cases xs.mapM f <;> simp

/-! ### Names -/

section Names

variable {ns : Namespace} {negated : Bool} {text : String → String} {expanding : List String}
  {name : String}

/-- A name without implying names, or one that is being expanded, stands for itself. -/
theorem expandName_of_cut (h : ns.impliedBy name = [] ∨ name ∈ expanding) :
    Taxonomy.expandName ns negated text expanding name = some (text name) := by
  rw [Taxonomy.expandName, Namespace.impliedBy_taxonomy, if_pos h]

/-- Another name stands for itself or for all alternatives, or the opposite. -/
theorem expandName_of_alternatives {alternative : String → String}
    (h : ¬ (ns.impliedBy name = [] ∨ name ∈ expanding))
    (halternative : ∀ other ∈ ns.impliedBy name,
      Taxonomy.expandName ns negated text (name :: expanding) other = some (alternative other)) :
    Taxonomy.expandName ns negated text expanding name =
      some (parenthesized (text name ++ (if negated then " and " else " or ") ++
        grouped (if negated then " or " else " and ")
          ((ns.impliedBy name).map alternative))) := by
  rw [Taxonomy.expandName, Namespace.impliedBy_taxonomy, if_neg h, mapM_eq_some_map halternative]
  cases negated <;> rfl

end Names

/-! ### Filters -/

section Texts

variable {ns : Taxonomy} {text : Test → String} {t : Term} {f : Filter}
  {P : Test → Term → Prop}

theorem Conjunction.expand_eq (c : Conjunction) :
    Conjunction.expand ns c = (c.mapM (Term.expand ns)).map joinAnd := by
  rw [Conjunction.expand, Node.expand]
  cases c.mapM (Term.expand ns) <;> rfl

theorem Filter.expand_eq (f : Filter) :
    Filter.expand ns f = (f.mapM (Conjunction.expand ns)).map joinOr := by
  rw [Filter.expand, Node.expand]
  change (f.mapM (Conjunction.expand ns)).bind (fun texts => some (joinOr texts)) = _
  cases f.mapM (Conjunction.expand ns) <;> rfl

theorem Filter.expand_eq_some_of_terms
    (h : ∀ c ∈ f, ∀ t ∈ c, Term.expand ns t = some (Term.textWith text t)) :
    Filter.expand ns f = some (Filter.textWith text f) := by
  have hconjunction : ∀ c ∈ f, Conjunction.expand ns c = some (Conjunction.textWith text c) := by
    intro c hc
    rw [Conjunction.expand_eq, mapM_eq_some_map (h c hc)]
    rfl
  rw [Filter.expand_eq, mapM_eq_some_map hconjunction]
  rfl

/-- The expanded text of a group is that of its filter in parentheses. -/
theorem Term.expand_group (ns : Taxonomy) (f : Filter) :
    (Term.group f).expand ns = (Filter.expand ns f).map parenthesized := by
  rw [Term.expand, Filter.expand]
  cases (Node.filter f).expand ns <;> rfl

/-- A term has an expanded text when its tests do. -/
theorem Term.expand_eq_some (h : ∀ test ∈ t.tests, test.expand ns = some (text test)) :
    t.expand ns = some (t.textWith text) := by
  induction t with
  | test u =>
    rw [Term.expand]
    exact h u List.mem_cons_self
  | group body ih =>
    rw [Term.tests_group] at h
    have hterms := Filter.expand_eq_some_of_terms fun c hc t ht =>
      ih c hc t ht fun test htest => h test (Filter.mem_tests.mpr ⟨c, hc, t, ht, htest⟩)
    rw [Term.expand_group, hterms, Term.textWith_group, Option.map_some]

/-- A filter has an expanded text when its tests do. -/
theorem Filter.expand_eq_some (h : ∀ test ∈ Filter.tests f, test.expand ns = some (text test)) :
    Filter.expand ns f = some (Filter.textWith text f) :=
  Filter.expand_eq_some_of_terms fun c hc t ht => Term.expand_eq_some fun test htest =>
    h test (Filter.mem_tests.mpr ⟨c, hc, t, ht, htest⟩)

/-- If every test of a term has an expanded text that spells a term with some property, then so has
the term itself, with such terms in the places of its tests. -/
theorem Term.exists_expand (hproper : t.IsProper)
    (h : ∀ test ∈ t.tests, ∃ out u, test.expand ns = some out ∧ SpellsTerm out u ∧ P test u) :
    ∃ out read, t.expand ns = some out ∧ SpellsTerm out (t.bind read) ∧
      ∀ test ∈ t.tests, P test (read test) := by
  obtain ⟨text, htext⟩ := exists_forall_mem h
  obtain ⟨read, hspells, hread⟩ := Term.exists_spells hproper fun test htest =>
    (htext test htest).imp fun _ => And.right
  refine ⟨_, read, Term.expand_eq_some fun test htest => ?_, hspells, hread⟩
  obtain ⟨_, hexpand, _⟩ := htext test htest
  exact hexpand

/-- The same of a filter. -/
theorem Filter.exists_expand (hproper : Filter.IsProper f)
    (h : ∀ test ∈ Filter.tests f,
      ∃ out u, test.expand ns = some out ∧ SpellsTerm out u ∧ P test u) :
    ∃ out read, Filter.expand ns f = some out ∧ SpellsFilter out (Filter.bind read f) ∧
      ∀ test ∈ Filter.tests f, P test (read test) := by
  obtain ⟨text, htext⟩ := exists_forall_mem h
  obtain ⟨read, hspells, hread⟩ := Filter.exists_spells hproper fun test htest =>
    (htext test htest).imp fun _ => And.right
  refine ⟨_, read, Filter.expand_eq_some fun test htest => ?_, hspells, hread⟩
  obtain ⟨_, hexpand, _⟩ := htext test htest
  exact hexpand

/-- The expanded text of a filter of a lone term is that of the term. -/
theorem Filter.expand_lone (ns : Taxonomy) (t : Term) :
    Filter.expand ns [[t]] = t.expand ns := by
  rw [Filter.expand_eq]
  simp only [List.mapM_cons, List.mapM_nil, Conjunction.expand_eq]
  cases t.expand ns with
  | none => rfl
  | some text => exact congrArg some ((joinOr_singleton _).trans (joinAnd_singleton text))

/-- The expanded text of a node is that of the filter that it amounts to. -/
theorem Node.expand_toFilter (ns : Taxonomy) (n : Node) :
    Filter.expand ns n.toFilter = n.expand ns := by
  cases n with
  | filter f => rfl
  | conjunction c =>
    change Filter.expand ns [c] = Conjunction.expand ns c
    rw [Filter.expand_eq, List.mapM_cons, List.mapM_nil]
    cases Conjunction.expand ns c with
    | none => rfl
    | some text => exact congrArg some (joinOr_singleton text)
  | term t =>
    rw [expand]
    exact Filter.expand_lone ns t

end Texts

/-! ### The log -/

section Log

variable {ns : Taxonomy}

/-- The log of a type test is there when those of the tests in its lowered text are. -/
theorem Test.isSome_expansionLog_isA {type : Symbol}
    (h : ∀ f, Filter.ofText? (lowerType ns type) = .ok f →
      ∀ test ∈ Filter.tests f, (test.expansionLog ns).isSome = true) :
    ((Test.isA type).expansionLog ns).isSome = true := by
  rw [Test.expansionLog]
  cases hread : Filter.ofText? (lowerType ns type) with
  | error e => rfl
  | ok f =>
    obtain ⟨inner, hinner⟩ := Option.isSome_iff_exists.mp (isSome_mapM_iff.mpr (h f hread))
    dsimp only
    rw [hinner]
    rfl

/-- Every test of a node with an expanded text has a log.  The induction is on the steps of the
expansion, which goes through the same tests. -/
theorem Node.isSome_expansionLog_of_mem_tests {n : Node} {text : String}
    (h : n.expand ns = some text) :
    ∀ test ∈ n.tests, (test.expansionLog ns).isSome = true := by
  refine (Test.expand.mutual_partial_correctness ns
    (fun test _ => (test.expansionLog ns).isSome = true)
    (fun n _ => ∀ test ∈ n.tests, (test.expansionLog ns).isSome = true)
    (fun t _ => ∀ test ∈ t.tests, (test.expansionLog ns).isSome = true) ?_ ?_ ?_).2.1 n text h
  · intro expand hexpand test text h
    cases test with
    | isA type =>
      refine Test.isSome_expansionLog_isA fun f hf => ?_
      dsimp only at h
      rw [hf] at h
      exact hexpand (.filter f) text h
    | _ =>
      rw [Test.expansionLog]
      · rfl
      · intro type h
        cases h
  · intro expandNode expandTerm hnode hterm n text h test htest
    cases n with
    | filter f =>
      obtain ⟨texts, htexts, -⟩ := Option.bind_eq_some_iff.mp h
      obtain ⟨c, hc, t, ht, htest⟩ := Filter.mem_tests.mp htest
      have hsome := isSome_mapM_iff.mp (Option.isSome_of_eq_some htexts) c hc
      obtain ⟨text, htext⟩ := Option.isSome_iff_exists.mp hsome
      exact hnode (.conjunction c) text htext test (List.mem_flatMap.mpr ⟨t, ht, htest⟩)
    | conjunction c =>
      obtain ⟨texts, htexts, -⟩ := Option.bind_eq_some_iff.mp h
      obtain ⟨t, ht, htest⟩ := List.mem_flatMap.mp htest
      have hsome := isSome_mapM_iff.mp (Option.isSome_of_eq_some htexts) t ht
      obtain ⟨text, htext⟩ := Option.isSome_iff_exists.mp hsome
      exact hterm t text htext test htest
    | term t => exact hterm t text h test htest
  · intro expandTest expandNode htest hnode t text h
    cases t with
    | test u =>
      intro test hmem
      rw [List.mem_singleton.mp hmem]
      exact htest u text h
    | group body =>
      obtain ⟨inner, hinner, -⟩ := Option.bind_eq_some_iff.mp h
      rw [Term.tests_group]
      exact hnode (.filter body) inner hinner

/-- The log of an expansion is there exactly when the expanded text is. -/
theorem Node.isSome_expansionLog (ns : Taxonomy) (n : Node) :
    (n.expansionLog ns).isSome = (n.expand ns).isSome := by
  unfold Node.expansionLog
  cases htext : n.expand ns with
  | none => cases n.tests.mapM (Test.expansionLog ns) <;> rfl
  | some text =>
    have htests := Node.isSome_expansionLog_of_mem_tests htext
    obtain ⟨log, hlog⟩ := Option.isSome_iff_exists.mp (isSome_mapM_iff.mpr htests)
    rw [hlog]
    rfl

end Log

end TagFilter
