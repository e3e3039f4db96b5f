import TagFilter.Filter.Text

/-!
# Terms as trees

A term is a tree whose leaves are tests.  `Term.bind` puts a term in the place of every test; the
folds over the result are folds over the term, which is how texts and meanings of rewritten filters
are compared.  A term is *proper* when no group and no conjunction in it is without parts, as in
every filter that is read from a text.
-/

namespace TagFilter

/-! ### Replacing tests -/

/-- The term with a term in the place of every test. -/
def Term.bind (read : Test → Term) (t : Term) : Term :=
  t.fold read Term.group

/-- The filter with a term in the place of every test. -/
def Filter.bind (read : Test → Term) (f : Filter) : Filter :=
  f.map (List.map (Term.bind read))

/-- The filter with a test in the place of every test. -/
def Filter.mapTests (change : Test → Test) (f : Filter) : Filter :=
  Filter.bind (fun test => .test (change test)) f

@[simp] theorem Term.bind_test (read : Test → Term) (t : Test) :
    (Term.test t).bind read = read t := rfl

@[simp] theorem Term.bind_group (read : Test → Term) (f : Filter) :
    (Term.group f).bind read = .group (Filter.bind read f) :=
  Term.fold_group read Term.group f

section Fold

variable {α : Type} {test other : Test → α} {group : List (List α) → α} {read : Test → Term}

/-- A fold depends only on what it makes of the tests of the term. -/
theorem Term.fold_congr {t : Term} (h : ∀ u ∈ t.tests, test u = other u) :
    t.fold test group = t.fold other group := by
  induction t with
  | test u => exact h u List.mem_cons_self
  | group body ih =>
    have hterm : ∀ c ∈ body, ∀ t ∈ c, t.fold test group = t.fold other group := by
      intro c hc t ht
      refine ih c hc t ht fun u hu => h u ?_
      rw [Term.tests_group]
      exact Filter.mem_tests.mpr ⟨c, hc, t, ht, hu⟩
    rw [Term.fold_group, Term.fold_group]
    congr 1
    exact List.map_congr_left fun c hc => List.map_congr_left (hterm c hc)

/-- A fold over a term with its tests replaced is a fold over the term itself. -/
theorem Term.fold_bind (t : Term) :
    (t.bind read).fold test group = t.fold (fun u => (read u).fold test group) group := by
  induction t with
  | test u => rfl
  | group body ih =>
    rw [Term.bind_group, Term.fold_group, Term.fold_group, Filter.bind, List.map_map]
    congr 1
    refine List.map_congr_left ?_
    intro c hc
    rw [Function.comp_apply, List.map_map]
    exact List.map_congr_left (ih c hc)

end Fold

/-- A test of a filter in which tests are replaced by terms is a test of one of these terms. -/
theorem Term.mem_tests_bind {read : Test → Term} {t : Term} {test : Test}
    (h : test ∈ (t.bind read).tests) : ∃ u ∈ t.tests, test ∈ (read u).tests := by
  induction t with
  | test u => exact ⟨u, List.mem_cons_self, h⟩
  | group body ih =>
    rw [Term.bind_group, Term.tests_group] at h
    obtain ⟨d, hd, v, hv, htest⟩ := Filter.mem_tests.mp h
    obtain ⟨c, hc, rfl⟩ := List.mem_map.mp hd
    obtain ⟨t, ht, rfl⟩ := List.mem_map.mp hv
    obtain ⟨u, hu, htest⟩ := ih c hc t ht htest
    rw [Term.tests_group]
    exact ⟨u, Filter.mem_tests.mpr ⟨c, hc, t, ht, hu⟩, htest⟩

theorem Filter.mem_tests_bind {read : Test → Term} {f : Filter} {test : Test}
    (h : test ∈ Filter.tests (Filter.bind read f)) :
    ∃ u ∈ Filter.tests f, test ∈ (read u).tests := by
  rw [← Term.tests_group, ← Term.bind_group] at h
  rw [← Term.tests_group]
  exact Term.mem_tests_bind h

/-- Replacing every test by itself changes nothing. -/
theorem Term.bind_self (t : Term) : t.bind Term.test = t := by
  induction t with
  | test u => rfl
  | group body ih =>
    have hconjunction : ∀ c ∈ body, c.map (Term.bind Term.test) = c := by
      intro c hc
      exact (List.map_congr_left (ih c hc)).trans (List.map_id c)
    rw [Term.bind_group, Filter.bind]
    congr 1
    exact (List.map_congr_left hconjunction).trans (List.map_id body)

/-- A filter is unchanged by a change that fixes all of its tests. -/
theorem Filter.mapTests_eq_self {change : Test → Test} {f : Filter}
    (h : ∀ test ∈ Filter.tests f, change test = test) : Filter.mapTests change f = f := by
  have hterm : ∀ c ∈ f, ∀ t ∈ c, t.bind (fun test => .test (change test)) = t := by
    intro c hc t ht
    have htests : ∀ u ∈ t.tests, Term.test (change u) = .test u := by
      intro u hu
      rw [h u (Filter.mem_tests.mpr ⟨c, hc, t, ht, hu⟩)]
    exact (Term.fold_congr htests).trans t.bind_self
  have hconjunction : ∀ c ∈ f, c.map (Term.bind fun test => .test (change test)) = c := by
    intro c hc
    exact (List.map_congr_left (hterm c hc)).trans (List.map_id c)
  exact (List.map_congr_left hconjunction).trans (List.map_id f)

/-- The text of a filter depends only on the texts of its tests. -/
theorem Filter.textWith_congr {text other : Test → String} {f : Filter}
    (h : ∀ test ∈ Filter.tests f, text test = other test) :
    Filter.textWith text f = Filter.textWith other f := by
  have hconjunction : ∀ c ∈ f, Conjunction.textWith text c = Conjunction.textWith other c := by
    intro c hc
    refine congrArg joinAnd (List.map_congr_left ?_)
    intro t ht
    exact Term.fold_congr fun u hu => h u (Filter.mem_tests.mpr ⟨c, hc, t, ht, hu⟩)
  exact congrArg joinOr (List.map_congr_left hconjunction)

/-- The text of a filter with its tests replaced. -/
theorem Filter.textWith_bind (text : Test → String) (read : Test → Term) (f : Filter) :
    Filter.textWith text (Filter.bind read f) =
      Filter.textWith (fun test => (read test).textWith text) f := by
  unfold Filter.textWith Filter.bind
  rw [List.map_map]
  refine congrArg joinOr (List.map_congr_left fun c _ => ?_)
  unfold Conjunction.textWith
  rw [Function.comp_apply, List.map_map]
  exact congrArg joinAnd (List.map_congr_left fun t _ => t.fold_bind)

/-! ### Proper terms -/

/-- No group and no conjunction of a term is without parts. -/
def Term.IsProper (t : Term) : Prop :=
  t.fold (fun _ => True) fun body => body ≠ [] ∧ ∀ c ∈ body, c ≠ [] ∧ ∀ p ∈ c, p

/-- There are conjunctions, each of them has terms, and these are proper. -/
def Filter.IsProper (f : Filter) : Prop :=
  f ≠ [] ∧ ∀ c ∈ f, c ≠ [] ∧ ∀ t ∈ c, Term.IsProper t

theorem Term.isProper_group {f : Filter} : (Term.group f).IsProper ↔ Filter.IsProper f := by
  unfold Term.IsProper Filter.IsProper
  rw [Term.fold_group]
  simp only [ne_eq, List.map_eq_nil_iff, List.mem_map, forall_exists_index, and_imp,
    forall_apply_eq_imp_iff₂]
  rfl

theorem Filter.isProper_lone (test : Test) : Filter.IsProper [[.test test]] := by
  refine ⟨List.cons_ne_nil _ _, List.forall_mem_singleton.mpr ⟨List.cons_ne_nil _ _, ?_⟩⟩
  exact List.forall_mem_singleton.mpr trivial

end TagFilter
