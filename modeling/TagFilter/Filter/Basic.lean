import TagFilter.Token.Basic

/-!
# Filters

A filter is a disjunction of conjunctions of terms; a term is a test of the record, or a whole
filter in parentheses.  `Term.fold` is the one recursion on terms that the rest of the library
needs: texts and meanings are folds, and `Term.fold_group` is their common equation.
-/

namespace TagFilter

/-- A test that stands on its own. -/
inductive Test where
  /-- The path leads to at least one value. -/
  | has (p : Path)
  /-- The path leads to no value. -/
  | missing (p : Path)
  /-- The path leads to a value that compares to the operand. -/
  | compare (p : Path) (op : Comparison) (operand : Value)
  /-- The record is of a type. -/
  | isA (type : Symbol)
  /-- The record stands in a relationship, to any record or to a given one. -/
  | related (r : Relationship) (target : Option Ref)
  /-- Following the path again and again leads to a record. -/
  | reaches (p : Path) (target : Ref)

/-- A test, or a filter in parentheses. -/
inductive Term where
  /-- A test. -/
  | test (t : Test)
  /-- A group: a disjunction of conjunctions of terms in parentheses. -/
  | group (body : List (List Term))

/-- Terms that must all hold. -/
abbrev Conjunction := List Term

/-- Conjunctions of which one must hold. -/
abbrev Filter := List (List Term)

/-- A filter or one of its parts. -/
inductive Node where
  /-- A disjunction. -/
  | filter (f : Filter)
  /-- A conjunction. -/
  | conjunction (c : Conjunction)
  /-- A term. -/
  | term (t : Term)

section Fold

variable {α : Type}

mutual

/-- The value of a term, given the values of its tests and how the values of the terms of a group
combine. -/
def Term.fold (test : Test → α) (group : List (List α) → α) : Term → α
  | .test t => test t
  | .group body => group (foldFilter test group body)
termination_by structural t => t

/-- The values of the terms of a filter. -/
def foldFilter (test : Test → α) (group : List (List α) → α) : List (List Term) → List (List α)
  | [] => []
  | c :: cs => foldConjunction test group c :: foldFilter test group cs
termination_by structural f => f

/-- The values of the terms of a conjunction. -/
def foldConjunction (test : Test → α) (group : List (List α) → α) : List Term → List α
  | [] => []
  | t :: ts => t.fold test group :: foldConjunction test group ts
termination_by structural c => c

end

theorem foldConjunction_eq_map (test : Test → α) (group : List (List α) → α) (c : Conjunction) :
    foldConjunction test group c = c.map (Term.fold test group) := by
  induction c with
  | nil => rfl
  | cons t ts ih => rw [foldConjunction, ih, List.map_cons]

theorem foldFilter_eq_map (test : Test → α) (group : List (List α) → α) (f : Filter) :
    foldFilter test group f = f.map (List.map (Term.fold test group)) := by
  induction f with
  | nil => rfl
  | cons c cs ih => rw [foldFilter, ih, foldConjunction_eq_map, List.map_cons]

@[simp] theorem Term.fold_test (test : Test → α) (group : List (List α) → α) (t : Test) :
    (Term.test t).fold test group = test t := rfl

/-- The value of a group is the combination of the values of its terms. -/
@[simp] theorem Term.fold_group (test : Test → α) (group : List (List α) → α) (f : Filter) :
    (Term.group f).fold test group = group (f.map (List.map (Term.fold test group))) := by
  rw [← foldFilter_eq_map]
  rfl

end Fold

/-- Induction over terms: for a group, every term in it may be assumed. -/
@[elab_as_elim, induction_eliminator]
theorem Term.induction {motive : Term → Prop} (test : ∀ t, motive (.test t))
    (group : ∀ body : List (List Term), (∀ c ∈ body, ∀ t ∈ c, motive t) → motive (.group body))
    (t : Term) : motive t := by
  refine @Term.rec motive (fun body => ∀ c ∈ body, ∀ t ∈ c, motive t) (fun c => ∀ t ∈ c, motive t)
    test group ?_ ?_ ?_ ?_ t
  · intro c hc
    cases hc
  · intro c cs hc hcs d hd
    rcases List.mem_cons.mp hd with rfl | hd
    · exact hc
    · exact hcs d hd
  · intro t ht
    cases ht
  · intro t ts ht hts u hu
    rcases List.mem_cons.mp hu with rfl | hu
    · exact ht
    · exact hts u hu

/-- The tests of a term, from left to right. -/
def Term.tests (t : Term) : List Test :=
  t.fold (fun test => [test]) fun body => body.flatten.flatten

/-- The tests of a filter, from left to right. -/
def Filter.tests (f : Filter) : List Test :=
  f.flatten.flatMap Term.tests

/-- The tests of a node, from left to right. -/
def Node.tests : Node → List Test
  | .filter f => Filter.tests f
  | .conjunction c => c.flatMap Term.tests
  | .term t => t.tests

/-- The filter that a node amounts to. -/
def Node.toFilter : Node → Filter
  | .filter f => f
  | .conjunction c => [c]
  | .term t => [[t]]

theorem Filter.mem_tests {test : Test} {f : Filter} :
    test ∈ Filter.tests f ↔ ∃ c ∈ f, ∃ t ∈ c, test ∈ t.tests := by
  unfold Filter.tests
  rw [List.mem_flatMap]
  constructor
  · rintro ⟨t, ht, htest⟩
    obtain ⟨c, hc, ht⟩ := List.mem_flatten.mp ht
    exact ⟨c, hc, t, ht, htest⟩
  · rintro ⟨c, hc, t, ht, htest⟩
    exact ⟨t, List.mem_flatten.mpr ⟨c, hc, ht⟩, htest⟩

/-- The tests of a group are those of its filter. -/
theorem Term.tests_group (f : Filter) : (Term.group f).tests = Filter.tests f := by
  unfold Term.tests Filter.tests
  rw [Term.fold_group, List.flatMap_def, ← List.map_flatten]
  rfl

theorem Node.tests_toFilter (n : Node) : Filter.tests n.toFilter = n.tests := by
  cases n with
  | filter f => rfl
  | conjunction c =>
    simp only [Node.toFilter, Node.tests, Filter.tests, List.flatten_cons, List.flatten_nil,
      List.append_nil]
  | term t =>
    simp only [Node.toFilter, Node.tests, Filter.tests, List.flatten_cons, List.flatten_nil,
      List.append_nil, List.flatMap_cons, List.flatMap_nil]

/-! ### Sameness -/

/-- Whether two optional refs point at the same record, or are both missing. -/
def sameTarget : Option Ref → Option Ref → Bool
  | none, none => true
  | some a, some b => a.id == b.id
  | _, _ => false

/-- Whether two tests are the same up to sameness of values and refs. -/
def Test.same : Test → Test → Bool
  | .has p, .has q => p == q
  | .missing p, .missing q => p == q
  | .compare p o v, .compare q u w => p == q && o == u && v.same w
  | .isA s, .isA t => s == t
  | .related r a, .related s b => r == s && sameTarget a b
  | .reaches p a, .reaches q b => p == q && a.id == b.id
  | _, _ => false

mutual

/-- Whether two terms are the same, test by test. -/
def Term.same : Term → Term → Bool
  | .test a, .test b => a.same b
  | .group a, .group b => sameFilter a b
  | _, _ => false
termination_by structural t => t

/-- Whether two filters are the same, conjunction by conjunction. -/
def sameFilter : List (List Term) → List (List Term) → Bool
  | [], [] => true
  | a :: as, b :: bs => sameConjunction a b && sameFilter as bs
  | _, _ => false
termination_by structural f => f

/-- Whether two conjunctions are the same, term by term. -/
def sameConjunction : List Term → List Term → Bool
  | [], [] => true
  | a :: as, b :: bs => a.same b && sameConjunction as bs
  | _, _ => false
termination_by structural c => c

end

/-- Whether two nodes are the same. -/
def Node.same : Node → Node → Bool
  | .filter a, .filter b => sameFilter a b
  | .conjunction a, .conjunction b => sameConjunction a b
  | .term a, .term b => a.same b
  | _, _ => false

end TagFilter
