import TagFilter.Proofs.Filter.SameTests
import TagFilter.Proofs.Implied.Texts

/-!
# The same filters

Filters that are the same can take each other's place: they have the same text, the same lowered and
expanded texts for every namespace, and the same answer on whatever they are evaluated
(`Node.interchangeable_of_same`).  Refs with the same id are the same ref, and a namespace has to
treat them so: one that looked at their display names could tell the filters apart
(`ignoresDisplays_iff_answer_of_same`).

All of these are folds over the terms, which the tests enter by values that are equal for tests that
are the same; `Term.fold_of_same` is the common step.
-/

namespace TagFilter

section Fold

variable {α : Type} {value : Test → α}

/-- A fold to which tests that are the same contribute the same makes the same of terms that are the
same. -/
theorem Term.fold_of_same (hvalue : ∀ a b : Test, a.same b = true → value a = value b)
    (group : List (List α) → α) {t u : Term} (h : t.same u = true) :
    t.fold value group = u.fold value group := by
  induction t generalizing u with
  | test a =>
    cases u with
    | test b => exact hvalue a b h
    | group other => cases h
  | group body ih =>
    cases u with
    | test b => cases h
    | group other =>
      rw [Term.fold_group, Term.fold_group]
      refine congrArg group (map_eq_of_forall₂ (sameFilter_iff.mp h) fun c hc d hcd => ?_)
      exact map_eq_of_forall₂ (sameConjunction_iff.mp hcd) fun t ht _ => ih c hc t ht

end Fold

section Expansion

variable {ns : Taxonomy}

/-- Filters that are the same have the same expanded text when their terms do. -/
theorem Filter.expand_of_sameFilter {f g : Filter} (h : sameFilter f g = true)
    (hterm : ∀ c ∈ f, ∀ t ∈ c, ∀ u : Term, t.same u = true → t.expand ns = u.expand ns) :
    Filter.expand ns f = Filter.expand ns g := by
  have hconjunctions : f.map (Conjunction.expand ns) = g.map (Conjunction.expand ns) := by
    refine map_eq_of_forall₂ (sameFilter_iff.mp h) fun c hc d hcd => ?_
    have hterms : c.map (Term.expand ns) = d.map (Term.expand ns) :=
      map_eq_of_forall₂ (sameConjunction_iff.mp hcd) fun t ht u htu => hterm c hc t ht u htu
    rw [Conjunction.expand_eq, Conjunction.expand_eq, mapM_eq_of_map_eq hterms]
  rw [Filter.expand_eq, Filter.expand_eq, mapM_eq_of_map_eq hconjunctions]

/-- Terms that are the same have the same expanded text, or none both. -/
theorem Term.expand_of_same {t u : Term} (h : t.same u = true) : t.expand ns = u.expand ns := by
  induction t generalizing u with
  | test a =>
    cases u with
    | test b =>
      rw [Term.expand, Term.expand]
      exact Test.expand_of_same h ns
    | group other => cases h
  | group body ih =>
    cases u with
    | test b => cases h
    | group other =>
      rw [Term.expand_group, Term.expand_group,
        Filter.expand_of_sameFilter h fun c hc t ht _ => ih c hc t ht]

end Expansion

/-! ### Nodes -/

namespace Node

variable {a b : Node}

/-- Nodes that are the same amount to the same filter. -/
theorem same_toFilter (h : a.same b = true) : sameFilter a.toFilter b.toFilter = true := by
  cases a with
  | filter f =>
    cases b with
    | filter g => exact h
    | _ => cases h
  | conjunction c =>
    cases b with
    | conjunction d =>
      change (sameConjunction c d && true) = true
      rw [Bool.and_true]
      exact h
    | _ => cases h
  | term t =>
    cases b with
    | term u =>
      change ((t.same u && true) && true) = true
      rw [Bool.and_true, Bool.and_true]
      exact h
    | _ => cases h

theorem expand_of_same (h : a.same b = true) (ns : Taxonomy) : a.expand ns = b.expand ns := by
  rw [← expand_toFilter, ← expand_toFilter]
  exact Filter.expand_of_sameFilter (same_toFilter h) fun _ _ _ _ _ => Term.expand_of_same

theorem answer_of_same (h : a.same b = true) {s : Setting} (hs : s.IgnoresDisplays) :
    a.answer s = b.answer s := by
  rw [← answer_toFilter, ← answer_toFilter, ← Term.answer_group, ← Term.answer_group]
  exact Term.fold_of_same (fun _ _ hst => Test.answer_of_same hst (Or.inl hs)) _ (same_toFilter h)

/-- A namespace tells refs apart by their ids alone exactly when nodes that are the same have the
same answer on everything that is evaluated with it. -/
theorem ignoresDisplays_iff_answer_of_same {ns : Taxonomy} :
    ns.IgnoresDisplays ↔ ∀ s : Setting, s.types = some ns →
      ∀ a b : Node, a.same b = true → a.answer s = b.answer s := by
  constructor
  · intro hns s hs a b h
    refine answer_of_same h fun other hother => ?_
    obtain rfl : ns = other := Option.some.inj (hs.symm.trans hother)
    exact hns
  · intro hanswer subject r resolver s t hst
    have hsame : (Node.term (.test (.related r s))).same (.term (.test (.related r t))) = true := by
      change (r == r && sameTarget s t) = true
      rw [beq_self_eq_true, Bool.true_and, sameTarget_iff.mpr hst]
    exact hanswer ⟨subject, some ns, resolver⟩ rfl _ _ hsame

end Node

end TagFilter
