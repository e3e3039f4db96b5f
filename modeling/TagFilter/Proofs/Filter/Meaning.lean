import TagFilter.Evaluation
import TagFilter.Proofs.Filter.Terms

/-!
# Meaning of filters

`Filter.Means` is the meaning of a filter as a proposition, given that of its tests: one of its
conjunctions has only terms that hold.  For a proper filter, where no conjunction is empty, the
answer of the evaluation decides it whenever there is one (`Filter.answer_iff_means`), which in a
context is always (`Filter.holds_iff_means`).
-/

namespace TagFilter

/-- What a term says, given what its tests say. -/
def Term.Means (sense : Test → Prop) (t : Term) : Prop :=
  t.fold sense fun body => ∃ c ∈ body, ∀ p ∈ c, p

/-- What a filter says, given what its tests say: all terms of one of its conjunctions. -/
def Filter.Means (sense : Test → Prop) (f : Filter) : Prop :=
  ∃ c ∈ f, ∀ t ∈ c, Term.Means sense t

/-- What a term says of a setting, where a test without an answer does not hold. -/
def Term.HoldsFor (t : Term) (s : Setting) : Prop :=
  t.Means fun test => test.answer s = some true

/-- What a term says of a context. -/
def Term.HoldsIn (t : Term) (cx : Context) : Prop :=
  t.Means fun test => test.holds cx = true

@[simp] theorem Term.means_test (sense : Test → Prop) (t : Test) :
    (Term.test t).Means sense = sense t := rfl

theorem Term.means_group {sense : Test → Prop} {f : Filter} :
    (Term.group f).Means sense ↔ Filter.Means sense f := by
  unfold Term.Means Filter.Means
  rw [Term.fold_group]
  constructor
  · rintro ⟨_, hmem, hall⟩
    obtain ⟨c, hc, rfl⟩ := List.mem_map.mp hmem
    exact ⟨c, hc, fun t ht => hall _ (List.mem_map_of_mem ht)⟩
  · rintro ⟨c, hc, hall⟩
    refine ⟨_, List.mem_map_of_mem hc, fun p hp => ?_⟩
    obtain ⟨t, ht, rfl⟩ := List.mem_map.mp hp
    exact hall t ht

/-- A filter of a lone test says what the test does. -/
theorem Filter.means_lone {sense : Test → Prop} {test : Test} :
    Filter.Means sense [[.test test]] ↔ sense test := by
  simp only [Filter.Means, List.mem_cons, List.not_mem_nil, or_false, exists_eq_left, forall_eq,
    Term.means_test]

/-- A group of two terms of which one must hold. -/
theorem Term.means_either {sense : Test → Prop} {t u : Term} :
    (Term.group [[t], [u]]).Means sense ↔ t.Means sense ∨ u.Means sense := by
  rw [Term.means_group]
  simp only [Filter.Means, List.mem_cons, List.not_mem_nil, or_false, exists_eq_or_imp,
    exists_eq_left, forall_eq]

/-- A group of two terms that must both hold. -/
theorem Term.means_both {sense : Test → Prop} {t u : Term} :
    (Term.group [[t, u]]).Means sense ↔ t.Means sense ∧ u.Means sense := by
  rw [Term.means_group]
  simp only [Filter.Means, List.mem_cons, List.not_mem_nil, or_false, exists_eq_left,
    forall_eq_or_imp, forall_eq]

theorem Term.mem_tests_either {t u : Term} {test : Test} :
    test ∈ (Term.group [[t], [u]]).tests ↔ test ∈ t.tests ∨ test ∈ u.tests := by
  rw [Term.tests_group, Filter.mem_tests]
  simp only [List.mem_cons, List.not_mem_nil, or_false, exists_eq_or_imp, exists_eq_left]

theorem Term.mem_tests_both {t u : Term} {test : Test} :
    test ∈ (Term.group [[t, u]]).tests ↔ test ∈ t.tests ∨ test ∈ u.tests := by
  rw [Term.tests_group, Filter.mem_tests]
  simp only [List.mem_cons, List.not_mem_nil, or_false, exists_eq_or_imp, exists_eq_left]

section Replaced

variable {sense : Test → Prop} {read : Test → Term}

/-- What a term with its tests replaced says. -/
theorem Term.means_bind {t : Term} :
    (t.bind read).Means sense ↔ t.Means fun test => (read test).Means sense := by
  unfold Term.Means
  rw [Term.fold_bind]

/-- What a filter with its tests replaced says. -/
theorem Filter.means_bind {f : Filter} :
    Filter.Means sense (Filter.bind read f) ↔
      Filter.Means (fun test => (read test).Means sense) f := by
  rw [← Term.means_group, ← Term.bind_group, Term.means_bind, Term.means_group]

end Replaced

/-- Weaker tests make a weaker term: no test stands under a negation of terms. -/
theorem Term.Means.mono {some all : Test → Prop} {t : Term}
    (hle : ∀ test ∈ t.tests, some test → all test) (h : t.Means some) : t.Means all := by
  induction t with
  | test u => exact hle u List.mem_cons_self h
  | group body ih =>
    rw [Term.tests_group] at hle
    obtain ⟨c, hc, hall⟩ := Term.means_group.mp h
    refine Term.means_group.mpr ⟨c, hc, fun t ht => ?_⟩
    have htests : ∀ test ∈ t.tests, some test → all test := fun test htest =>
      hle test (Filter.mem_tests.mpr ⟨c, hc, t, ht, htest⟩)
    exact ih c hc t ht htests (hall t ht)

/-- Tests that say the same make terms that say the same. -/
theorem Term.means_congr {some all : Test → Prop} {t : Term}
    (h : ∀ test ∈ t.tests, some test ↔ all test) : t.Means some ↔ t.Means all :=
  ⟨fun hsome => hsome.mono fun test htest => (h test htest).mp,
    fun hall => hall.mono fun test htest => (h test htest).mpr⟩

/-- Weaker tests make a weaker filter. -/
theorem Filter.Means.mono {some all : Test → Prop} {f : Filter}
    (hle : ∀ test ∈ Filter.tests f, some test → all test) (h : Filter.Means some f) :
    Filter.Means all f := by
  obtain ⟨c, hc, hall⟩ := h
  refine ⟨c, hc, fun t ht => (hall t ht).mono fun test htest => ?_⟩
  exact hle test (Filter.mem_tests.mpr ⟨c, hc, t, ht, htest⟩)

/-- Tests that say the same make filters that say the same. -/
theorem Filter.means_congr {some all : Test → Prop} {f : Filter}
    (h : ∀ test ∈ Filter.tests f, some test ↔ all test) :
    Filter.Means some f ↔ Filter.Means all f :=
  ⟨fun hsome => hsome.mono fun test htest => (h test htest).mp,
    fun hall => hall.mono fun test htest => (h test htest).mpr⟩

/-! ### Evaluation -/

theorem allOf_eq_true_iff {answers : List Bool} :
    allOf answers = true ↔ answers ≠ [] ∧ ∀ answer ∈ answers, answer = true := by
  unfold allOf
  rw [Bool.and_eq_true, Bool.not_eq_true', List.all_eq_true, Bool.eq_false_iff, ne_eq,
    List.isEmpty_iff]
  rfl

theorem Filter.holds_eq {cx : Context} (f : Filter) :
    Filter.holds cx f = anyOfAll (f.map (List.map (Term.holds cx))) := by
  have hfold : (Term.holds cx) = Term.fold (Test.holds cx) anyOfAll :=
    funext (Term.holds_eq_fold cx)
  rw [← Term.holds_group, Term.holds_eq_fold, Term.fold_group, hfold]

/-- A filter holds exactly when all terms of one of its conjunctions do, and there are any. -/
theorem Filter.holds_eq_true_iff {cx : Context} {f : Filter} :
    Filter.holds cx f = true ↔ ∃ c ∈ f, c ≠ [] ∧ ∀ t ∈ c, Term.holds cx t = true := by
  rw [Filter.holds_eq, anyOfAll, List.any_map, List.any_eq_true]
  simp only [Function.comp_apply, allOf_eq_true_iff, ne_eq, List.map_eq_nil_iff, List.mem_map,
    forall_exists_index, and_imp, forall_apply_eq_imp_iff₂]

/-- A filter of a lone term holds when the term does. -/
theorem Filter.holds_lone (cx : Context) (t : Term) : Filter.holds cx [[t]] = t.holds cx := by
  rw [Filter.holds_eq]
  change ((t.holds cx && true) || false) = t.holds cx
  rw [Bool.or_false, Bool.and_true]

theorem anyAnswers_singleton (answers : List (Option Bool)) :
    anyAnswers [answers] = allAnswers answers := by
  unfold anyAnswers
  rw [List.anyM]
  cases allAnswers answers with
  | none => rfl
  | some answer => cases answer <;> rfl

theorem allAnswers_singleton (answer : Option Bool) : allAnswers [answer] = answer := by
  cases answer with
  | none => rfl
  | some answer => cases answer <;> rfl

/-- The answer of a node is that of the filter that it amounts to. -/
theorem Node.answer_toFilter (s : Setting) (n : Node) :
    Filter.answer s n.toFilter = n.answer s := by
  cases n with
  | filter f => rfl
  | conjunction c => exact anyAnswers_singleton (c.map (Term.answer s))
  | term t => exact (anyAnswers_singleton [t.answer s]).trans (allAnswers_singleton (t.answer s))

/-- A node holds when the group of what it amounts to does. -/
theorem Node.holds_eq {cx : Context} (n : Node) :
    n.holds cx = (Term.group n.toFilter).holds cx := by
  have hanswer : Filter.answer cx.setting n.toFilter = some (n.holds cx) :=
    (Node.answer_toFilter cx.setting n).trans (Node.answer_eq_some cx n)
  rw [Term.holds_group]
  exact Option.some.inj (hanswer.symm.trans (Node.answer_eq_some cx (.filter n.toFilter)))

/-! ### Answers -/

/-- A positive answer to several questions is one to each of them. -/
theorem allAnswers_eq_some_true {answers : List (Option Bool)}
    (h : allAnswers answers = some true) : ∀ answer ∈ answers, answer = some true := by
  have hall : answers.allM id = some true := by
    unfold allAnswers at h
    split at h
    · cases h
    · exact h
  clear h
  induction answers with
  | nil => exact List.forall_mem_nil _
  | cons first rest ih =>
    cases first with
    | none => cases hall
    | some first =>
      cases first with
      | false => cases hall
      | true => exact List.forall_mem_cons.mpr ⟨rfl, ih hall⟩

/-- A negative answer to several questions is one to some of them, if there are any. -/
theorem allAnswers_eq_some_false {answers : List (Option Bool)} (hne : answers ≠ [])
    (h : allAnswers answers = some false) : some false ∈ answers := by
  unfold allAnswers at h
  rw [if_neg (by rwa [List.isEmpty_iff])] at h
  clear hne
  induction answers with
  | nil => cases h
  | cons first rest ih =>
    cases first with
    | none => cases h
    | some first =>
      cases first with
      | false => exact List.mem_cons_self
      | true => exact List.mem_cons_of_mem _ (ih h)

theorem anyAnswers_eq_some_true {answers : List (List (Option Bool))}
    (h : anyAnswers answers = some true) : ∃ group ∈ answers, allAnswers group = some true := by
  unfold anyAnswers at h
  induction answers with
  | nil => cases h
  | cons first rest ih =>
    rw [List.anyM] at h
    cases hfirst : allAnswers first with
    | none =>
      rw [hfirst] at h
      cases h
    | some answer =>
      rw [hfirst] at h
      cases answer with
      | true => exact ⟨first, List.mem_cons_self, hfirst⟩
      | false =>
        obtain ⟨group, hgroup, hall⟩ := ih h
        exact ⟨group, List.mem_cons_of_mem _ hgroup, hall⟩

theorem anyAnswers_eq_some_false {answers : List (List (Option Bool))}
    (h : anyAnswers answers = some false) : ∀ group ∈ answers, allAnswers group = some false := by
  unfold anyAnswers at h
  induction answers with
  | nil => exact List.forall_mem_nil _
  | cons first rest ih =>
    rw [List.anyM] at h
    cases hfirst : allAnswers first with
    | none =>
      rw [hfirst] at h
      cases h
    | some answer =>
      rw [hfirst] at h
      cases answer with
      | true => cases h
      | false => exact List.forall_mem_cons.mpr ⟨hfirst, ih h⟩

section Answers

variable {s : Setting} {answer : Bool}

/-- The answer of a proper term, if there is one, decides what it says. -/
theorem Term.IsProper.answer_iff_means {t : Term} (hproper : t.IsProper)
    (h : t.answer s = some answer) : answer = true ↔ t.HoldsFor s := by
  induction t generalizing answer with
  | test u =>
    have hanswer : u.answer s = some answer := h
    change answer = true ↔ u.answer s = some true
    rw [hanswer, Option.some.injEq]
  | group body ih =>
    obtain ⟨-, hall⟩ := Term.isProper_group.mp hproper
    rw [Term.answer_group] at h
    unfold Term.HoldsFor
    rw [Term.means_group]
    cases answer with
    | true =>
      obtain ⟨group, hgroup, htrue⟩ := anyAnswers_eq_some_true h
      obtain ⟨c, hc, rfl⟩ := List.mem_map.mp hgroup
      have hterms := allAnswers_eq_some_true htrue
      refine iff_of_true rfl ⟨c, hc, fun t ht => ?_⟩
      exact (ih c hc t ht ((hall c hc).2 t ht) (hterms _ (List.mem_map_of_mem ht))).mp rfl
    | false =>
      refine iff_of_false Bool.false_ne_true ?_
      rintro ⟨c, hc, hmeans⟩
      have hne : c.map (Term.answer s) ≠ [] := by
        rw [ne_eq, List.map_eq_nil_iff]
        exact (hall c hc).1
      have hfalse := anyAnswers_eq_some_false h _ (List.mem_map_of_mem hc)
      obtain ⟨t, ht, hterm⟩ := List.mem_map.mp (allAnswers_eq_some_false hne hfalse)
      exact Bool.false_ne_true ((ih c hc t ht ((hall c hc).2 t ht) hterm).mpr (hmeans t ht))

/-- The answer of a proper filter, if there is one, decides what it says. -/
theorem Filter.answer_iff_means {f : Filter} (hproper : Filter.IsProper f)
    (h : Filter.answer s f = some answer) :
    answer = true ↔ Filter.Means (fun test => test.answer s = some true) f := by
  rw [← Term.answer_group] at h
  rw [← Term.means_group]
  exact (Term.isProper_group.mpr hproper).answer_iff_means h

/-- A filter has an answer when all of its tests do. -/
theorem Filter.isSome_answer {f : Filter}
    (h : ∀ test ∈ Filter.tests f, (test.answer s).isSome = true) :
    (Filter.answer s f).isSome = true := by
  have htests : ∀ test ∈ (Term.group f).tests,
      test.answer s = some ((test.answer s).getD false) := by
    intro test htest
    rw [Term.tests_group] at htest
    obtain ⟨answer, hanswer⟩ := Option.isSome_iff_exists.mp (h test htest)
    rw [hanswer, Option.getD_some]
  rw [← Term.answer_group, Term.answer_eq_some htests]
  rfl

end Answers

/-- The evaluation of a proper term decides what it says. -/
theorem Term.IsProper.holds_iff_means {cx : Context} {t : Term} (hproper : t.IsProper) :
    t.holds cx = true ↔ t.Means fun test => test.holds cx = true := by
  have hanswer : t.holds cx = true ↔ t.HoldsFor cx.setting :=
    hproper.answer_iff_means (Node.answer_eq_some cx (.term t))
  refine hanswer.trans (Term.means_congr fun test _ => ?_)
  rw [test.answer_eq_some, Option.some.injEq]

/-- The evaluation of a proper filter decides what it says. -/
theorem Filter.holds_iff_means {cx : Context} {f : Filter} (hproper : Filter.IsProper f) :
    Filter.holds cx f = true ↔ Filter.Means (fun test => test.holds cx = true) f := by
  rw [← Term.holds_group, ← Term.means_group]
  exact (Term.isProper_group.mpr hproper).holds_iff_means

end TagFilter
