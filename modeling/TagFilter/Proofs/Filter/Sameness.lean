import TagFilter.Proofs.Filter.Tests

/-!
# Sameness

Values that are the same are equal up to display names and the sign of zero, unless they are lists
or records.  Sameness of filters is sameness of their tests, one by one, when one is made from the
other test by test.
-/

namespace TagFilter

/-! ### Values -/

theorem compareText_eq_compare (a b : String) : compareText a b = compare a b := rfl

theorem compareText?_eq_compare (a b : Option String) : compareText? a b = compare a b := by
  cases a <;> cases b <;> rfl

theorem compareText_eq_iff {a b : String} : compareText a b = .eq ↔ a = b := by
  rw [compareText_eq_compare, Std.compare_eq_eq_iff_eq]

theorem compareText?_eq_iff {a b : Option String} : compareText? a b = .eq ↔ a = b := by
  rw [compareText?_eq_compare, Std.compare_eq_eq_iff_eq]

/-- Numbers are the same when they have the same place on the line and the same unit. -/
theorem Number.same_iff {a b : Number} :
    a.same b = true ↔ a.magnitude.key = b.magnitude.key ∧ a.unit = b.unit := by
  unfold Number.same Number.compare Magnitude.compare
  rw [beq_iff_eq, Ordering.then_eq_eq, Std.compare_eq_eq_iff_eq, compareText?_eq_iff]

/-- The value is no list and no record. -/
def Value.IsAtom : Value → Prop
  | .list _ | .dict _ => False
  | _ => True

/-- Atoms are the same when they are equal, up to the sign of zero and display names. -/
theorem Value.same_cases {a b : Value} (hb : b.IsAtom) (h : a.same b = true) :
    a = b ∨ (∃ m n, a = .number m ∧ b = .number n ∧ m.same n = true) ∨
      ∃ r s, a = .ref r ∧ b = .ref s ∧ r.id = s.id := by
  cases b with
  | list items => exact hb.elim
  | dict record => exact hb.elim
  | number n =>
    cases a with
    | number m => exact Or.inr (Or.inl ⟨m, n, rfl, rfl, h⟩)
    | _ => cases h
  | ref s =>
    cases a with
    | ref r => exact Or.inr (Or.inr ⟨r, s, rfl, rfl, beq_iff_eq.mp h⟩)
    | _ => cases h
  | marker =>
    cases a with
    | marker => exact Or.inl rfl
    | _ => cases h
  | bool b =>
    cases a with
    | bool a => exact Or.inl (congrArg Value.bool (beq_iff_eq.mp h))
    | _ => cases h
  | str b =>
    cases a with
    | str a => exact Or.inl (congrArg Value.str (beq_iff_eq.mp h))
    | _ => cases h
  | date b =>
    cases a with
    | date a => exact Or.inl (congrArg Value.date (beq_iff_eq.mp h))
    | _ => cases h
  | time b =>
    cases a with
    | time a => exact Or.inl (congrArg Value.time (beq_iff_eq.mp h))
    | _ => cases h
  | symbol b =>
    cases a with
    | symbol a => exact Or.inl (congrArg Value.symbol (beq_iff_eq.mp h))
    | _ => cases h
  | uri b =>
    cases a with
    | uri a => exact Or.inl (congrArg Value.uri (beq_iff_eq.mp h))
    | _ => cases h

/-- A value that can be scanned is an atom. -/
theorem Value.IsScanned.isAtom {v : Value} (h : v.IsScanned) : v.IsAtom := by
  cases v with
  | list items => exact h
  | dict record => exact h
  | _ => trivial

/-- Whatever is the same as an atom is an atom. -/
theorem Value.isAtom_of_same {a b : Value} (ha : a.IsAtom) (h : a.same b = true) : b.IsAtom := by
  cases a with
  | list items => exact ha.elim
  | dict record => exact ha.elim
  | _ =>
    cases b with
    | list items => cases h
    | dict record => cases h
    | _ => trivial

/-! ### Tests -/

theorem sameTarget_iff {a b : Option Ref} :
    sameTarget a b = true ↔ a.map Ref.id = b.map Ref.id := by
  cases a with
  | none =>
    cases b with
    | none => exact ⟨fun _ => rfl, fun _ => rfl⟩
    | some b =>
      constructor
      · intro h
        cases h
      · intro h
        cases h
  | some a =>
    cases b with
    | none =>
      constructor
      · intro h
        cases h
      · intro h
        cases h
    | some b => exact beq_iff_eq.trans Option.some_inj.symm

theorem sameTarget_written (target : Option Ref) :
    sameTarget (target.map Ref.written) target = true := by
  rw [sameTarget_iff, Option.map_map]
  rfl

/-- A test is read back as the same test when its literal is read back as the same value. -/
theorem Test.same_reread {read : Value → Value} {test other : Test}
    (hoperand : ∀ p op v, test = .compare p op v →
      ∃ w, other = .compare p op w ∧ (read v).same w = true)
    (hother : test.operand? = none → other = test) :
    (test.reread read).same other = true := by
  cases test with
  | compare p op v =>
    obtain ⟨w, rfl, hsame⟩ := hoperand p op v rfl
    simp only [Test.reread, Test.same, beq_self_eq_true, hsame, Bool.and_self]
  | has p | missing p | isA type =>
    rw [hother rfl]
    simp only [Test.reread, Test.same, beq_self_eq_true]
  | related r target =>
    rw [hother rfl]
    simp only [Test.reread, Test.same, beq_self_eq_true, sameTarget_written, Bool.and_self]
  | reaches p target =>
    rw [hother rfl]
    simp only [Test.reread, Ref.written, Test.same, beq_self_eq_true, Bool.and_self]

/-! ### Filters -/

section Mapped

variable {α : Type}

theorem sameConjunction_map {a b : α → Term} {xs : List α}
    (h : ∀ x ∈ xs, (a x).same (b x) = true) : sameConjunction (xs.map a) (xs.map b) = true := by
  induction xs with
  | nil => rfl
  | cons x xs ih =>
    rw [List.map_cons, List.map_cons, sameConjunction, h x List.mem_cons_self,
      ih fun y hy => h y (List.mem_cons_of_mem _ hy)]
    rfl

theorem sameFilter_map {a b : α → List Term} {xs : List α}
    (h : ∀ x ∈ xs, sameConjunction (a x) (b x) = true) :
    sameFilter (xs.map a) (xs.map b) = true := by
  induction xs with
  | nil => rfl
  | cons x xs ih =>
    rw [List.map_cons, List.map_cons, sameFilter, h x List.mem_cons_self,
      ih fun y hy => h y (List.mem_cons_of_mem _ hy)]
    rfl

end Mapped

/-- Terms with the same terms in the places of their tests are the same. -/
theorem Term.same_bind {a b : Test → Term} {t : Term}
    (h : ∀ test ∈ t.tests, (a test).same (b test) = true) :
    (t.bind a).same (t.bind b) = true := by
  induction t with
  | test u => exact h u List.mem_cons_self
  | group body ih =>
    rw [Term.tests_group] at h
    rw [Term.bind_group, Term.bind_group, Term.same]
    refine sameFilter_map fun c hc => sameConjunction_map fun t ht => ih c hc t ht fun u hu => ?_
    exact h u (Filter.mem_tests.mpr ⟨c, hc, t, ht, hu⟩)

/-- Filters with the same terms in the places of their tests are the same. -/
theorem Filter.same_bind {a b : Test → Term} {f : Filter}
    (h : ∀ test ∈ Filter.tests f, (a test).same (b test) = true) :
    sameFilter (Filter.bind a f) (Filter.bind b f) = true := by
  refine sameFilter_map fun c hc => sameConjunction_map fun t ht => Term.same_bind fun u hu => ?_
  exact h u (Filter.mem_tests.mpr ⟨c, hc, t, ht, hu⟩)

/-- Filters with the same tests in the places of their tests are the same. -/
theorem Filter.same_mapTests {a b : Test → Test} {f : Filter}
    (h : ∀ test ∈ Filter.tests f, (a test).same (b test) = true) :
    sameFilter (Filter.mapTests a f) (Filter.mapTests b f) = true :=
  Filter.same_bind h

/-- A filter is the same as one with the same terms in the places of its tests. -/
theorem Filter.same_bind_self {read : Test → Term} {f : Filter}
    (h : ∀ test ∈ Filter.tests f, (read test).same (.test test) = true) :
    sameFilter (Filter.bind read f) f = true := by
  have hsame := Filter.same_bind (b := Term.test) h
  have hunchanged : Filter.mapTests id f = f := Filter.mapTests_eq_self fun _ _ => rfl
  have hself : Filter.bind Term.test f = f := hunchanged
  rwa [hself] at hsame

end TagFilter
