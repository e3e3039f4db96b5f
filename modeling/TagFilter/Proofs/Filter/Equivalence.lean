import Mathlib.Data.List.Forall2
import TagFilter.Proofs.Filter.Sameness

/-!
# Sameness is an equivalence

Sameness of values, and with it sameness of tests and of filters, is symmetric and transitive, and
each value is the same as itself.  On lists, records, conjunctions and filters it is sameness of the
parts, place by place (`same_iff_forall₂`), so that the laws go from the parts to the whole.
-/

namespace TagFilter

/-! ### Place by place -/

section Places

variable {α : Type} {r : α → α → Prop} {xs ys zs : List α}

/-- A relation that can be turned around at each place can be turned around on lists. -/
theorem forall₂_symm (h : List.Forall₂ r xs ys) (hsymm : ∀ x ∈ xs, ∀ y, r x y → r y x) :
    List.Forall₂ r ys xs := by
  induction h with
  | nil => exact .nil
  | cons hxy _ ih =>
    refine .cons (hsymm _ List.mem_cons_self _ hxy) (ih fun x hx => ?_)
    exact hsymm x (List.mem_cons_of_mem _ hx)

/-- A relation that can be chained at each place can be chained on lists. -/
theorem forall₂_trans (h : List.Forall₂ r xs ys) (h' : List.Forall₂ r ys zs)
    (htrans : ∀ x ∈ xs, ∀ y z, r x y → r y z → r x z) : List.Forall₂ r xs zs := by
  induction h generalizing zs with
  | nil =>
    cases h'
    exact .nil
  | cons hxy _ ih =>
    cases h' with
    | cons hyz hrest =>
      refine .cons (htrans _ List.mem_cons_self _ _ hxy hyz) (ih hrest fun x hx => ?_)
      exact htrans x (List.mem_cons_of_mem _ hx)

/-- Functions that agree on related elements give the same list on lists of such elements. -/
theorem map_eq_of_forall₂ {β : Type} {f g : α → β} (h : List.Forall₂ r xs ys)
    (hr : ∀ x ∈ xs, ∀ y, r x y → f x = g y) : xs.map f = ys.map g := by
  induction h with
  | nil => rfl
  | cons hxy _ ih =>
    rw [List.map_cons, List.map_cons, hr _ List.mem_cons_self _ hxy,
      ih fun x hx => hr x (List.mem_cons_of_mem _ hx)]

/-- A comparison of lists that compares them place by place. -/
theorem same_iff_forall₂ {same : List α → List α → Bool} {part : α → α → Bool}
    (hnil : same [] [] = true) (hleft : ∀ x xs, same (x :: xs) [] = false)
    (hright : ∀ y ys, same [] (y :: ys) = false)
    (hcons : ∀ x xs y ys, same (x :: xs) (y :: ys) = (part x y && same xs ys)) :
    same xs ys = true ↔ List.Forall₂ (fun x y => part x y = true) xs ys := by
  induction xs generalizing ys with
  | nil =>
    cases ys with
    | nil => simp only [hnil, List.Forall₂.nil]
    | cons y ys => simp only [hright, List.forall₂_nil_left_iff, reduceCtorEq]
  | cons x xs ih =>
    cases ys with
    | nil => simp only [hleft, List.forall₂_nil_right_iff, reduceCtorEq]
    | cons y ys => rw [hcons, Bool.and_eq_true, List.forall₂_cons, ih]

end Places

/-! ### Values -/

/-- Induction over values: for a list or a record, every value in it may be assumed. -/
@[elab_as_elim]
theorem Value.induction {motive : Value → Prop} (atom : ∀ v : Value, v.IsAtom → motive v)
    (list : ∀ items : List Value, (∀ v ∈ items, motive v) → motive (.list items))
    (dict : ∀ record : NameMap Value, (∀ entry ∈ record.entries, motive entry.2) →
      motive (.dict record)) (v : Value) : motive v := by
  refine @Value.rec motive (fun items => ∀ v ∈ items, motive v)
    (fun record => ∀ entry ∈ record.entries, motive entry.2)
    (fun entries => ∀ entry ∈ entries, motive entry.2) (fun entry => motive entry.2)
    (atom _ trivial) (fun b => atom (.bool b) trivial) (fun n => atom (.number n) trivial)
    (fun text => atom (.str text) trivial) (fun d => atom (.date d) trivial)
    (fun t => atom (.time t) trivial) (fun r => atom (.ref r) trivial)
    (fun s => atom (.symbol s) trivial) (fun u => atom (.uri u) trivial) list dict ?_ ?_ ?_ ?_ ?_
    ?_ v
  · exact List.forall_mem_nil _
  · intro first rest hfirst hrest
    exact List.forall_mem_cons.mpr ⟨hfirst, hrest⟩
  · exact fun entries h => h
  · exact List.forall_mem_nil _
  · intro first rest hfirst hrest
    exact List.forall_mem_cons.mpr ⟨hfirst, hrest⟩
  · exact fun name value h => h

theorem sameItems_iff {a b : List Value} :
    sameItems a b = true ↔ List.Forall₂ (fun v w => v.same w = true) a b :=
  same_iff_forall₂ rfl (fun _ _ => rfl) (fun _ _ => rfl) fun _ _ _ _ => rfl

theorem sameRecord_iff {a b : Record} :
    sameRecord a b = true ↔
      List.Forall₂ (fun m n => sameEntry m n = true) a.entries b.entries := by
  obtain ⟨entries⟩ := a
  obtain ⟨others⟩ := b
  rw [sameRecord]
  exact same_iff_forall₂ rfl (fun _ _ => rfl) (fun _ _ => rfl) fun _ _ _ _ => rfl

theorem sameEntry_iff {m n : String × Value} :
    sameEntry m n = true ↔ m.1 = n.1 ∧ m.2.same n.2 = true := by
  rw [sameEntry, Bool.and_eq_true, beq_iff_eq]

/-- A value is the same as itself. -/
theorem Value.same_refl (v : Value) : v.same v = true := by
  induction v using Value.induction with
  | atom v hv =>
    cases v with
    | list items => exact hv.elim
    | dict record => exact hv.elim
    | marker => rfl
    | number n => exact Number.same_iff.mpr ⟨rfl, rfl⟩
    | _ => exact beq_iff_eq.mpr rfl
  | list items ih => exact sameItems_iff.mpr (List.forall₂_same.mpr ih)
  | dict record ih =>
    refine sameRecord_iff.mpr (List.forall₂_same.mpr fun entry hentry => ?_)
    exact sameEntry_iff.mpr ⟨rfl, ih entry hentry⟩

/-- Sameness of values can be turned around. -/
theorem Value.same_symm {a b : Value} (h : a.same b = true) : b.same a = true := by
  induction a using Value.induction generalizing b with
  | atom a ha =>
    have hb := Value.isAtom_of_same ha h
    rcases Value.same_cases hb h with rfl | ⟨m, n, rfl, rfl, hsame⟩ | ⟨r, s, rfl, rfl, hid⟩
    · exact h
    · obtain ⟨hkey, hunit⟩ := Number.same_iff.mp hsame
      exact Number.same_iff.mpr ⟨hkey.symm, hunit.symm⟩
    · exact beq_iff_eq.mpr hid.symm
  | list items ih =>
    cases b with
    | list others =>
      have hitems := sameItems_iff.mp h
      exact sameItems_iff.mpr (forall₂_symm hitems fun v hv _ => ih v hv)
    | _ => cases h
  | dict record ih =>
    cases b with
    | dict other =>
      refine sameRecord_iff.mpr (forall₂_symm (sameRecord_iff.mp h) fun m hm n hmn => ?_)
      obtain ⟨hname, hvalue⟩ := sameEntry_iff.mp hmn
      exact sameEntry_iff.mpr ⟨hname.symm, ih m hm hvalue⟩
    | _ => cases h

/-- Sameness of values can be chained. -/
theorem Value.same_trans {a b c : Value} (hab : a.same b = true) (hbc : b.same c = true) :
    a.same c = true := by
  induction a using Value.induction generalizing b c with
  | atom a ha =>
    have hb := Value.isAtom_of_same ha hab
    have hc := Value.isAtom_of_same hb hbc
    rcases Value.same_cases hb hab with rfl | ⟨m, n, rfl, rfl, hmn⟩ | ⟨r, s, rfl, rfl, hrs⟩
    · exact hbc
    · cases c with
      | number k =>
        obtain ⟨hkey, hunit⟩ := Number.same_iff.mp hmn
        obtain ⟨hkey', hunit'⟩ := Number.same_iff.mp hbc
        exact Number.same_iff.mpr ⟨hkey.trans hkey', hunit.trans hunit'⟩
      | _ => cases hbc
    · cases c with
      | ref t => exact beq_iff_eq.mpr (hrs.trans (beq_iff_eq.mp hbc))
      | _ => cases hbc
  | list items ih =>
    cases b with
    | list others =>
      cases c with
      | list more =>
        refine sameItems_iff.mpr (forall₂_trans (sameItems_iff.mp hab) (sameItems_iff.mp hbc) ?_)
        exact fun v hv _ _ => ih v hv
      | _ => cases hbc
    | _ => cases hab
  | dict record ih =>
    cases b with
    | dict other =>
      cases c with
      | dict more =>
        refine sameRecord_iff.mpr
          (forall₂_trans (sameRecord_iff.mp hab) (sameRecord_iff.mp hbc) ?_)
        intro m hm n k hmn hnk
        obtain ⟨hname, hvalue⟩ := sameEntry_iff.mp hmn
        obtain ⟨hname', hvalue'⟩ := sameEntry_iff.mp hnk
        exact sameEntry_iff.mpr ⟨hname.trans hname', ih m hm hvalue hvalue'⟩
      | _ => cases hbc
    | _ => cases hab

/-! ### Tests -/

/-- Sameness of tests can be turned around. -/
theorem Test.same_symm {a b : Test} (h : a.same b = true) : b.same a = true := by
  cases a <;> cases b <;> first | exact absurd h Bool.false_ne_true | skip
  case has | missing | isA => exact beq_iff_eq.mpr (beq_iff_eq.mp h).symm
  case compare p op v q op' w =>
    simp only [Test.same, Bool.and_eq_true, beq_iff_eq] at h ⊢
    exact ⟨⟨h.1.1.symm, h.1.2.symm⟩, Value.same_symm h.2⟩
  case related r target q target' =>
    simp only [Test.same, Bool.and_eq_true, beq_iff_eq, sameTarget_iff] at h ⊢
    exact ⟨h.1.symm, h.2.symm⟩
  case reaches p target q target' =>
    simp only [Test.same, Bool.and_eq_true, beq_iff_eq] at h ⊢
    exact ⟨h.1.symm, h.2.symm⟩

/-- Sameness of tests can be chained. -/
theorem Test.same_trans {a b c : Test} (hab : a.same b = true) (hbc : b.same c = true) :
    a.same c = true := by
  cases a <;> cases b <;> first | exact absurd hab Bool.false_ne_true | skip
  all_goals cases c <;> first | exact absurd hbc Bool.false_ne_true | skip
  case has | missing | isA => exact beq_iff_eq.mpr ((beq_iff_eq.mp hab).trans (beq_iff_eq.mp hbc))
  case compare p op v q op' w q' op'' u =>
    simp only [Test.same, Bool.and_eq_true, beq_iff_eq] at hab hbc ⊢
    exact ⟨⟨hab.1.1.trans hbc.1.1, hab.1.2.trans hbc.1.2⟩, Value.same_trans hab.2 hbc.2⟩
  case related =>
    simp only [Test.same, Bool.and_eq_true, beq_iff_eq, sameTarget_iff] at hab hbc ⊢
    exact ⟨hab.1.trans hbc.1, hab.2.trans hbc.2⟩
  case reaches =>
    simp only [Test.same, Bool.and_eq_true, beq_iff_eq] at hab hbc ⊢
    exact ⟨hab.1.trans hbc.1, hab.2.trans hbc.2⟩

/-! ### Filters -/

theorem sameConjunction_iff {a b : Conjunction} :
    sameConjunction a b = true ↔ List.Forall₂ (fun t u => Term.same t u = true) a b :=
  same_iff_forall₂ rfl (fun _ _ => rfl) (fun _ _ => rfl) fun _ _ _ _ => rfl

theorem sameFilter_iff {a b : Filter} :
    sameFilter a b = true ↔ List.Forall₂ (fun c d => sameConjunction c d = true) a b :=
  same_iff_forall₂ rfl (fun _ _ => rfl) (fun _ _ => rfl) fun _ _ _ _ => rfl

/-- Sameness of terms can be turned around. -/
theorem Term.same_symm {a b : Term} (h : a.same b = true) : b.same a = true := by
  induction a generalizing b with
  | test t =>
    cases b with
    | test u => exact Test.same_symm h
    | group => cases h
  | group body ih =>
    cases b with
    | test => cases h
    | group other =>
      refine sameFilter_iff.mpr (forall₂_symm (sameFilter_iff.mp h) fun c hc d hcd => ?_)
      refine sameConjunction_iff.mpr (forall₂_symm (sameConjunction_iff.mp hcd) ?_)
      exact fun t ht _ => ih c hc t ht

/-- Sameness of terms can be chained. -/
theorem Term.same_trans {a b c : Term} (hab : a.same b = true) (hbc : b.same c = true) :
    a.same c = true := by
  induction a generalizing b c with
  | test t =>
    cases b with
    | group => cases hab
    | test u =>
      cases c with
      | group => cases hbc
      | test v => exact Test.same_trans hab hbc
  | group body ih =>
    cases b with
    | test => cases hab
    | group other =>
      cases c with
      | test => cases hbc
      | group more =>
        refine sameFilter_iff.mpr
          (forall₂_trans (sameFilter_iff.mp hab) (sameFilter_iff.mp hbc) ?_)
        intro d hd e f hde hef
        refine sameConjunction_iff.mpr
          (forall₂_trans (sameConjunction_iff.mp hde) (sameConjunction_iff.mp hef) ?_)
        exact fun t ht _ _ => ih d hd t ht

/-- Sameness of filters can be turned around. -/
theorem sameFilter_symm {a b : Filter} (h : sameFilter a b = true) : sameFilter b a = true :=
  Term.same_symm (a := .group a) (b := .group b) h

/-- Sameness of filters can be chained. -/
theorem sameFilter_trans {a b c : Filter} (hab : sameFilter a b = true)
    (hbc : sameFilter b c = true) : sameFilter a c = true :=
  Term.same_trans (a := .group a) (b := .group b) (c := .group c) hab hbc

end TagFilter
