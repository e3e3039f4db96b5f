import TagFilter.Namespace.Basic

/-!
# Derivable names

A name is derivable when a test holds along it, or when there are names that imply it and all of
these are derivable; `Namespace.Derivable` is the least set of this kind.  The expansion of implied
tags does not search this set.  It goes down from a name and cuts each branch at a name that it is
already expanding, which is `Expands`.

The two agree on every graph of names, cyclic or not (`expands_iff_derivable`).  A derivable name
has a *stage*, the depth of a derivation; along a derivation of least depth the stages decrease, so
that no name is met below itself and nothing is lost by cutting there.
-/

namespace TagFilter

namespace Namespace

variable (ns : Namespace)

/-! ### Derivations -/

/-- The names along which a test holds, or which are implied by names that all are derivable. -/
inductive Derivable (holds : String → Prop) : String → Prop where
  /-- The test holds along the name. -/
  | test {name : String} (h : holds name) : Derivable holds name
  /-- There are names that imply the name, and all of them are derivable. -/
  | implied {name : String} (hne : ns.impliedBy name ≠ [])
    (h : ∀ other ∈ ns.impliedBy name, Derivable holds other) : Derivable holds name

/-- The names with a derivation of a bounded depth. -/
def DerivableIn (holds : String → Prop) : Nat → String → Prop
  | 0, name => holds name
  | depth + 1, name => DerivableIn holds depth name ∨
    (ns.impliedBy name ≠ [] ∧ ∀ other ∈ ns.impliedBy name, DerivableIn holds depth other)

variable {ns} {holds : String → Prop}

theorem DerivableIn.mono {depth more : Nat} {name : String} (h : ns.DerivableIn holds depth name)
    (hle : depth ≤ more) : ns.DerivableIn holds more name := by
  induction hle with
  | refl => exact h
  | step _ ih => exact Or.inl ih

/-- Names of some depths have one depth in common. -/
theorem exists_depth_of_forall {names : List String}
    (h : ∀ name ∈ names, ∃ depth, ns.DerivableIn holds depth name) :
    ∃ depth, ∀ name ∈ names, ns.DerivableIn holds depth name := by
  induction names with
  | nil => exact ⟨0, List.forall_mem_nil _⟩
  | cons first rest ih =>
    obtain ⟨depth, hfirst⟩ := h first List.mem_cons_self
    obtain ⟨more, hrest⟩ := ih fun name hname => h name (List.mem_cons_of_mem _ hname)
    refine ⟨depth + more, fun name hname => ?_⟩
    rcases List.mem_cons.mp hname with rfl | hname
    · exact hfirst.mono (Nat.le_add_right depth more)
    · exact (hrest name hname).mono (Nat.le_add_left more depth)

/-- Every derivable name has a derivation of some depth. -/
theorem Derivable.exists_depth {name : String} (h : ns.Derivable holds name) :
    ∃ depth, ns.DerivableIn holds depth name := by
  induction h with
  | test h => exact ⟨0, h⟩
  | implied hne _ ih =>
    obtain ⟨depth, hall⟩ := exists_depth_of_forall ih
    exact ⟨depth + 1, Or.inr ⟨hne, hall⟩⟩

/-- A name that is implied by others is the name of a def. -/
theorem isSome_find?_of_impliedBy {name : String} (h : ns.impliedBy name ≠ []) :
    (ns.defs.find? name).isSome = true := by
  cases hfind : ns.defs.find? name with
  | none =>
    unfold impliedBy table at h
    rw [NameMap.find?_map, hfind] at h
    exact absurd rfl h
  | some record => rfl

/-! ### Expansion with cuts -/

/-- Induction along the expansion of a name.  It goes down to the names that imply the name, where
there are any and the name is not being expanded already; each def is expanded once on the way. -/
theorem expansion_induction (ns : Namespace) {motive : List String → String → Prop}
    (cut : ∀ expanding name, ns.impliedBy name = [] ∨ name ∈ expanding → motive expanding name)
    (step : ∀ expanding name, ¬ (ns.impliedBy name = [] ∨ name ∈ expanding) →
      (∀ other ∈ ns.impliedBy name, motive (name :: expanding) other) → motive expanding name)
    (expanding : List String) (name : String) : motive expanding name := by
  by_cases hcut : ns.impliedBy name = [] ∨ name ∈ expanding
  · exact cut expanding name hcut
  · obtain ⟨hne, hnew⟩ := not_or.mp hcut
    have _hless : (ns.defs.unmet (name :: expanding)).length < (ns.defs.unmet expanding).length :=
      NameMap.length_unmet_cons_lt (isSome_find?_of_impliedBy hne) hnew
    exact step expanding name hcut fun other _ => expansion_induction ns cut step _ other
termination_by (ns.defs.unmet expanding).length

end Namespace

/-- The expansion of a name holds while other names are being expanded. -/
inductive Expands (ns : Namespace) (holds : String → Prop) : List String → String → Prop where
  /-- The test holds along the name. -/
  | test {expanding : List String} {name : String} (h : holds name) :
    Expands ns holds expanding name
  /-- The name is not being expanded, and the expansions of all names that imply it hold. -/
  | implied {expanding : List String} {name : String} (hne : ns.impliedBy name ≠ [])
    (hnew : name ∉ expanding)
    (h : ∀ other ∈ ns.impliedBy name, Expands ns holds (name :: expanding) other) :
    Expands ns holds expanding name

variable {ns : Namespace} {holds : String → Prop} {expanding : List String} {name : String}

/-- A name without implying names, or one that is being expanded, is not expanded further. -/
theorem Expands.iff_test (h : ns.impliedBy name = [] ∨ name ∈ expanding) :
    Expands ns holds expanding name ↔ holds name := by
  constructor
  · intro hexpands
    cases hexpands with
    | test hholds => exact hholds
    | implied hne hnew _ => exact absurd h (not_or.mpr ⟨hne, hnew⟩)
  · exact Expands.test

/-- Another name is expanded to the test along it, or to the expansions of all names that imply
it. -/
theorem Expands.iff_implied (h : ¬ (ns.impliedBy name = [] ∨ name ∈ expanding)) :
    Expands ns holds expanding name ↔
      holds name ∨ ∀ other ∈ ns.impliedBy name, Expands ns holds (name :: expanding) other := by
  obtain ⟨hne, hnew⟩ := not_or.mp h
  constructor
  · intro hexpands
    cases hexpands with
    | test hholds => exact Or.inl hholds
    | implied _ _ hall => exact Or.inr hall
  · rintro (hholds | hall)
    · exact .test hholds
    · exact .implied hne hnew hall

/-- An expansion derives its name: a cut only removes derivations. -/
theorem Expands.derivable (h : Expands ns holds expanding name) : ns.Derivable holds name := by
  induction h with
  | test h => exact .test h
  | implied hne _ _ ih => exact .implied hne ih

/-- A derivation of some depth is an expansion, when all names that are being expanded need deeper
derivations. -/
theorem Expands.of_derivableIn {depth : Nat} (h : ns.DerivableIn holds depth name)
    (hcut : ∀ n ∈ expanding, ¬ ns.DerivableIn holds depth n) : Expands ns holds expanding name := by
  induction depth generalizing name expanding with
  | zero => exact .test h
  | succ depth ih =>
    by_cases hless : ns.DerivableIn holds depth name
    · exact ih hless fun n hn hderivable => hcut n hn (Or.inl hderivable)
    · obtain ⟨hne, hall⟩ := h.resolve_left hless
      -- The name itself is not being expanded, as its depth is not more than the present one.
      have hnew : name ∉ expanding := fun hmem => hcut name hmem h
      refine .implied hne hnew fun other hother => ih (hall other hother) fun n hn hderivable => ?_
      rcases List.mem_cons.mp hn with rfl | hn
      · exact hless hderivable
      · exact hcut n hn (Or.inl hderivable)

/-- Cutting at the names that are being expanded neither loses nor adds a derivation. -/
theorem expands_iff_derivable : Expands ns holds [] name ↔ ns.Derivable holds name := by
  constructor
  · exact Expands.derivable
  · intro h
    obtain ⟨depth, hdepth⟩ := h.exists_depth
    exact .of_derivableIn hdepth (List.forall_mem_nil _)

end TagFilter
