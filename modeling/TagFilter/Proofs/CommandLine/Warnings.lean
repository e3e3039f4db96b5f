import TagFilter.CommandLine.Warnings
import TagFilter.Proofs.Filter.Terms
import TagFilter.Proofs.NameSets
import TagFilter.Proofs.Text.EditDistance

/-!
# Warnings about unknown defs

A filter is given one warning for each name that it mentions as a type, a relationship or a term,
at whatever depth of parentheses, and that is no def.  The warnings stand in ascending order of the
names, and each suggests a def exactly when one is at most two edits away: the first one at the
least distance (`Filter.warnings_mentioned`).

That the def is the first one comes from the order of a namespace, since the search goes through the
names from the last one back and keeps the earlier of two that are equally close
(`isClosest_of_closest?`).
-/

namespace TagFilter

/-! ### The closest of several names -/

/-- The number of single edits between two names. -/
def nameDistance (a b : String) : Nat :=
  editDistance a.toList b.toList

/-- The number of edits between two names is the least one. -/
theorem isLeast_nameDistance (a b : String) :
    IsLeast {n | Edits n a.toList b.toList} (nameDistance a b) :=
  isLeast_editDistance a.toList b.toList

theorem nameDistance_pos {a b : String} (h : a ≠ b) : 0 < nameDistance a b := by
  refine Nat.pos_of_ne_zero fun hzero => h ?_
  exact String.toList_injective (eq_of_editDistance_eq_zero hzero)

/-- A candidate is the first one at the least distance from a name. -/
inductive IsClosest (name : String) : List String → String → Prop where
  | intro (before : List String) {after : List String} {best : String}
    (hbefore : ∀ other ∈ before, nameDistance name best < nameDistance name other)
    (hafter : ∀ other ∈ after, nameDistance name best ≤ nameDistance name other) :
    IsClosest name (before ++ best :: after) best

/-- The candidate that is found is the first one at the least distance. -/
theorem isClosest_of_closest? {name best : String} {least : Nat} {candidates : List String}
    (h : Namespace.closest? name candidates = some (best, least)) :
    IsClosest name candidates best ∧ least = nameDistance name best := by
  induction candidates generalizing best least with
  | nil => cases h
  | cons candidate candidates ih =>
    have hcloser : Namespace.closer name candidate (Namespace.closest? name candidates) =
      (best, least) := Option.some.inj h
    cases hrest : Namespace.closest? name candidates with
    | none =>
      rw [hrest] at hcloser
      cases hcloser
      cases candidates with
      | nil => exact ⟨.intro [] (List.forall_mem_nil _) (List.forall_mem_nil _), rfl⟩
      | cons => cases hrest
    | some pair =>
      obtain ⟨other, distance⟩ := pair
      obtain ⟨hclosest, rfl⟩ := ih hrest
      obtain ⟨before, hbefore, hafter⟩ := hclosest
      rw [hrest] at hcloser
      change (if nameDistance name other < nameDistance name candidate then
        (other, nameDistance name other) else (candidate, nameDistance name candidate)) =
          (best, least) at hcloser
      split at hcloser
      · next hlt =>
        cases hcloser
        refine ⟨.intro (candidate :: before) ?_ hafter, rfl⟩
        exact List.forall_mem_cons.mpr ⟨hlt, hbefore⟩
      · next hge =>
        cases hcloser
        refine ⟨.intro [] (List.forall_mem_nil _) fun other hother => ?_, rfl⟩
        rcases List.mem_append.mp hother with hfront | hback
        · have := hbefore other hfront
          omega
        · rcases List.mem_cons.mp hback with rfl | hback
          · omega
          · have := hafter other hback
            omega

namespace Namespace

variable {ns : Namespace} {name other : String}

/-- A def is the first one, in the order of names, at the least distance from a name. -/
structure IsNearest (ns : Namespace) (name other : String) : Prop where
  /-- There is a def of this name. -/
  isDef : (ns.find? other).isSome = true
  /-- No def is closer. -/
  isLeast : ∀ candidate, (ns.find? candidate).isSome = true →
    nameDistance name other ≤ nameDistance name candidate
  /-- The defs before it are further away. -/
  isFirst : ∀ candidate, (ns.find? candidate).isSome = true → candidate < other →
    nameDistance name other < nameDistance name candidate

/-- Of the defs in order, the closest one is the first at the least distance. -/
theorem isNearest_of_isClosest (h : IsClosest name ns.names other) :
    ns.IsNearest name other := by
  have hpairwise : ns.names.Pairwise (· < ·) := ns.sorted.pairwise_keys
  have hmem (candidate : String) :
      (ns.find? candidate).isSome = true ↔ candidate ∈ ns.names := NameMap.mem_keys_iff.symm
  generalize ns.names = names at h hpairwise hmem
  obtain ⟨before, hbefore, hafter⟩ := h
  obtain ⟨-, htail, -⟩ := List.pairwise_append.mp hpairwise
  have hlater := (List.pairwise_cons.mp htail).1
  refine ⟨(hmem _).mpr (List.mem_append_right _ List.mem_cons_self), fun candidate hdef => ?_,
    fun candidate hdef hlt => ?_⟩
  · rcases List.mem_append.mp ((hmem _).mp hdef) with hfront | hback
    · exact Nat.le_of_lt (hbefore candidate hfront)
    · rcases List.mem_cons.mp hback with rfl | hback
      · exact Nat.le_refl _
      · exact hafter candidate hback
  · rcases List.mem_append.mp ((hmem _).mp hdef) with hfront | hback
    · exact hbefore candidate hfront
    · rcases List.mem_cons.mp hback with rfl | hback
      · exact absurd hlt (String.lt_irrefl _)
      · exact absurd (String.lt_trans hlt (hlater candidate hback)) (String.lt_irrefl _)

/-- For a name that is no def, either the nearest def is suggested and is at most two edits away, or
all defs are further away and none is suggested. -/
theorem suggestion?_cases (hunknown : ns.find? name = none) :
    (∃ other, ns.suggestion? name = some other ∧ ns.IsNearest name other ∧
      nameDistance name other ≤ 2) ∨
    (ns.suggestion? name = none ∧
      ∀ other, (ns.find? other).isSome = true → 2 < nameDistance name other) := by
  unfold suggestion? maxDistance
  cases hclosest : closest? name ns.names with
  | none =>
    refine Or.inr ⟨rfl, fun other hdef => ?_⟩
    have hmem : other ∈ ns.names := NameMap.mem_keys_iff.mpr hdef
    cases hnames : ns.names with
    | nil =>
      rw [hnames] at hmem
      cases hmem
    | cons =>
      rw [hnames] at hclosest
      cases hclosest
  | some pair =>
    obtain ⟨best, least⟩ := pair
    obtain ⟨hbest, rfl⟩ := isClosest_of_closest? hclosest
    have hnearest := isNearest_of_isClosest hbest
    have hne : name ≠ best := by
      rintro rfl
      have hdef := hnearest.isDef
      rw [hunknown] at hdef
      cases hdef
    have hpos := nameDistance_pos hne
    by_cases hle : nameDistance name best ≤ 2
    · exact Or.inl ⟨best, if_pos ⟨hpos, hle⟩, hnearest, hle⟩
    · refine Or.inr ⟨if_neg fun h => hle h.2, fun other hdef => ?_⟩
      exact Nat.lt_of_lt_of_le (Nat.lt_of_not_le hle) (hnearest.isLeast other hdef)

end Namespace

/-! ### The names in a filter -/

/-- A filter mentions a name as that of a def: as a type, as a relationship or as the term of one,
in one of its terms or in a group among them. -/
inductive Filter.Mentions : Filter → String → Prop where
  | type {f : Filter} {c : Conjunction} {name : String} (hc : c ∈ f)
    (ht : Term.test (.isA ⟨name⟩) ∈ c) : Mentions f name
  | relationship {f : Filter} {c : Conjunction} {r : Relationship} {target : Option Ref}
    (hc : c ∈ f) (ht : Term.test (.related r target) ∈ c) : Mentions f r.name
  | term {f : Filter} {c : Conjunction} {r : Relationship} {term : Symbol} {target : Option Ref}
    (hc : c ∈ f) (ht : Term.test (.related r target) ∈ c) (hterm : r.term = some term) :
    Mentions f term.name
  | group {f body : Filter} {c : Conjunction} {name : String} (hc : c ∈ f)
    (ht : Term.group body ∈ c) (h : Mentions body name) : Mentions f name

section Mentions

variable {f : Filter} {name : String}

theorem Filter.mentions_of_mem_tests {test : Test} (htest : test ∈ Filter.tests f)
    (hname : name ∈ test.defNames) : Filter.Mentions f name := by
  obtain ⟨c, hc, t, ht, htest⟩ := Filter.mem_tests.mp htest
  induction t generalizing f c with
  | test u =>
    obtain rfl : test = u := List.mem_singleton.mp htest
    cases test with
    | isA type =>
      obtain rfl : name = type.name := List.mem_singleton.mp hname
      exact .type hc ht
    | related r target =>
      rcases List.mem_cons.mp hname with rfl | hname
      · exact .relationship hc ht
      · obtain ⟨term, hterm, rfl⟩ := Option.map_eq_some_iff.mp (Option.mem_toList.mp hname)
        exact .term hc ht hterm
    | _ => cases hname
  | group body ih =>
    rw [Term.tests_group] at htest
    obtain ⟨d, hd, u, hu, hinner⟩ := Filter.mem_tests.mp htest
    exact .group hc ht (ih d hd u hu htest d hd hu hinner)

/-- The names that a filter mentions are those that its tests speak of. -/
theorem Filter.mentions_iff :
    Filter.Mentions f name ↔ ∃ test ∈ Filter.tests f, name ∈ test.defNames := by
  constructor
  · intro h
    induction h with
    | type hc ht =>
      exact ⟨_, mem_tests.mpr ⟨_, hc, _, ht, List.mem_cons_self⟩, List.mem_cons_self⟩
    | relationship hc ht =>
      exact ⟨_, mem_tests.mpr ⟨_, hc, _, ht, List.mem_cons_self⟩, List.mem_cons_self⟩
    | term hc ht hterm =>
      refine ⟨_, mem_tests.mpr ⟨_, hc, _, ht, List.mem_cons_self⟩, List.mem_cons_of_mem _ ?_⟩
      rw [hterm]
      exact List.mem_cons_self
    | group hc ht _ ih =>
      obtain ⟨test, htest, hname⟩ := ih
      rw [← Term.tests_group] at htest
      exact ⟨test, mem_tests.mpr ⟨_, hc, _, ht, htest⟩, hname⟩
  · rintro ⟨test, htest, hname⟩
    exact mentions_of_mem_tests htest hname

/-- The unknown defs of a filter are the names that it mentions and that are no defs. -/
theorem Filter.mem_unknownDefs_iff {ns : Namespace} :
    name ∈ Filter.unknownDefs ns f ↔ Filter.Mentions f name ∧ ns.find? name = none := by
  unfold Filter.unknownDefs Filter.defNames
  rw [List.mem_filter, mem_nameSet, List.mem_flatMap, Filter.mentions_iff,
    Option.isNone_iff_eq_none]

theorem Filter.pairwise_unknownDefs (ns : Namespace) (f : Filter) :
    (Filter.unknownDefs ns f).Pairwise (· < ·) :=
  (pairwise_nameSet _).filter _

end Mentions

/-- The warnings for a filter are one for each name that it mentions and that is no def, in order
of the names.  Each suggests the first def at the least distance if that is at most two edits away,
and no def otherwise; the distance is the least number of single edits. -/
theorem Filter.warnings_mentioned (ns : Namespace) (f : Filter) :
    ∃ names : List String,
      names.Pairwise (· < ·) ∧
      (∀ name, name ∈ names ↔ Filter.Mentions f name ∧ ns.find? name = none) ∧
      Filter.warnings ns f = names.map ns.warning ∧
      (∀ name ∈ names,
        (∃ other, ns.IsNearest name other ∧ nameDistance name other ≤ 2 ∧
          ns.warning name = "unknown def '" ++ name ++ "' (did you mean '" ++ other ++ "'?)") ∨
        ((∀ other, (ns.find? other).isSome = true → 2 < nameDistance name other) ∧
          ns.warning name = "unknown def '" ++ name ++ "'")) ∧
      ∀ a b : String, IsLeast {n | Edits n a.toList b.toList} (nameDistance a b) := by
  refine ⟨Filter.unknownDefs ns f, Filter.pairwise_unknownDefs ns f,
    fun name => Filter.mem_unknownDefs_iff, rfl, fun name hname => ?_, isLeast_nameDistance⟩
  have hunknown := (Filter.mem_unknownDefs_iff.mp hname).2
  unfold Namespace.warning
  rcases Namespace.suggestion?_cases hunknown with
    ⟨other, hother, hnearest, hle⟩ | ⟨hnone, hfar⟩
  · rw [hother]
    exact Or.inl ⟨other, hnearest, hle, rfl⟩
  · rw [hnone]
    exact Or.inr ⟨hfar, rfl⟩

/-- Two defs. -/
def airDefs : Namespace where
  defs := ⟨[("ahu", ⟨[("def", .symbol ⟨"ahu"⟩)]⟩), ("fan", ⟨[("def", .symbol ⟨"fan"⟩)]⟩)]⟩

/-- An unknown type, as close to one def as to the other, and a group with a known relationship and
an unknown term. -/
def unknownTerms : Filter :=
  [[.test (.isA ⟨"fu"⟩), .group [[.test (.related ⟨"fan", some ⟨"plenum"⟩⟩ none)]]]]

theorem Filter.warnings_mentioned_airDefs :
    (∃ names : List String, "plenum" ∈ names ∧ "fan" ∉ names ∧
      Filter.warnings airDefs unknownTerms = names.map airDefs.warning) ∧
    Filter.warnings airDefs unknownTerms =
      ["unknown def 'fu' (did you mean 'ahu'?)", "unknown def 'plenum'"] := by
  obtain ⟨names, -, hnames, hwarnings, -⟩ := Filter.warnings_mentioned airDefs unknownTerms
  have hinner : Filter.Mentions unknownTerms "plenum" :=
    .group List.mem_cons_self (List.mem_cons_of_mem _ List.mem_cons_self)
      (.term List.mem_cons_self List.mem_cons_self rfl)
  have hfan : "fan" ∉ names := fun h => nomatch ((hnames "fan").mp h).2
  exact ⟨⟨names, (hnames _).mpr ⟨hinner, rfl⟩, hfan, hwarnings⟩, by decide⟩

end TagFilter
