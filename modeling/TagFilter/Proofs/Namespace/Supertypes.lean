import Mathlib.Logic.Relation
import TagFilter.Namespace.Subtype
import TagFilter.Proofs.NameSets
import TagFilter.Proofs.Reachability
import TagFilter.Proofs.Success

/-!
# Supertypes as a closure

A def is a subtype of the names to which a path of `is` links leads from it, itself included.  The
links may lead in circles, and they may name types that are no defs; from these none leads on.

The argument goes from the search to the relation.  `mem_supertypes_iff` says that the search for
supertypes finds what the paths lead to.  The order of types then is the order of paths
(`isSubtype_iff`), and what is said of it, up to the types that a record fits
(`fits_of_isSubtype`), is put together from paths.
-/

namespace TagFilter

namespace Namespace

/-! ### Links and paths -/

/-- A def has another name among the symbols of its tag `is`. -/
def HasSupertype (ns : Namespace) (a b : String) : Prop :=
  ∃ record, ns.find? a = some record ∧
    ∃ value, record.find? "is" = some value ∧ ∃ symbol ∈ value.symbols, symbol.name = b

section Links

variable {ns : Namespace} {name type other : String} {record : Record}

theorem mem_namesIn {tag : String} :
    name ∈ namesIn tag record ↔
      ∃ value, record.find? tag = some value ∧ ∃ symbol ∈ value.symbols, symbol.name = name := by
  unfold namesIn
  cases record.find? tag with
  | none => simp
  | some value => simp

theorem leads_table_iff {a b : String} : (ns.table "is").Leads a b ↔ ns.HasSupertype a b := by
  unfold NameMap.Leads HasSupertype table find?
  simp only [NameMap.find?_map, Option.map_eq_some_iff, ← mem_namesIn]
  constructor
  · rintro ⟨_, ⟨record, hrecord, rfl⟩, hmem⟩
    exact ⟨record, hrecord, hmem⟩
  · rintro ⟨record, hrecord, hmem⟩
    exact ⟨_, ⟨record, hrecord, rfl⟩, hmem⟩

/-- The supertypes of a name are what the paths from it lead to. -/
theorem mem_supertypes_iff :
    type ∈ ns.supertypes name ↔ Relation.ReflTransGen ns.HasSupertype name type := by
  have hleads : (ns.table "is").Leads = ns.HasSupertype :=
    funext fun _ => funext fun _ => propext leads_table_iff
  unfold supertypes
  rw [mem_nameSet, mem_reachable_iff, hleads]
  simp only [List.mem_singleton, exists_eq_left]

/-- A def is a subtype of the names that the paths from it lead to. -/
theorem isSubtype_iff :
    ns.isSubtype name type = true ↔ Relation.ReflTransGen ns.HasSupertype name type := by
  unfold isSubtype
  rw [Bool.or_eq_true, beq_iff_eq, List.contains_iff_mem, mem_supertypes_iff]
  constructor
  · rintro (rfl | hpath)
    · exact .refl
    · exact hpath
  · exact Or.inr

theorem isSubtype_refl (ns : Namespace) (name : String) : ns.isSubtype name name = true :=
  isSubtype_iff.mpr .refl

theorem isSubtype_trans (hname : ns.isSubtype name type = true)
    (htype : ns.isSubtype type other = true) : ns.isSubtype name other = true :=
  isSubtype_iff.mpr ((isSubtype_iff.mp hname).trans (isSubtype_iff.mp htype))

/-- The subtypes of a type are the defs from which a path leads to it, without the type itself. -/
theorem mem_subtypesOf_iff :
    name ∈ ns.subtypesOf type ↔
      (ns.find? name).isSome = true ∧ name ≠ type ∧ ns.isSubtype name type = true := by
  unfold subtypesOf names find?
  rw [List.mem_filter, NameMap.mem_keys_iff, Bool.and_eq_true, bne_iff_ne]

/-- The subtypes of a type are in ascending order. -/
theorem pairwise_subtypesOf (ns : Namespace) (type : String) :
    (ns.subtypesOf type).Pairwise (· < ·) :=
  ns.sorted.pairwise_keys.filter _

theorem fits_iff :
    ns.fits record type = true ↔
      ∃ name, (ns.find? name).isSome = true ∧ hasTagsOf record name = true ∧
        ns.isSubtype name type = true := by
  unfold fits implementedBy names find?
  simp only [List.any_eq_true, List.mem_filter, NameMap.mem_keys_iff, and_assoc]

/-- A record that fits a type fits the supertypes of this type. -/
theorem fits_of_isSubtype (hfits : ns.fits record type = true)
    (hsub : ns.isSubtype type other = true) : ns.fits record other = true := by
  obtain ⟨name, hname, htags, hpath⟩ := fits_iff.mp hfits
  exact fits_iff.mpr ⟨name, hname, htags, isSubtype_trans hpath hsub⟩

end Links

/-- The search for the supertypes of a name ends, on links that lead in circles too, after at most
one step more than there are links, and finds the names to which a path leads.  A def is a subtype
of itself and of the supertypes of its supertypes; the subtypes of a type are listed in ascending
order, each once; and a record that fits a type fits all supertypes of this type. -/
theorem supertypes_iff_path (ns : Namespace) :
    (∀ name, (reachable (ns.table "is") [name]).length ≤ 1 + (ns.table "is").links) ∧
    (∀ name, (ns.supertypes name).Pairwise (· < ·) ∧
      ∀ type, type ∈ ns.supertypes name ↔ Relation.ReflTransGen ns.HasSupertype name type) ∧
    (∀ name type, ns.isSubtype name type = true ↔
      Relation.ReflTransGen ns.HasSupertype name type) ∧
    (∀ name, ns.isSubtype name name = true) ∧
    (∀ name type other, ns.isSubtype name type = true → ns.isSubtype type other = true →
      ns.isSubtype name other = true) ∧
    (∀ type, (ns.subtypesOf type).Pairwise (· < ·) ∧
      ∀ name, name ∈ ns.subtypesOf type ↔
        (ns.find? name).isSome = true ∧ name ≠ type ∧ ns.isSubtype name type = true) ∧
    ∀ record type other, ns.fits record type = true → ns.isSubtype type other = true →
      ns.fits record other = true := by
  refine ⟨fun name => ?_, fun name => ⟨?_, fun type => mem_supertypes_iff⟩,
    fun _ _ => isSubtype_iff, isSubtype_refl ns, fun _ _ _ => isSubtype_trans,
    fun type => ⟨pairwise_subtypesOf ns type, fun _ => mem_subtypesOf_iff⟩,
    fun _ _ _ => fits_of_isSubtype⟩
  · exact length_reachable_le _ _
  · exact pairwise_nameSet _

/-- The def of a type with some supertypes. -/
def typeDef (name : String) (supertypes : List String) : Record :=
  ⟨[("def", .symbol ⟨name⟩), ("is", .list (supertypes.map fun type => .symbol ⟨type⟩))]⟩

/-- Air handlers and units that are the same, of a type that has no def. -/
def airTypes : Namespace where
  defs := ⟨[("ahu", typeDef "ahu" ["unit"]), ("unit", typeDef "unit" ["ahu", "equip"])]⟩

theorem supertypes_iff_path_airTypes :
    ofList [typeDef "unit" ["ahu", "equip"], typeDef "ahu" ["unit"]] = .ok airTypes ∧
    "ahu" ∈ airTypes.supertypes "unit" ∧ "unit" ∈ airTypes.supertypes "ahu" ∧
    airTypes.isSubtype "ahu" "equip" = true ∧ airTypes.find? "equip" = none ∧
    (airTypes.subtypesOf "equip").Pairwise (· < ·) ∧ "ahu" ∈ airTypes.subtypesOf "equip" ∧
    airTypes.fits ⟨[("ahu", .marker)]⟩ "equip" = true := by
  have hof : ofList [typeDef "unit" ["ahu", "equip"], typeDef "ahu" ["unit"]] = .ok airTypes := rfl
  obtain ⟨-, hsupertypes, hsubtype, hrefl, htrans, hsubtypes, hfits⟩ :=
    supertypes_iff_path airTypes
  have hunit : airTypes.HasSupertype "ahu" "unit" :=
    ⟨_, rfl, _, rfl, ⟨"unit"⟩, List.mem_cons_self, rfl⟩
  have hahu : airTypes.HasSupertype "unit" "ahu" :=
    ⟨_, rfl, _, rfl, ⟨"ahu"⟩, List.mem_cons_self, rfl⟩
  have hequip : airTypes.HasSupertype "unit" "equip" :=
    ⟨_, rfl, _, rfl, ⟨"equip"⟩, List.mem_cons_of_mem _ List.mem_cons_self, rfl⟩
  have hall : airTypes.isSubtype "ahu" "equip" = true :=
    htrans "ahu" "unit" "equip" ((hsubtype _ _).mpr (.single hunit))
      ((hsubtype _ _).mpr (.single hequip))
  refine ⟨hof, ((hsupertypes _).2 _).mpr (.single hahu), ((hsupertypes _).2 _).mpr (.single hunit),
    hall, rfl, (hsubtypes _).1, ((hsubtypes _).2 _).mpr ⟨rfl, by decide, hall⟩, ?_⟩
  refine hfits _ "ahu" "equip" (fits_iff.mpr ⟨"ahu", rfl, ?_, hrefl "ahu"⟩) hall
  rfl

end Namespace

end TagFilter
