import TagFilter.Proofs.Lowering.Tightness
import TagFilter.Proofs.Namespace.Supertypes

/-!
# Lowered tests for known types

For a type that has a def, the lowered text of its type test says neither more nor less than the
test (`holds_lower_isA`).  The test goes from the tags of a record up: to the defs that the record
implements, and through their supertypes to the type.  The lowered text goes from the type down: to
its subtypes, and to the tags that their names join.  Both meet at a def that the record implements
and that is the type or one of its subtypes (`fits_iff_exists_type`), whatever circles the links
between the defs make.
-/

namespace TagFilter

/-- A record is of a known type exactly when it has all tags of the type or of one of its
subtypes. -/
theorem Namespace.fits_iff_exists_type {ns : Namespace} {type : Symbol}
    (htype : type.name ∈ ns.names) {record : Record} :
    ns.fits record type.name = true ↔
      ∃ name ∈ ns.typesOf type, ∀ part ∈ (Symbol.mk name).parts, record.contains part = true := by
  constructor
  · exact exists_type_of_fits
  · rintro ⟨name, hname, hparts⟩
    exact fits_of_mem_typesOf htype hname hparts

/-- The test for a known type is read from its text, and its lowered text is read as a filter that
holds, whatever the namespace, of the records of which the test holds with the defs. -/
theorem holds_lower_isA {ns : Namespace} {type : Symbol} (htype : type.name ∈ ns.names)
    (hparts : ∀ name ∈ ns.typesOf type, ∀ part ∈ (Symbol.mk name).parts, IsPlainName part) :
    Filter.ofText? type.toText = .ok [[.test (.isA type)]] ∧
    ∃ g, Filter.ofText? ((Node.filter [[.test (.isA type)]]).lower ns).text = .ok g ∧
      ∀ record store types, Filter.holds ⟨record, types, store⟩ g = true ↔
        Filter.holds ⟨record, some ns, store⟩ [[.test (.isA type)]] = true := by
  have hname : isId type.name = true := isId_of_isPlainName_parts (hparts _ List.mem_cons_self)
  have htext : ((Node.filter [[.test (.isA type)]]).lower ns).text = lowerType ns type :=
    Filter.textWith_lone (Test.lower ns) (.test (.isA type))
  have hlowered : SpellsFilter (lowerType ns type) [[ns.loweredType type]] :=
    (Namespace.spells_lowerType hparts).conjunction.filter
  refine ⟨ofText?_eq_ok_iff.mpr (spells_isA hname).conjunction.filter, [[ns.loweredType type]],
    htext ▸ ofText?_eq_ok_iff.mpr hlowered, fun record store types => ?_⟩
  have htags : (ns.loweredType type).holds ⟨record, types, store⟩ = true ↔
      ∃ name ∈ ns.typesOf type, ∀ part ∈ (Symbol.mk name).parts, record.contains part = true := by
    rw [Namespace.isProper_loweredType.holds_iff_means, Namespace.means_loweredType]
    simp only [Test.holds_hasTag]
  have hfits : (Term.test (.isA type)).holds ⟨record, some ns, store⟩ = ns.fits record type.name :=
    rfl
  rw [Filter.holds_lone, Filter.holds_lone, hfits, htags, Namespace.fits_iff_exists_type htype]

/-- Meters are devices and the other way round; a meter of alternating current is known by the tags
`ac` and `elec` alone. -/
def deviceTypes : Namespace where
  defs := ⟨[("ac-elec", Namespace.typeDef "ac-elec" ["meter"]),
    ("device", Namespace.typeDef "device" ["meter"]),
    ("meter", Namespace.typeDef "meter" ["device"])]⟩

theorem holds_lower_isA_deviceTypes :
    Filter.ofText? "^device" = .ok [[.test (.isA ⟨"device"⟩)]] ∧
    ∃ g, Filter.ofText? ((Node.filter [[.test (.isA ⟨"device"⟩)]]).lower deviceTypes).text = .ok g ∧
      Filter.holds ⟨⟨[("ac", .marker), ("elec", .marker)]⟩, none, none⟩ g = true ∧
      ¬ Filter.holds ⟨⟨[("ac", .marker)]⟩, none, none⟩ g = true := by
  have hparts : ∀ name ∈ deviceTypes.typesOf ⟨"device"⟩, ∀ part ∈ (Symbol.mk name).parts,
      IsPlainName part := by
    have hall : ∀ name ∈ "device" :: deviceTypes.names, ∀ part ∈ (Symbol.mk name).parts,
        IsPlainName part := by decide
    intro name hname
    exact hall name (List.mem_cons.mpr (Namespace.mem_typesOf hname))
  have hmeter : deviceTypes.HasSupertype "ac-elec" "meter" :=
    ⟨_, rfl, _, rfl, ⟨"meter"⟩, List.mem_cons_self, rfl⟩
  have hdevice : deviceTypes.HasSupertype "meter" "device" :=
    ⟨_, rfl, _, rfl, ⟨"device"⟩, List.mem_cons_self, rfl⟩
  have hsubtype : deviceTypes.isSubtype "ac-elec" "device" = true :=
    Namespace.isSubtype_iff.mpr ((Relation.ReflTransGen.single hmeter).tail hdevice)
  obtain ⟨hread, g, hlowered, hholds⟩ := holds_lower_isA (by decide) hparts
  refine ⟨hread, g, hlowered, (hholds _ none none).mpr ?_, fun h => ?_⟩
  · rw [Filter.holds_lone]
    exact List.any_eq_true.mpr ⟨"ac-elec", by decide, hsubtype⟩
  · exact absurd ((hholds _ none none).mp h) (by decide)

end TagFilter
