import TagFilter.Proofs.Lowering.Covering

/-!
# Lowering without widening

A lowered filter that is not marked for filtering again is no wider than the filter itself, as far
as data are what the lowered text takes them to be: types and relationships are known to the defs,
ref tags hold refs, and the path of a wildcard has single values.  Then a record on which the
lowered filter holds is one on which the filter holds with the namespace (`holds_of_holds_lower`).
Data of other shapes are not marked, and a ref tag that holds no ref is enough for a wider lowered
filter (`holds_lower_inputs`).
-/

namespace TagFilter

/-! ### What lowered tests find -/

section Records

variable {ns : Namespace} {cx : Context} {record : Record} {store : Option Store}

/-- A record that has all tags of a known type, or of one of its subtypes, is of the type. -/
theorem Namespace.fits_of_mem_typesOf {type : Symbol} (htype : type.name ∈ ns.names) {name : String}
    (hname : name ∈ ns.typesOf type)
    (hparts : ∀ part ∈ (Symbol.mk name).parts, record.contains part = true) :
    ns.fits record type.name = true := by
  have htags : hasTagsOf record name = true := List.all_eq_true.mpr hparts
  refine List.any_eq_true.mpr ⟨name, ?_⟩
  rcases List.mem_cons.mp hname with rfl | hname
  · refine ⟨List.mem_filter.mpr ⟨htype, htags⟩, ?_⟩
    rw [isSubtype, beq_self_eq_true, Bool.true_or]
  · obtain ⟨hdef, hsubtype⟩ := List.mem_filter.mp hname
    exact ⟨List.mem_filter.mpr ⟨hdef, htags⟩, (Bool.and_eq_true_iff.mp hsubtype).2⟩

/-- A record with a ref tag of a relationship that holds refs stands in the relationship. -/
theorem Namespace.isRelated_of_refs {r : Relationship} {tag : String} (htag : tag ∈ ns.refTags r)
    {v : Value} (hfind : record.find? tag = some v) (hrefs : v.refs ≠ []) :
    ns.isRelated store record r none = true := by
  obtain ⟨target, htarget⟩ := List.exists_mem_of_ne_nil _ hrefs
  exact isRelated_none_iff.mpr ⟨target.id, tag, htag, v, hfind, target, htarget, rfl⟩

/-- A comparison at some depth of a path with single values finds the target of a wildcard. -/
theorem reachesWithin_of_depth {p : Path} {target : Ref} {n : Nat}
    (hvalues : HasSingleValues cx.store p cx.record)
    (h : (Test.compare (p.repeated (n + 1)) .equal (.ref target.written)).holds cx = true) :
    ReachesWithin cx.store cx.record p target (n + 1) := by
  obtain ⟨r, hr, hid⟩ := Test.holds_compare_ref_iff.mp h
  exact ⟨n, Nat.lt_succ_self n, r, hid, chainFrom_of_mem_repeated hvalues hr⟩

end Records

/-! ### Tests -/

/-- What is needed of a test, and of a record with its store, for the lowered test to be no
wider. -/
structure Test.IsTight (ns : Namespace) (store : Option Store) (record : Record)
    (test : Test) : Prop where
  /-- The operand of a comparison lexes back. -/
  operand : ∀ v ∈ test.operand?, v.LexesBack
  /-- A type is known. -/
  type : ∀ type, test = .isA type → type.name ∈ ns.names
  /-- A relationship has ref tags. -/
  tags : ∀ r, test = .related r none → ns.refTags r ≠ []
  /-- The ref tags of a relationship hold refs where the record has them. -/
  refs : ∀ r, test = .related r none → ∀ tag ∈ ns.refTags r, ∀ v, record.find? tag = some v →
    v.refs ≠ []
  /-- The path of a wildcard has single values. -/
  values : ∀ p target, test = .reaches p target → HasSingleValues store p record

section Tests

variable {ns : Namespace} {test : Test} {record : Record} {store : Option Store}

/-- The lowered text of a tight test that is not marked as widened is read as a term that holds only
where the test holds with the namespace. -/
theorem Test.IsTight.exists_spells_lower (h : test.IsTight ns store record)
    (hscanned : test.IsScanned) (hwidened : test.isWidened = false)
    (hnames : ∀ name ∈ test.loweredNames ns, IsPlainName name) (types : Option Namespace) :
    ∃ t, SpellsTerm (test.lower ns) t ∧
      (t.HoldsIn ⟨record, types, store⟩ → test.holds ⟨record, some ns, store⟩ = true) := by
  cases test with
  | has p | missing p | compare p op operand =>
    obtain ⟨other, hspells, hholds⟩ := Test.exists_spells hscanned.1 h.operand
    exact ⟨.test other, hspells, fun hother => (hholds ⟨record, types, store⟩).symm.trans hother⟩
  | isA type =>
    refine ⟨_, Namespace.spells_lowerType (List.forall_mem_flatMap.mp hnames), fun hlowered => ?_⟩
    obtain ⟨name, hname, hparts⟩ := Namespace.means_loweredType.mp hlowered
    exact Namespace.fits_of_mem_typesOf (h.type type rfl) hname fun part hpart =>
      Test.holds_hasTag.mp (hparts part hpart)
  | related r target =>
    cases target with
    | some target => cases hwidened
    | none =>
      refine ⟨_, Namespace.spells_lowerRelated hscanned.1.1 hnames, fun hlowered => ?_⟩
      obtain ⟨tag, htag, hholds⟩ := (Namespace.means_loweredRelated (h.tags r rfl)).mp hlowered
      have hcontains : (record.find? tag).isSome = true := Test.holds_hasTag.mp hholds
      obtain ⟨v, hfind⟩ := Option.isSome_iff_exists.mp hcontains
      change ns.isRelated store record r none = true
      exact Namespace.isRelated_of_refs htag hfind (h.refs r rfl tag htag v hfind)
  | reaches p target =>
    refine ⟨_, spells_lowerReaches hscanned.1.1 hscanned.1.2, fun hlowered => ?_⟩
    obtain ⟨n, -, hholds⟩ := means_loweredReaches.mp hlowered
    have hreaches : ReachesWithin store record p target (n + 1) :=
      reachesWithin_of_depth (h.values p target rfl) hholds
    exact Test.holds_reaches_iff.mpr ⟨_, hreaches⟩

end Tests

/-- When the lowered text of a filter is a filter and is not marked for filtering again, it holds
only of records of which the filter holds with the namespace, if its tests are tight on them. -/
theorem holds_of_holds_lower {ns : Namespace} {text : String} {f g : Filter}
    (hread : Filter.ofText? text = .ok f) (hnames : ns.HasValidNames)
    (hrequery : ((Node.filter f).lower ns).requery = false)
    (hlowered : Filter.ofText? ((Node.filter f).lower ns).text = .ok g) {record : Record}
    {store : Option Store} (htight : ∀ test ∈ Filter.tests f, test.IsTight ns store record)
    {types : Option Namespace} (hholds : Filter.holds ⟨record, types, store⟩ g = true) :
    Filter.holds ⟨record, some ns, store⟩ f = true := by
  have hspells := ofText?_eq_ok_iff.mp hread
  have hplain := (exists_ofText?_lower_iff hread hnames).mp ⟨g, hlowered⟩
  have hwidened : ∀ test ∈ Filter.tests f, test.isWidened = false := fun test htest =>
    Bool.eq_false_iff.mpr fun htrue => List.any_eq_false.mp hrequery test htest htrue
  obtain ⟨read, hread', hnarrow⟩ := Filter.exists_spells hspells.isProper fun test htest =>
    (htight test htest).exists_spells_lower (hspells.isScanned test htest) (hwidened test htest)
      (hplain test htest) types
  obtain rfl : Filter.bind read f = g := by
    have hsame := (ofText?_eq_ok_iff.mpr hread').symm.trans hlowered
    exact Except.ok.inj hsame
  rw [Filter.holds_iff_means hread'.isProper, Filter.means_bind] at hholds
  rw [Filter.holds_iff_means hspells.isProper]
  exact hholds.mono hnarrow

/-- A ref tag for inputs of electricity. -/
def inputTypes : Namespace where
  defs := ⟨[("elecRef", ⟨[("def", .symbol ⟨"elecRef"⟩), ("inputs", .symbol ⟨"elec"⟩)]⟩),
    ("inputs", ⟨[("def", .symbol ⟨"inputs"⟩)]⟩)]⟩

/-- An equipment at a site, with a meter. -/
def meteredEquip : Record :=
  ⟨[("elecRef", .ref ⟨"meter", none⟩), ("siteRef", .ref ⟨"main", none⟩)]⟩

/-- A test for inputs. -/
def hasInputs : Test :=
  .related ⟨"inputs", none⟩ none

/-- A search for a site. -/
def reachesMain : Test :=
  .reaches (.single "siteRef") ⟨"main", none⟩

theorem spells_hasInputs : SpellsTerm "inputs?" (.test hasInputs) := by
  have hspells : SpellsTerm (relatedText ⟨"inputs", none⟩ none)
      (.test (.related ⟨"inputs", none⟩ (Option.map Ref.written none))) :=
    spells_related (by decide) nofun nofun
  exact hspells

theorem hasValidNames_inputTypes : inputTypes.HasValidNames := by
  unfold Namespace.HasValidNames
  decide

theorem holds_of_holds_lower_meteredEquip :
    ∃ f g, Filter.ofText? "inputs? and siteRef *== @main" = .ok f ∧
      Filter.ofText? ((Node.filter f).lower inputTypes).text = .ok g ∧
      ((Node.filter f).lower inputTypes).requery = false ∧
      Filter.holds ⟨meteredEquip, none, some .empty⟩ g = true ∧
      Filter.holds ⟨meteredEquip, some inputTypes, some .empty⟩ f = true := by
  have hpath : (Path.single "siteRef").IsPlain := Path.isPlain_single (by decide)
  have htarget : isId (Ref.mk "main" none).id = true := by decide
  have htext : "inputs? and siteRef *== @main" = "inputs?" ++ " and " ++ reachesMain.toText := by
    decide
  have hspells : SpellsFilter ("inputs?" ++ " and " ++ reachesMain.toText)
      [[.test hasInputs, .test reachesMain]] :=
    (spells_hasInputs.and (spells_reaches hpath htarget).conjunction).filter
  have hlower : ∀ test ∈ [hasInputs, reachesMain], ∃ t, SpellsTerm (test.lower inputTypes) t ∧
      t.HoldsIn ⟨meteredEquip, none, some .empty⟩ := by
    refine List.forall_mem_cons.mpr ⟨?_, List.forall_mem_singleton.mpr ?_⟩
    · refine ⟨_, Namespace.spells_lowerRelated (by decide) (by decide), ?_⟩
      exact (Namespace.means_loweredRelated (by decide)).mpr ⟨"elecRef", by decide, rfl⟩
    · exact ⟨_, spells_lowerReaches hpath htarget, means_loweredReaches.mpr ⟨0, by decide, rfl⟩⟩
  obtain ⟨read, hlowered, hall⟩ := Filter.exists_spells hspells.isProper hlower
  have hholds : Filter.holds ⟨meteredEquip, none, some .empty⟩
      (Filter.bind read [[.test hasInputs, .test reachesMain]]) = true := by
    rw [Filter.holds_iff_means hlowered.isProper, Filter.means_bind]
    refine ⟨_, List.mem_cons_self, List.forall_mem_cons.mpr ⟨?_, List.forall_mem_singleton.mpr ?_⟩⟩
    · exact hall _ List.mem_cons_self
    · exact hall _ (List.mem_cons_of_mem _ List.mem_cons_self)
  have htight : ∀ test ∈ [hasInputs, reachesMain],
      test.IsTight inputTypes (some .empty) meteredEquip := by
    refine List.forall_mem_cons.mpr ⟨?_, List.forall_mem_singleton.mpr ?_⟩
    · refine ⟨nofun, nofun, ?_, ?_, nofun⟩
      · rintro r ⟨⟩
        decide
      · rintro r ⟨⟩ tag htag v hfind
        cases List.mem_singleton.mp htag
        cases hfind
        exact List.cons_ne_nil _ _
    · refine ⟨nofun, nofun, nofun, nofun, ?_⟩
      rintro p target ⟨⟩ other hother
      cases hother.cases_head with
      | inl heq => exact heq ▸ Or.inr ⟨_, rfl, nofun, nofun⟩
      | inr hnext =>
        obtain ⟨next, hnext, -⟩ := hnext
        cases hnext
  have hread := ofText?_eq_ok_iff.mpr hspells
  have hg := ofText?_eq_ok_iff.mpr hlowered
  exact ⟨_, _, htext ▸ hread, hg, rfl, hholds,
    holds_of_holds_lower hread hasValidNames_inputTypes rfl hg htight hholds⟩

/-- A ref tag without a ref is found by the lowered relationship test, but is no relationship; the
lowered text is not marked. -/
theorem holds_lower_inputs :
    ∃ f g, Filter.ofText? "inputs?" = .ok f ∧ inputTypes.HasValidNames ∧
      ((Node.filter f).lower inputTypes).requery = false ∧
      Filter.ofText? ((Node.filter f).lower inputTypes).text = .ok g ∧
      Filter.holds ⟨⟨[("elecRef", .marker)]⟩, none, some .empty⟩ g = true ∧
      Filter.holds ⟨⟨[("elecRef", .marker)]⟩, some inputTypes, some .empty⟩ f = false := by
  have hread := ofText?_eq_ok_iff.mpr spells_hasInputs.conjunction.filter
  have hlowered : Filter.ofText? "elecRef" = .ok [[.test (.hasTag "elecRef")]] :=
    ofText?_eq_ok_iff.mpr (spells_hasTag (by decide)).conjunction.filter
  exact ⟨_, _, hread, hasValidNames_inputTypes, rfl, hlowered, by decide, by decide⟩

end TagFilter
