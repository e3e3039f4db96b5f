import TagFilter.Proofs.Evaluation.Hops
import TagFilter.Proofs.Filter.LexesBack
import TagFilter.Proofs.Lowering.Readable
import TagFilter.Proofs.Namespace.Related

/-!
# Lowering covers

A record on which a filter holds with a namespace is one on which the lowered filter holds without
any.  A record of a type has the tags of one of its subtypes, a related record has one of the ref
tags, and a chain of refs runs along the repeated path; no test stands under a negation of terms.
Only a wildcard can be narrower when it is lowered, namely where its target is further away than the
depth of the lowered text.
-/

namespace TagFilter

/-! ### What lowered tests ask for -/

section Records

variable {ns : Namespace} {cx : Context} {record : Record} {store : Option Store}

/-- The test for a tag holds of the records that have it. -/
theorem Test.holds_hasTag {name : String} :
    (Test.hasTag name).holds cx = true ↔ cx.record.contains name = true := by
  change (!(resolvePath cx.store cx.record (.single name)).isEmpty) = true ↔
    (cx.record.find? name).isSome = true
  unfold resolvePath
  rw [Resolver.resolvePath_eq_follow]
  change (!(cx.record.find? name).toList.isEmpty) = true ↔ (cx.record.find? name).isSome = true
  cases cx.record.find? name with
  | none => exact Iff.rfl
  | some value => exact Iff.rfl

/-- A record of a type has all tags of the type or of one of its subtypes. -/
theorem Namespace.exists_type_of_fits {type : Symbol} (h : ns.fits record type.name = true) :
    ∃ name ∈ ns.typesOf type, ∀ part ∈ (Symbol.mk name).parts, record.contains part = true := by
  obtain ⟨name, himplemented, hsubtype⟩ := List.any_eq_true.mp h
  obtain ⟨hname, htags⟩ := List.mem_filter.mp himplemented
  refine ⟨name, ?_, List.all_eq_true.mp htags⟩
  by_cases heq : name = type.name
  · rw [heq]
    exact List.mem_cons_self
  · refine List.mem_cons_of_mem _ (List.mem_filter.mpr ⟨hname, ?_⟩)
    rw [hsubtype, Bool.and_true, bne_iff_ne]
    exact heq

/-- A record that stands in a relationship has one of its ref tags. -/
theorem Namespace.exists_tag_of_isRelated {r : Relationship} {target : Option Ref}
    (h : ns.isRelated store record r target = true) :
    ∃ tag ∈ ns.refTags r, record.contains tag = true := by
  obtain ⟨id, tag, htag, value, hvalue, -⟩ : ∃ id, ns.PointsAt r record id := by
    cases target with
    | none => exact isRelated_none_iff.mp h
    | some target =>
      obtain ⟨first, hfirst, -⟩ := isRelated_some_iff_continues.mp h
      exact ⟨first, hfirst⟩
  exact ⟨tag, htag, Option.isSome_of_eq_some hvalue⟩

/-- A comparison for equality with a ref asks for a ref with the same id. -/
theorem Test.holds_compare_ref_iff {p : Path} {target : Ref} :
    (Test.compare p .equal (.ref target)).holds cx = true ↔
      ∃ r : Ref, .ref r ∈ resolvePath cx.store cx.record p ∧ r.id = target.id := by
  constructor
  · intro h
    obtain ⟨v, hv, hequal⟩ := List.any_eq_true.mp h
    cases v with
    | ref r =>
      have hid : (r.id == target.id) = true := hequal
      exact ⟨r, hv, beq_iff_eq.mp hid⟩
    | _ => cases hequal
  · rintro ⟨r, hr, hid⟩
    refine List.any_eq_true.mpr ⟨.ref r, hr, ?_⟩
    change (r.id == target.id) = true
    rw [hid, beq_self_eq_true]

/-- A wildcard that reaches its target within the depth of its lowered text is covered by it. -/
theorem exists_depth_of_reachesWithin {p : Path} {target : Ref}
    (h : ReachesWithin cx.store cx.record p target maxDepth) : ∃ n < maxDepth,
      (Test.compare (p.repeated (n + 1)) .equal (.ref target.written)).holds cx = true := by
  obtain ⟨n, hn, r, hid, hchain⟩ := h
  exact ⟨n, hn, Test.holds_compare_ref_iff.mpr ⟨r, mem_resolvePath_repeated hchain, hid⟩⟩

end Records

/-! ### Tests -/

/-- What is needed of a test for its lowered text to be read back. -/
structure Test.IsLowerable (ns : Namespace) (test : Test) : Prop where
  /-- The literals lex back. -/
  literals : ∀ v ∈ test.literals, v.LexesBack
  /-- The tags of a type are plain. -/
  type : ∀ type, test = .isA type → ∀ part ∈ type.parts, IsPlainName part
  /-- The ref tags of a relationship are single tags. -/
  tags : ∀ r target, test = .related r target →
    ∀ tag ∈ ns.refTags r, (Symbol.mk tag).isConjunct = false

/-- The tags that the names of the defs join are plain. -/
def Namespace.HasPlainParts (ns : Namespace) : Prop :=
  ∀ name ∈ ns.names, ∀ part ∈ (Symbol.mk name).parts, IsPlainName part

section Tests

variable {ns : Namespace} {test : Test}

/-- The names that the lowered text of a test brings in are plain. -/
theorem Test.IsLowerable.isPlainName (h : test.IsLowerable ns) (hnames : ns.HasPlainParts) :
    ∀ name ∈ test.loweredNames ns, IsPlainName name := by
  cases test with
  | has p | missing p | compare p op operand | reaches p target => exact List.forall_mem_nil _
  | isA type =>
    refine List.forall_mem_flatMap.mpr fun name hname => ?_
    rcases Namespace.mem_typesOf hname with rfl | hname
    · exact h.type type rfl
    · exact hnames name hname
  | related r target =>
    intro tag htag
    have hparts := Symbol.parts_of_not_isConjunct (h.tags r target rfl tag htag)
    refine hnames tag (Namespace.mem_names_of_mem_refTags htag) tag ?_
    rw [hparts]
    exact List.mem_cons_self

/-- The lowered text of a test is read as a term that holds without a namespace wherever the test
holds with it. -/
theorem Test.exists_lowered (hscanned : test.IsScanned) (h : test.IsLowerable ns)
    (hnames : ns.HasPlainParts) :
    ∃ t, SpellsTerm (test.lower ns) t ∧ ∀ record s,
      (∀ p target, test = .reaches p target → ReachesWithin (some s) record p target maxDepth) →
      test.holds ⟨record, some ns, some s⟩ = true → t.HoldsIn ⟨record, none, some s⟩ := by
  have hlowered := h.isPlainName hnames
  cases test with
  | has p | missing p | compare p op operand =>
    obtain ⟨other, hspells, hholds⟩ :=
      Test.exists_spells hscanned.1 fun v hv => h.literals v (Test.operand_mem_literals hv)
    refine ⟨.test other, hspells, fun record s _ htest => ?_⟩
    exact (hholds ⟨record, none, some s⟩).trans htest
  | isA type =>
    have hspells := Namespace.spells_lowerType (List.forall_mem_flatMap.mp hlowered)
    refine ⟨ns.loweredType type, hspells, fun record s _ htest => ?_⟩
    obtain ⟨name, hname, hparts⟩ := Namespace.exists_type_of_fits htest
    refine Namespace.means_loweredType.mpr ⟨name, hname, fun part hpart => ?_⟩
    exact Test.holds_hasTag.mpr (hparts part hpart)
  | related r target =>
    have hspells := Namespace.spells_lowerRelated hscanned.1.1 hlowered
    refine ⟨ns.loweredRelated r, hspells, fun record s _ htest => ?_⟩
    have hrelated : ns.isRelated (some s) record r target = true := htest
    obtain ⟨tag, htag, hcontains⟩ := Namespace.exists_tag_of_isRelated hrelated
    refine (Namespace.means_loweredRelated (List.ne_nil_of_mem htag)).mpr ⟨tag, htag, ?_⟩
    exact Test.holds_hasTag.mpr hcontains
  | reaches p target =>
    refine ⟨loweredReaches p target, spells_lowerReaches hscanned.1.1 hscanned.1.2, ?_⟩
    intro record s hreaches _
    exact means_loweredReaches.mpr (exists_depth_of_reachesWithin (hreaches p target rfl))

end Tests

/-- The lowered text of a filter that is read from a text is read as a filter that holds, without a
namespace, of every record of which the filter holds with it. -/
theorem ofText?_lower {ns : Namespace} {text : String} {f : Filter}
    (hread : Filter.ofText? text = .ok f) (h : ∀ test ∈ Filter.tests f, test.IsLowerable ns)
    (hnames : ns.HasPlainParts) :
    ∃ g, Filter.ofText? ((Node.filter f).lower ns).text = .ok g ∧ ∀ record s,
      (∀ p target, .reaches p target ∈ Filter.tests f →
        (Test.reaches p target).holds ⟨record, some ns, some s⟩ = true →
        ReachesWithin (some s) record p target maxDepth) →
      Filter.holds ⟨record, some ns, some s⟩ f = true →
      Filter.holds ⟨record, none, some s⟩ g = true := by
  have hspells := ofText?_eq_ok_iff.mp hread
  obtain ⟨read, hlowered, hcovers⟩ := Filter.exists_spells hspells.isProper fun test htest =>
    Test.exists_lowered (hspells.isScanned test htest) (h test htest) hnames
  refine ⟨_, ofText?_eq_ok_iff.mpr hlowered, fun record s hreaches hholds => ?_⟩
  rw [Filter.holds_iff_means hlowered.isProper, Filter.means_bind]
  rw [Filter.holds_iff_means hspells.isProper] at hholds
  refine hholds.mono fun test htest htrue => hcovers test htest record s ?_ htrue
  rintro p target rfl
  exact hreaches p target htest htrue

/-- Meters, and the meters of electricity among them. -/
def meterTypes : Namespace where
  defs := ⟨[("elec-meter", ⟨[("def", .symbol ⟨"elec-meter"⟩), ("is", .symbol ⟨"meter"⟩)]⟩),
    ("meter", ⟨[("def", .symbol ⟨"meter"⟩)]⟩)]⟩

/-- A meter of electricity at a site. -/
def siteMeter : Record :=
  ⟨[("elec", .marker), ("meter", .marker), ("siteRef", .ref ⟨"main", none⟩)]⟩

theorem ofText?_lower_meterTypes :
    ∃ f g, Filter.ofText? "^meter and siteRef *== @main" = .ok f ∧
      Filter.ofText? ((Node.filter f).lower meterTypes).text = .ok g ∧
      Filter.holds ⟨siteMeter, none, some .empty⟩ g = true := by
  have hmeter := spells_isA (show isId (Symbol.mk "meter").name = true by decide)
  have hpath : (Path.single "siteRef").IsPlain :=
    ⟨by decide, List.forall_mem_nil _⟩
  have hsite := spells_reaches hpath (show isId (Ref.mk "main" none).id = true by decide)
  have htext : "^meter and siteRef *== @main" = (Symbol.mk "meter").toText ++ " and " ++
    (Test.reaches (.single "siteRef") ⟨"main", none⟩).toText := by decide
  have hread := ofText?_eq_ok_iff.mpr (hmeter.and hsite.conjunction).filter
  have hlowerable : ∀ test ∈ [Test.isA ⟨"meter"⟩, .reaches (.single "siteRef") ⟨"main", none⟩],
      test.IsLowerable meterTypes := by
    intro test htest
    rcases List.mem_cons.mp htest with rfl | htest
    · refine ⟨List.forall_mem_nil _, ?_, nofun⟩
      rintro type ⟨⟩
      decide
    · cases List.mem_singleton.mp htest
      refine ⟨List.forall_mem_singleton.mpr ?_, nofun, nofun⟩
      exact ⟨_, tokenize_ref (by decide), rfl⟩
  have hnames : meterTypes.HasPlainParts := by
    unfold Namespace.HasPlainParts
    decide
  obtain ⟨g, hlowered, hcovers⟩ := ofText?_lower hread hlowerable hnames
  refine ⟨_, g, htext ▸ hread, hlowered, hcovers siteMeter .empty ?_ ?_⟩
  · intro p target htest _
    rcases List.mem_cons.mp htest with h | htest
    · cases h
    · cases List.mem_singleton.mp htest
      exact ⟨0, by decide, ⟨"main", none⟩, rfl, rfl⟩
  · refine Filter.holds_eq_true_iff.mpr ⟨_, List.mem_cons_self, List.cons_ne_nil _ _, ?_⟩
    intro t ht
    rcases List.mem_cons.mp ht with rfl | ht
    · exact List.any_eq_true.mpr ⟨"meter", by decide, rfl⟩
    · cases List.mem_singleton.mp ht
      exact Test.holds_reaches_iff.mpr ⟨1, .of_head rfl rfl⟩

end TagFilter
