import TagFilter.Proofs.Implied.Expansion
import TagFilter.Proofs.Lowering.Covering
import TagFilter.Proofs.Lowering.Readable

/-!
# Rewritten texts

Lowering a filter and expanding its implied tags yield texts, which hold names of defs where the
filter held others.  Symbols have a wider alphabet than tags, so that these texts need not be
filters; they are when the names that are brought in are plain tag names
(`exists_ofText?_rewritten`).
-/

namespace TagFilter

/-! ### The expansion of implied tags -/

theorem signed_signed (negated : Bool) (p : Prop) : Signed negated (Signed negated p) ↔ p := by
  cases negated with
  | false => exact Iff.rfl
  | true => exact Classical.not_not

/-- The expansion of a name is read when the texts along all names that it meets are. -/
theorem exists_spells_expandName {ns : Namespace} {negated : Bool} {text : String → String}
    {names : String → Prop} (htext : ∀ name, names name → ∃ t, SpellsTerm (text name) t)
    (hclosed : ∀ n, names n → ∀ other ∈ ns.impliedBy n, names other) {name : String}
    (hname : names name) :
    ∃ out t, Taxonomy.expandName ns negated text [] name = some out ∧ SpellsTerm out t := by
  have hread : ∀ n, ∃ t, names n → SpellsTerm (text n) t := by
    intro n
    by_cases hn : names n
    · obtain ⟨t, ht⟩ := htext n hn
      exact ⟨t, fun _ => ht⟩
    · exact ⟨.group [], fun h => absurd h hn⟩
  obtain ⟨read, hread⟩ := Classical.axiomOfChoice hread
  -- what the terms say plays no part here, so that any setting will do
  have halong : SpellsAlong ⟨NameMap.empty, none, none⟩ False negated text
      (fun n => Signed negated ((read n).HoldsFor ⟨NameMap.empty, none, none⟩)) names := fun n hn =>
    ⟨read n, hread n hn, (signed_signed negated _).symm, False.elim⟩
  obtain ⟨out, t, hexpand, hspells, -⟩ := spells_expandName halong hclosed [] hname
  exact ⟨out, t, hexpand, hspells⟩

section Tests

variable {ns : Namespace} {test : Test} {head : String}

theorem Test.isScanned_withHead (h : test.head? = some head) (hscanned : test.IsScanned)
    {name : String} (hname : IsPlainName name) : (test.withHead name).IsScanned := by
  cases test with
  | isA type => cases h
  | has p | missing p | compare p op operand => exact ⟨⟨hname, hscanned.1.tail⟩, hscanned.2⟩
  | related r target => exact ⟨⟨hname, hscanned.1.2⟩, hscanned.2⟩
  | reaches p target => exact ⟨⟨⟨hname, hscanned.1.1.tail⟩, hscanned.1.2⟩, hscanned.2⟩

theorem Test.exists_spells_expand_of_head (h : test.head? = some head)
    (hscanned : test.IsScanned) (hnames : ∀ name, ns.MetFrom head name → IsPlainName name) :
    ∃ out t, test.expand ns = some out ∧ SpellsTerm out t := by
  have htext : ∀ name, ns.MetFrom head name → ∃ t, SpellsTerm (test.withHead name).toText t :=
    fun name hname =>
      Test.exists_spells_of_isScanned (Test.isScanned_withHead h hscanned (hnames name hname))
  rw [Test.expand_eq_expandName h]
  exact exists_spells_expandName htext (fun _ hn _ hother => hn.tail hother)
    Relation.ReflTransGen.refl

/-- A test that has been read has an expanded text, which can be read again when all names that it
meets are plain. -/
theorem Test.exists_spells_expand (hscanned : test.IsScanned)
    (hnames : ∀ head ∈ test.heads ns, ∀ name, ns.MetFrom head name → IsPlainName name) :
    ∃ out t, test.expand ns = some out ∧ SpellsTerm out t := by
  cases test with
  | isA type =>
    have hmet : ∀ name ∈ ns.typesOf type, ∀ part ∈ (Symbol.mk name).parts,
        ∀ other, ns.MetFrom part other → IsPlainName other := fun name hname part hpart =>
      hnames part (List.mem_flatMap.mpr ⟨name, hname, hpart⟩)
    have hparts : ∀ name ∈ ns.typesOf type, ∀ part ∈ (Symbol.mk name).parts, IsPlainName part :=
      fun name hname part hpart => hmet name hname part hpart part Relation.ReflTransGen.refl
    have htests : ∀ u ∈ (ns.loweredType type).tests,
        ∃ out t, u.expand ns = some out ∧ SpellsTerm out t ∧ True := by
      intro u hu
      obtain ⟨name, hname, part, hpart, rfl⟩ := Namespace.mem_tests_loweredType hu
      have hplain := Path.isPlain_single (hparts name hname part hpart)
      have hscanned : (Test.hasTag part).IsScanned :=
        Test.isScanned_of_operand?_eq_none hplain rfl
      obtain ⟨out, t, hexpand, hspells⟩ :=
        Test.exists_spells_expand_of_head rfl hscanned (hmet name hname part hpart)
      exact ⟨out, t, hexpand, hspells, trivial⟩
    obtain ⟨out, read, hexpand, hspells, -⟩ :=
      Term.exists_expand Namespace.isProper_loweredType htests
    exact ⟨out, _, (Test.expand_isA hparts).trans hexpand, hspells⟩
  | has p | missing p | compare p op operand | reaches p target =>
    exact Test.exists_spells_expand_of_head rfl hscanned (hnames p.head List.mem_cons_self)
  | related r target =>
    exact Test.exists_spells_expand_of_head rfl hscanned (hnames r.name List.mem_cons_self)

end Tests

/-! ### Both rewritings -/

/-- The lowered text of a filter is a filter when the names that it brings in are plain.  A filter
has an expanded text when all names that the expansion meets are plain, and then this is a
filter. -/
theorem exists_ofText?_rewritten {ns : Namespace} {text : String} {f : Filter}
    (hread : Filter.ofText? text = .ok f) :
    ((∀ test ∈ Filter.tests f, ∀ name ∈ test.loweredNames ns, IsPlainName name) →
      ∃ g, Filter.ofText? ((Node.filter f).lower ns).text = .ok g) ∧
    ((∀ test ∈ Filter.tests f, ∀ head ∈ test.heads ns, ∀ name, ns.MetFrom head name →
        IsPlainName name) →
      ∃ out g, (Node.filter f).expand ns = some out ∧ Filter.ofText? out = .ok g) := by
  have hspells := ofText?_eq_ok_iff.mp hread
  constructor
  · intro hnames
    exact Filter.exists_ofText?_textWith hspells.isProper fun test htest =>
      Test.exists_spells_lower (hspells.isScanned test htest) (hnames test htest)
  · intro hnames
    have htests : ∀ test ∈ Filter.tests f,
        ∃ out t, test.expand ns = some out ∧ SpellsTerm out t ∧ True := by
      intro test htest
      obtain ⟨out, t, hexpand, hspelled⟩ :=
        Test.exists_spells_expand (hspells.isScanned test htest) (hnames test htest)
      exact ⟨out, t, hexpand, hspelled, trivial⟩
    obtain ⟨out, read, hexpand, hspelled, -⟩ := Filter.exists_expand hspells.isProper htests
    exact ⟨out, _, hexpand, ofText?_eq_ok_iff.mpr hspelled⟩

theorem exists_ofText?_rewritten_meterTypes :
    ∃ f g out g', Filter.ofText? "^meter" = .ok f ∧
      Filter.ofText? ((Node.filter f).lower meterTypes).text = .ok g ∧
      (Node.filter f).expand meterTypes = some out ∧ Filter.ofText? out = .ok g' := by
  have hmeter := spells_isA (show isId (Symbol.mk "meter").name = true by decide)
  have hread : Filter.ofText? "^meter" = .ok [[.test (.isA ⟨"meter"⟩)]] :=
    ofText?_eq_ok_iff.mpr hmeter.conjunction.filter
  have hparts : ∀ part ∈ (Test.isA ⟨"meter"⟩).heads meterTypes, part ∈ ["elec", "meter"] := by
    intro part hpart
    obtain ⟨name, hname, hpart⟩ := List.mem_flatMap.mp hpart
    have hall : ∀ name ∈ "meter" :: meterTypes.names, ∀ part ∈ (Symbol.mk name).parts,
        part ∈ ["elec", "meter"] := by decide
    exact hall name (List.mem_cons.mpr (Namespace.mem_typesOf hname)) part hpart
  have hplain : ∀ part ∈ ["elec", "meter"], IsPlainName part := by decide
  obtain ⟨hlower, hexpand⟩ := @exists_ofText?_rewritten meterTypes _ _ hread
  obtain ⟨g, hg⟩ := hlower (List.forall_mem_singleton.mpr fun name hname =>
    hplain name (hparts name hname))
  obtain ⟨out, g', hout, hg'⟩ := hexpand (List.forall_mem_singleton.mpr fun head hhead name hname =>
    hplain name (hname.mem_of_closed (hparts head hhead) (by decide)))
  exact ⟨_, g, out, g', hread, hg, hout, hg'⟩

/-- A type whose name holds a colon has no tag, and neither rewriting of it is a filter. -/
theorem ofText?_rewritten_colon :
    ∃ f, Filter.ofText? "^lib:ph" = .ok f ∧ Namespace.empty.HasValidNames ∧
      (∀ g, Filter.ofText? ((Node.filter f).lower Namespace.empty).text ≠ .ok g) ∧
      (Node.filter f).expand Namespace.empty = some "lib:ph" ∧
      ∀ g, Filter.ofText? "lib:ph" ≠ .ok g := by
  have htype := spells_isA (show isId (Symbol.mk "lib:ph").name = true by decide)
  have hread : Filter.ofText? "^lib:ph" = .ok [[.test (.isA ⟨"lib:ph"⟩)]] :=
    ofText?_eq_ok_iff.mpr htype.conjunction.filter
  have hnone : ∀ g, Filter.ofText? "lib:ph" ≠ .ok g :=
    (unreadable_name (isId_iff.mp (by decide)).2 (by decide)).ofText?_ne_ok
  refine ⟨_, hread, List.forall_mem_nil _, hnone, ?_, hnone⟩
  change Filter.expand Namespace.empty [[.test (.isA ⟨"lib:ph"⟩)]] = _
  have hlowered : lowerType Namespace.empty ⟨"lib:ph"⟩ = "lib:ph" := rfl
  rw [Filter.expand_lone, Term.expand, Test.expand]
  simp only [hlowered]
  cases hcase : Filter.ofText? "lib:ph" with
  | ok f => exact absurd hcase (hnone f)
  | error _ => rfl

end TagFilter
