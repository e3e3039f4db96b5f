import TagFilter.Proofs.Evaluation.Hops
import TagFilter.Proofs.Filter.Meaning
import TagFilter.Proofs.Namespace.Related
import TagFilter.Proofs.Namespace.Supertypes

/-!
# Filters on growing contexts

A filter that asks for nothing to be missing goes on to hold when its context grows: when the record
gets new tags, the namespace new defs, or the store new records (`Node.holds_of_isPartOf`).

Growth is carried from the maps up.  Paths lead to all values that they led to before, and perhaps
to more (`resolvePath_subset`); defs are subtypes of all types that they were subtypes of; records
point at all records that they pointed at.  A relationship may even become transitive, which adds
chains of refs and takes none away.  A wildcard is the exception, for it follows the first of
several values only, and a new record may put another value before it.  It goes on to hold as long
as the store does not change.
-/

namespace TagFilter

/-! ### Growing maps -/

/-- Every name that has a value in a map has the same value in another one. -/
def NameMap.IsPartOf {α : Type} (m m' : NameMap α) : Prop :=
  ∀ name value, m.find? name = some value → m'.find? name = some value

namespace NameMap

variable {α : Type} {m m' : NameMap α} {name : String}

theorem IsPartOf.refl (m : NameMap α) : m.IsPartOf m :=
  fun _ _ h => h

theorem IsPartOf.contains (h : m.IsPartOf m') (hname : m.contains name = true) :
    m'.contains name = true := by
  obtain ⟨value, hvalue⟩ := Option.isSome_iff_exists.mp hname
  exact Option.isSome_iff_exists.mpr ⟨value, h name value hvalue⟩

/-- A map is part of the one with a value for a new name. -/
theorem isPartOf_insert (hfresh : m.find? name = none) (value : α) :
    m.IsPartOf (m.insert name value) := by
  intro other old hold
  have hne : name ≠ other := by
    rintro rfl
    rw [hfresh] at hold
    cases hold
  rw [find?_insert, if_neg hne]
  exact hold

/-- Under a new name no entry is replaced. -/
theorem subset_insertEntry {entries : List (String × α)} (hfresh : lookup name entries = none)
    (value : α) : entries ⊆ insertEntry name value entries := by
  induction entries with
  | nil => exact List.nil_subset _
  | cons first rest ih =>
    obtain ⟨key, old⟩ := first
    have hne : key ≠ name := by
      rintro rfl
      rw [lookup, if_pos rfl] at hfresh
      cases hfresh
    rw [lookup, if_neg hne] at hfresh
    unfold insertEntry
    split
    · exact List.subset_cons_self _ _
    · exact List.cons_subset_cons _ (ih hfresh)

end NameMap

/-! ### Growing contexts -/

/-- The defs of a namespace are defs of another one. -/
structure Namespace.IsPartOf (ns ns' : Namespace) : Prop where
  /-- Names keep their defs. -/
  defs : ns.defs.IsPartOf ns'.defs
  /-- No def is lost. -/
  entries : ns.defs.entries ⊆ ns'.defs.entries

/-- A ref that is resolved by a store is resolved in the same way by another one. -/
def ResolvesAs (store store' : Option Store) : Prop :=
  ∀ r record, resolve? store r = some record → resolve? store' r = some record

/-- A context is made from another one by adding to its parts. -/
structure Context.IsPartOf (cx cx' : Context) : Prop where
  /-- The record keeps its tags. -/
  record : cx.record.IsPartOf cx'.record
  /-- The namespace keeps its defs. -/
  types : ∀ ns, cx.types = some ns → ∃ ns', cx'.types = some ns' ∧ ns.IsPartOf ns'
  /-- The store keeps its records. -/
  store : ResolvesAs cx.store cx'.store

theorem Namespace.IsPartOf.refl (ns : Namespace) : ns.IsPartOf ns where
  defs := NameMap.IsPartOf.refl _
  entries := List.Subset.refl _

/-- A namespace is part of the one with a def of a new name. -/
theorem Namespace.isPartOf_insert {ns : Namespace} {name : String} (hfresh : ns.find? name = none)
    (record : Record) : ns.IsPartOf (ns.set name record) where
  defs := NameMap.isPartOf_insert hfresh record
  entries := NameMap.subset_insertEntry hfresh record

theorem Store.resolvesAs_insert {s : Store} {record : Record} {r : Ref}
    (hid : Record.id? record = some r) (hfresh : s.find? r.id = none) :
    ResolvesAs (some s) (some (s.insert record)) := by
  have hinsert : s.insert record = s.set r.id record := by
    unfold insert insert?
    rw [hid]
    rfl
  intro other old hold
  rw [hinsert]
  exact NameMap.isPartOf_insert hfresh record other.id old hold

/-! ### Paths -/

section Paths

variable {store store' : Option Store} {record record' : Record}

theorem tag?_of_resolvesAs (hstore : ResolvesAs store store') {name : String} {r : Ref}
    {v : Value} (h : (Resolver.ofStore store).tag? name r = some v) :
    (Resolver.ofStore store').tag? name r = some v := by
  obtain ⟨other, hother, hfind⟩ := Option.bind_eq_some_iff.mp h
  exact Option.bind_eq_some_iff.mpr ⟨other, hstore r other hother, hfind⟩

theorem step_subset (hstore : ResolvesAs store store') (name : String) (v : Value) :
    (Resolver.ofStore store).step name v ⊆ (Resolver.ofStore store').step name v := by
  intro w hw
  cases v with
  | ref r =>
    have hfound : (Resolver.ofStore store).tag? name r = some w := Option.mem_toList.mp hw
    exact Option.mem_toList.mpr (tag?_of_resolvesAs hstore hfound)
  | list items =>
    obtain ⟨r, hr, hfound⟩ := List.mem_filterMap.mp hw
    exact List.mem_filterMap.mpr ⟨r, hr, tag?_of_resolvesAs hstore hfound⟩
  | _ => exact hw

/-- A path leads to all values that it led to before. -/
theorem resolvePath_subset (hstore : ResolvesAs store store') (hrecord : record.IsPartOf record')
    (p : Path) : resolvePath store record p ⊆ resolvePath store' record' p := by
  rw [resolvePath, resolvePath, Resolver.resolvePath_eq_follow, Resolver.resolvePath_eq_follow]
  refine Resolver.follow_mono (step_subset hstore) ?_
  intro v hv
  exact Option.mem_toList.mpr (hrecord p.head v (Option.mem_toList.mp hv))

/-- New tags of the record do not matter to a path that leads to a value already. -/
theorem resolvePath_eq_of_isPartOf (hrecord : record.IsPartOf record') {p : Path}
    (h : resolvePath store record p ≠ []) :
    resolvePath store record' p = resolvePath store record p := by
  unfold resolvePath Resolver.resolvePath at h ⊢
  cases hhead : record.find? p.head with
  | none =>
    rw [hhead] at h
    exact absurd rfl h
  | some v => rw [hrecord p.head v hhead]

end Paths

/-! ### Types and relationships -/

namespace Namespace

variable {ns ns' : Namespace} {store store' : Option Store} {record record' : Record}
  {r : Relationship}

theorem HasSupertype.mono (hns : ns.IsPartOf ns') {a b : String} (h : ns.HasSupertype a b) :
    ns'.HasSupertype a b := by
  obtain ⟨record, hrecord, hlink⟩ := h
  exact ⟨record, hns.defs a record hrecord, hlink⟩

theorem isSubtype_mono (hns : ns.IsPartOf ns') {name type : String}
    (h : ns.isSubtype name type = true) : ns'.isSubtype name type = true :=
  isSubtype_iff.mpr ((isSubtype_iff.mp h).lift id fun _ _ => HasSupertype.mono hns)

/-- A record goes on to fit a type. -/
theorem fits_mono (hns : ns.IsPartOf ns') (hrecord : record.IsPartOf record') {type : String}
    (h : ns.fits record type = true) : ns'.fits record' type = true := by
  obtain ⟨name, hname, htags, hsubtype⟩ := fits_iff.mp h
  have hparts : hasTagsOf record' name = true :=
    List.all_eq_true.mpr fun part hpart => hrecord.contains (List.all_eq_true.mp htags part hpart)
  exact fits_iff.mpr ⟨name, hns.defs.contains hname, hparts, isSubtype_mono hns hsubtype⟩

theorem isRefTag_mono (hns : ns.IsPartOf ns') (h : ns.isRefTag r record = true) :
    ns'.isRefTag r record = true := by
  obtain ⟨value, hvalue, hterm⟩ := isRefTag_iff.mp h
  refine isRefTag_iff.mpr ⟨value, hvalue, fun term hmem => ?_⟩
  obtain ⟨symbol, hsymbol, hsubtype⟩ := hterm term hmem
  exact ⟨symbol, hsymbol, isSubtype_mono hns hsubtype⟩

theorem refTags_subset (hns : ns.IsPartOf ns') : ns.refTags r ⊆ ns'.refTags r := by
  intro tag htag
  obtain ⟨entry, hentry, rfl⟩ := List.mem_map.mp htag
  obtain ⟨hmem, htest⟩ := List.mem_filter.mp hentry
  exact List.mem_map_of_mem (List.mem_filter.mpr ⟨hns.entries hmem, isRefTag_mono hns htest⟩)

theorem PointsAt.mono (hns : ns.IsPartOf ns') (hrecord : record.IsPartOf record') {id : String}
    (h : ns.PointsAt r record id) : ns'.PointsAt r record' id := by
  obtain ⟨tag, htag, value, hvalue, hrefs⟩ := h
  exact ⟨tag, refTags_subset hns htag, value, hrecord tag value hvalue, hrefs⟩

theorem LeadsOn.mono (hns : ns.IsPartOf ns') (hstore : ResolvesAs store store') {a b : String}
    (h : ns.LeadsOn store r a b) : ns'.LeadsOn store' r a b := by
  obtain ⟨other, hother, hpoints⟩ := h
  exact ⟨other, hstore ⟨a, none⟩ other hother, hpoints.mono hns (NameMap.IsPartOf.refl other)⟩

theorem isTransitive_mono (hns : ns.IsPartOf ns') {name : String}
    (h : ns.isTransitive name = true) : ns'.isTransitive name = true := by
  unfold isTransitive at h ⊢
  cases hfind : ns.find? name with
  | none =>
    rw [hfind] at h
    cases h
  | some record =>
    have hfind' : ns'.find? name = some record := hns.defs name record hfind
    rw [hfind] at h
    rw [hfind']
    exact h

theorem Continues.mono (hns : ns.IsPartOf ns') (hstore : ResolvesAs store store') {a b : String}
    (h : ns.Continues store r a b) : ns'.Continues store' r a b :=
  ⟨isTransitive_mono hns h.1, h.2.mono hns hstore⟩

/-- A record goes on to stand in a relationship. -/
theorem isRelated_mono (hns : ns.IsPartOf ns') (hstore : ResolvesAs store store')
    (hrecord : record.IsPartOf record') {target : Option Ref}
    (h : ns.isRelated store record r target = true) :
    ns'.isRelated store' record' r target = true :=
  isRelated_of_pointsAt (fun _ => PointsAt.mono hns hrecord)
    (fun _ _ => Continues.mono hns hstore) h

end Namespace

/-! ### Tests and terms -/

section Holds

variable {cx cx' : Context}

theorem Test.holds_has_iff {p : Path} :
    (Test.has p).holds cx = true ↔ resolvePath cx.store cx.record p ≠ [] := by
  change (!(resolvePath cx.store cx.record p).isEmpty) = true ↔ _
  rw [Bool.not_eq_true', List.isEmpty_eq_false_iff]

theorem Test.holds_isA_iff {type : Symbol} :
    (Test.isA type).holds cx = true ↔
      ∃ ns, cx.types = some ns ∧ ns.fits cx.record type.name = true := by
  obtain ⟨record, types, store⟩ := cx
  constructor
  · intro h
    cases types with
    | none => cases h
    | some ns => exact ⟨ns, rfl, h⟩
  · rintro ⟨ns, rfl, h⟩
    exact h

theorem Test.holds_related_iff {r : Relationship} {target : Option Ref} :
    (Test.related r target).holds cx = true ↔
      ∃ ns, cx.types = some ns ∧ ns.isRelated cx.store cx.record r target = true := by
  obtain ⟨record, types, store⟩ := cx
  constructor
  · intro h
    cases types with
    | none => cases h
    | some ns => exact ⟨ns, rfl, h⟩
  · rintro ⟨ns, rfl, h⟩
    exact h

/-- A wildcard that holds follows a value of its path, which new tags do not replace. -/
theorem Test.holds_reaches_of_isPartOf (hrecord : cx.record.IsPartOf cx'.record)
    (hstore : cx'.store = cx.store) {p : Path} {target : Ref}
    (h : (Test.reaches p target).holds cx = true) : (Test.reaches p target).holds cx' = true := by
  obtain ⟨hops, n, hn, r, hid, hchain⟩ := Test.holds_reaches_iff.mp h
  have hvalues : resolvePath cx.store cx.record p ≠ [] := by
    intro hnil
    rw [hnil, List.head?_nil, chainFrom_none] at hchain
    cases hchain
  refine Test.holds_reaches_iff.mpr ⟨hops, n, hn, r, hid, ?_⟩
  rw [hstore, resolvePath_eq_of_isPartOf hrecord hvalues]
  exact hchain

/-- A test goes on to hold, if it does not ask for something to be missing. -/
theorem Test.holds_of_isPartOf (hcx : cx.IsPartOf cx') {test : Test}
    (hmissing : ∀ p, test ≠ .missing p)
    (hreaches : ∀ p target, test = .reaches p target → cx'.store = cx.store)
    (h : test.holds cx = true) : test.holds cx' = true := by
  have hpaths (p : Path) : resolvePath cx.store cx.record p ⊆ resolvePath cx'.store cx'.record p :=
    resolvePath_subset hcx.store hcx.record p
  cases test with
  | has p =>
    obtain ⟨v, hv⟩ := List.exists_mem_of_ne_nil _ (Test.holds_has_iff.mp h)
    exact Test.holds_has_iff.mpr (List.ne_nil_of_mem (hpaths p hv))
  | missing p => exact absurd rfl (hmissing p)
  | compare p op operand =>
    obtain ⟨v, hv, hholds⟩ := List.any_eq_true.mp h
    exact List.any_eq_true.mpr ⟨v, hpaths p hv, hholds⟩
  | isA type =>
    obtain ⟨ns, hns, hfits⟩ := Test.holds_isA_iff.mp h
    obtain ⟨ns', hns', hpart⟩ := hcx.types ns hns
    exact Test.holds_isA_iff.mpr ⟨ns', hns', Namespace.fits_mono hpart hcx.record hfits⟩
  | related r target =>
    obtain ⟨ns, hns, hrelated⟩ := Test.holds_related_iff.mp h
    obtain ⟨ns', hns', hpart⟩ := hcx.types ns hns
    have hgrown := Namespace.isRelated_mono hpart hcx.store hcx.record hrelated
    exact Test.holds_related_iff.mpr ⟨ns', hns', hgrown⟩
  | reaches p target =>
    exact Test.holds_reaches_of_isPartOf hcx.record (hreaches p target rfl) h

/-- A term holds of a context when its tests hold of it that hold of another one of which it
holds. -/
theorem Term.holds_mono {t : Term}
    (htests : ∀ test ∈ t.tests, test.holds cx = true → test.holds cx' = true)
    (h : t.holds cx = true) : t.holds cx' = true := by
  induction t with
  | test u => exact htests u List.mem_cons_self h
  | group body ih =>
    rw [Term.tests_group] at htests
    rw [Term.holds_group] at h ⊢
    obtain ⟨c, hc, hne, hall⟩ := Filter.holds_eq_true_iff.mp h
    refine Filter.holds_eq_true_iff.mpr ⟨c, hc, hne, fun t ht => ?_⟩
    refine ih c hc t ht (fun test htest => ?_) (hall t ht)
    exact htests test (Filter.mem_tests.mpr ⟨c, hc, t, ht, htest⟩)

/-- A filter that asks for nothing to be missing goes on to hold when its context grows, if the
store stays the same or no wildcard asks it. -/
theorem Node.holds_of_isPartOf (hcx : cx.IsPartOf cx') {n : Node}
    (hmissing : ∀ p, Test.missing p ∉ n.tests)
    (hreaches : (∃ p target, Test.reaches p target ∈ n.tests) → cx'.store = cx.store)
    (h : n.holds cx = true) : n.holds cx' = true := by
  rw [Node.holds_eq] at h ⊢
  refine Term.holds_mono (fun test htest => ?_) h
  rw [Term.tests_group, Node.tests_toFilter] at htest
  refine Test.holds_of_isPartOf hcx ?_ ?_
  · rintro p rfl
    exact hmissing p htest
  · rintro p target rfl
    exact hreaches ⟨p, target, htest⟩

/-- A filter that asks for nothing to be missing goes on to hold when the record gets tags that it
did not have, when a def is added under a new name, and, if no wildcard asks the store, when a
record is added to the store under a new id. -/
theorem Node.holds_after_addition {n : Node} (hmissing : ∀ p, Test.missing p ∉ n.tests)
    (h : n.holds cx = true) :
    (∀ record, cx.record.IsPartOf record → n.holds { cx with record := record } = true) ∧
    (∀ ns record symbol, cx.types = some ns → Namespace.symbolOf? record = some symbol →
      ns.find? symbol.name = none →
        ∃ ns', ns.insert record = .ok ns' ∧ n.holds { cx with types := some ns' } = true) ∧
    ((∀ p target, Test.reaches p target ∉ n.tests) →
      ∀ s record r, cx.store = some s → Record.id? record = some r → s.find? r.id = none →
        n.holds { cx with store := some (s.insert record) } = true) := by
  refine ⟨fun record hrecord => ?_, fun ns record symbol hns hsymbol hfresh => ?_,
    fun hreaches s record r hs hid hfresh => ?_⟩
  · have hcx : cx.IsPartOf { cx with record := record } :=
      ⟨hrecord, fun ns hns => ⟨ns, hns, Namespace.IsPartOf.refl ns⟩, fun _ _ hfind => hfind⟩
    exact Node.holds_of_isPartOf hcx hmissing (fun _ => rfl) h
  · refine ⟨ns.set symbol.name record, ?_, ?_⟩
    · unfold Namespace.insert
      rw [hsymbol]
    · have hpart := Namespace.isPartOf_insert hfresh record
      have hcx : cx.IsPartOf { cx with types := some (ns.set symbol.name record) } := by
        refine ⟨NameMap.IsPartOf.refl _, fun other hother => ?_, fun _ _ hfind => hfind⟩
        rw [hns] at hother
        cases hother
        exact ⟨_, rfl, hpart⟩
      exact Node.holds_of_isPartOf hcx hmissing (fun _ => rfl) h
  · have hcx : cx.IsPartOf { cx with store := some (s.insert record) } := by
      refine ⟨NameMap.IsPartOf.refl _, fun ns hns => ⟨ns, hns, Namespace.IsPartOf.refl ns⟩, ?_⟩
      rw [hs]
      exact Store.resolvesAs_insert hid hfresh
    refine Node.holds_of_isPartOf hcx hmissing ?_ h
    rintro ⟨p, target, hmem⟩
    exact absurd hmem (hreaches p target)

end Holds

/-- Pumps at a site with a name. -/
def pumpsAtNamedSites : Node :=
  .filter [[.test (.isA ⟨"pump"⟩), .test (.has ⟨"siteRef", ["dis"]⟩)]]

/-- A pump at a site, in a namespace that knows of pumps only. -/
def pumpAtSite : Context where
  record := ⟨[("pump", .marker), ("siteRef", .ref ⟨"hq", none⟩)]⟩
  types := some { defs := ⟨[("pump", ⟨[("def", .symbol ⟨"pump"⟩)]⟩)]⟩ }
  store := some { records := ⟨[("hq", ⟨[("dis", .str "HQ"), ("id", .ref ⟨"hq", none⟩)]⟩)]⟩ }

theorem Node.holds_after_addition_pump :
    pumpsAtNamedSites.holds pumpAtSite = true ∧
    pumpsAtNamedSites.holds
      { pumpAtSite with record := pumpAtSite.record.insert "dis" (.str "P1") } = true ∧
    (∀ ns, pumpAtSite.types = some ns →
      ∃ ns', ns.insert ⟨[("def", .symbol ⟨"equip"⟩)]⟩ = .ok ns' ∧
        pumpsAtNamedSites.holds { pumpAtSite with types := some ns' } = true) ∧
    ∀ s, pumpAtSite.store = some s →
      pumpsAtNamedSites.holds
        { pumpAtSite with store := some (s.insert ⟨[("id", .ref ⟨"plant", none⟩)]⟩) } = true := by
  have htests : pumpsAtNamedSites.tests = [.isA ⟨"pump"⟩, .has ⟨"siteRef", ["dis"]⟩] := rfl
  have hmissing : ∀ p, Test.missing p ∉ pumpsAtNamedSites.tests := by
    intro p
    rw [htests]
    simp
  have hreaches : ∀ p target, Test.reaches p target ∉ pumpsAtNamedSites.tests := by
    intro p target
    rw [htests]
    simp
  have hholds : pumpsAtNamedSites.holds pumpAtSite = true := rfl
  obtain ⟨hrecord, hdef, hstore⟩ := Node.holds_after_addition hmissing hholds
  refine ⟨hholds, hrecord _ (NameMap.isPartOf_insert rfl _), fun ns hns => ?_, fun s hs => ?_⟩
  · refine hdef ns _ ⟨"equip"⟩ hns rfl ?_
    cases hns
    rfl
  · refine hstore hreaches s _ ⟨"plant", none⟩ hs rfl ?_
    cases hs
    rfl

end TagFilter
