import TagFilter.Proofs.Evaluation.Hops
import TagFilter.Proofs.Lowering.Covering

/-!
# Lowered wildcards

A wildcard is lowered to comparisons along its path, repeated up to a depth.  Where the path has at
most one value on every record of the walk, and that value is a ref, the lowered text says exactly
that the walk comes to the target within this depth (`holds_lower_reaches`).

The values of the path repeated `n + 1` times are then what the walk comes to after `n` hops, unless
it has come to the target before (`reachesWithin_of_mem_repeated`).  The walk ends at the target, so
that nothing is asked of the records behind it; and it ends at a ref that it has met before, where
the repeated paths go on in circles but find nothing new (`searchWithin_eq_some_true_iff`).
-/

namespace TagFilter

/-- The record that the walk to a target goes on to from a record: the one that the first value of
the path points at, unless that is the target. -/
def walkNext? (store : Option Store) (p : Path) (target : String) (record : Record) :
    Option Record :=
  match (resolvePath store record p).head? with
  | some (.ref r) => if r.id = target then none else resolve? store r
  | _ => none

/-- On a record and on every record of the walk from there to a target, a path has at most one
value, and that is a ref. -/
def HasSingleRefs (store : Option Store) (p : Path) (target : String) (record : Record) : Prop :=
  ∀ other, Relation.ReflTransGen (fun a b => walkNext? store p target a = some b) record other →
    resolvePath store other p = [] ∨ ∃ r, resolvePath store other p = [.ref r]

section Walk

variable {store : Option Store} {p : Path} {record : Record} {target : Ref}

/-- What is found at some depth along single refs is found by the walk, at this depth or earlier. -/
theorem reachesWithin_of_mem_repeated {n : Nat} (h : HasSingleRefs store p target.id record)
    {r : Ref} (hr : .ref r ∈ resolvePath store record (p.repeated (n + 1)))
    (hid : r.id = target.id) : ReachesWithin store record p target (n + 1) := by
  induction n generalizing record with
  | zero =>
    rw [resolvePath_repeated] at hr
    rcases h record .refl with hnil | ⟨first, hsingle⟩
    · rw [hnil] at hr
      cases hr
    · have hhead : (resolvePath store record p).head? = some (.ref first) := by
        rw [hsingle, List.head?_cons]
      rw [hsingle] at hr
      cases List.mem_singleton.mp hr
      exact .of_head hhead hid
  | succ n ih =>
    rcases h record .refl with hnil | ⟨first, hsingle⟩
    · exact absurd hr (not_mem_repeated_of_eq_nil hnil)
    · have hhead : (resolvePath store record p).head? = some (.ref first) := by
        rw [hsingle, List.head?_cons]
      by_cases hfirst : first.id = target.id
      · exact .of_head hhead hfirst
      · obtain ⟨_, next, ⟨⟩, hresolve, hr⟩ := exists_next_of_mem_repeated hsingle nofun nofun hr
        have hnext : walkNext? store p target.id record = some next := by
          unfold walkNext?
          rw [hhead]
          exact (if_neg hfirst).trans hresolve
        exact .of_next hhead hresolve (ih (fun other hother => h other (.head hnext hother)) hr)

/-- The lowered wildcard holds of a record with single refs when the walk comes to the target. -/
theorem holdsIn_loweredReaches_iff {types : Option Namespace}
    (h : HasSingleRefs store p target.id record) :
    (loweredReaches p target).HoldsIn ⟨record, types, store⟩ ↔
      ReachesWithin store record p target maxDepth := by
  unfold Term.HoldsIn
  rw [means_loweredReaches]
  constructor
  · rintro ⟨n, hn, hholds⟩
    obtain ⟨r, hr, hid⟩ := Test.holds_compare_ref_iff.mp hholds
    exact (reachesWithin_of_mem_repeated h hr hid).mono hn
  · intro hreaches
    exact exists_depth_of_reachesWithin hreaches

end Walk

/-- A wildcard with a path and a target that can be written is read from its text, and its lowered
text is read as a filter that holds of a record with single refs exactly when the search of the
wildcard finds the target within the depth of the lowered text.  The answer of this search, if these
hops are enough for one, is that of the wildcard. -/
theorem holds_lower_reaches {p : Path} (hpath : p.IsPlain) {id : String} (hid : isId id = true)
    (ns : Namespace) :
    Filter.ofText? (Test.reaches p ⟨id, none⟩).toText = .ok [[.test (.reaches p ⟨id, none⟩)]] ∧
    ∃ g, Filter.ofText? ((Node.filter [[.test (.reaches p ⟨id, none⟩)]]).lower ns).text = .ok g ∧
      ∀ record store types,
        (HasSingleRefs store p id record →
          (Filter.holds ⟨record, types, store⟩ g = true ↔
            (Resolver.ofStore store).searchWithin p id maxDepth [] record = some true)) ∧
        ∀ answer, (Resolver.ofStore store).searchWithin p id maxDepth [] record = some answer →
          Filter.holds ⟨record, types, store⟩ [[.test (.reaches p ⟨id, none⟩)]] = answer := by
  have hread : SpellsTerm (Test.reaches p ⟨id, none⟩).toText (.test (.reaches p ⟨id, none⟩)) :=
    spells_reaches hpath hid
  have hlowered : SpellsFilter (lowerReaches p ⟨id, none⟩) [[loweredReaches p ⟨id, none⟩]] :=
    (spells_lowerReaches hpath hid).conjunction.filter
  have htext : ((Node.filter [[.test (.reaches p ⟨id, none⟩)]]).lower ns).text =
      lowerReaches p ⟨id, none⟩ := Filter.textWith_lone (Test.lower ns) _
  refine ⟨ofText?_eq_ok_iff.mpr hread.conjunction.filter, [[loweredReaches p ⟨id, none⟩]],
    htext ▸ ofText?_eq_ok_iff.mpr hlowered, fun record store types => ⟨fun hsingle => ?_, ?_⟩⟩
  · have hsearch : (Resolver.ofStore store).searchWithin p (Ref.mk id none).id maxDepth [] record =
        some true ↔ ReachesWithin store record p ⟨id, none⟩ maxDepth :=
      searchWithin_eq_some_true_iff
    rw [Filter.holds_lone, isProper_loweredReaches.holds_iff_means]
    exact (holdsIn_loweredReaches_iff hsingle).trans hsearch.symm
  · intro answer hsearch
    rw [Filter.holds_lone]
    exact Test.holds_reaches_of_searchWithin hsearch

/-- Equipment that another equipment serves. -/
def servedBy (id : String) : Record :=
  ⟨[("equipRef", .ref ⟨id, none⟩)]⟩

/-- A plant and an air handler that serve each other. -/
def circle : Store where
  records := ⟨[("ahu", servedBy "plant"), ("plant", servedBy "ahu")]⟩

/-- Whatever is searched for from equipment at the circle, each record has a single ref. -/
theorem hasSingleRefs_circle (target id : String) :
    HasSingleRefs (some circle) (.single "equipRef") target (servedBy id) := by
  intro other hwalk
  have hserved : ∃ next, other = servedBy next := by
    induction hwalk with
    | refl => exact ⟨id, rfl⟩
    | tail _ hstep ih =>
      obtain ⟨next, rfl⟩ := ih
      change (if next = target then none
        else if "ahu" = next then some (servedBy "plant")
        else if "plant" = next then some (servedBy "ahu") else none) = some _ at hstep
      grind
  obtain ⟨next, rfl⟩ := hserved
  exact Or.inr ⟨⟨next, none⟩, rfl⟩

theorem holds_lower_reaches_circle :
    HasSingleRefs (some circle) (.single "equipRef") "site" (servedBy "ahu") ∧
  ∃ g h,
      Filter.ofText? ((Node.filter
        [[.test (.reaches (.single "equipRef") ⟨"plant", none⟩)]]).lower Namespace.empty).text =
          .ok g ∧
      Filter.ofText? ((Node.filter
        [[.test (.reaches (.single "equipRef") ⟨"site", none⟩)]]).lower Namespace.empty).text =
          .ok h ∧
      Filter.holds ⟨servedBy "ahu", none, some circle⟩ g = true ∧
      ¬ Filter.holds ⟨servedBy "ahu", none, some circle⟩ h = true := by
  have hpath : (Path.single "equipRef").IsPlain := Path.isPlain_single (by decide)
  obtain ⟨-, g, hg, hplant⟩ :=
    holds_lower_reaches hpath (show isId "plant" = true by decide) .empty
  obtain ⟨-, h, hh, hsite⟩ := holds_lower_reaches hpath (show isId "site" = true by decide) .empty
  refine ⟨hasSingleRefs_circle "site" "ahu", g, h, hg, hh, ?_, fun hholds => ?_⟩
  · exact ((hplant _ _ none).1 (hasSingleRefs_circle "plant" "ahu")).mpr rfl
  · have hfound := ((hsite _ _ none).1 (hasSingleRefs_circle "site" "ahu")).mp hholds
    exact absurd hfound (by decide)

end TagFilter
