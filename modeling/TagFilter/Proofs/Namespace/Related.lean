import TagFilter.Namespace.Related
import TagFilter.Proofs.Reachability

/-!
# Relationships as chains of refs

A record stands in a relationship to another one exactly when its ref tags point at it or, where the
relationship is transitive, when a chain of refs leads to it, each of them held by the record that
the one before it points at (`isRelated_iff_chain`).

What counts is only which refs the ref tags hold: neither the order of tags nor that of refs in a
list matters, and a chain may come back to a record or end at a ref to no record.

The search through the refs remembers those that it has followed, and stops at the target.  It
finds what is reachable in the graph of the ids that the records of the store hold
(`leads_eq_some`), where `reachable` removes what it meets instead.
-/

namespace TagFilter

/-! ### The search through refs -/

/-- The ids that some tags hold for each record of a store. -/
def heldTable (tags : List String) (store : Option Store) : NameMap (List String) :=
  (storedRecords store).map fun record => (heldRefs tags record).map Ref.id

/-- The links that are left lead from the records that have not been met. -/
def IsUnmetTable (store : Option Store) (tags met : List String) (next : NameMap (List String)) :
    Prop :=
  ∀ r : Ref, next.find? r.id =
    if r.id ∈ met then none
    else (resolve? store r).map fun record => (heldRefs tags record).map Ref.id

section Search

variable {store : Option Store} {tags : List String} {target : String} {met : List String}
  {next : NameMap (List String)} {pending : List Ref}

theorem find?_heldTable (r : Ref) : (heldTable tags store).find? r.id =
    (resolve? store r).map fun record => (heldRefs tags record).map Ref.id := by
  rw [heldTable, NameMap.find?_map, find?_storedRecords]

theorem isUnmetTable_heldTable (store : Option Store) (tags : List String) :
    IsUnmetTable store tags [] (heldTable tags store) := by
  intro r
  rw [if_neg List.not_mem_nil, find?_heldTable]

theorem IsUnmetTable.erase (h : IsUnmetTable store tags met next) (id : String) :
    IsUnmetTable store tags (id :: met) (next.erase id) := by
  intro r
  rw [NameMap.find?_erase, h r]
  by_cases hr : r.id = id
  · rw [if_pos hr, if_pos (hr ▸ List.mem_cons_self)]
  · simp only [List.mem_cons, hr, false_or, if_false]

/-- A record without links may count as met. -/
theorem IsUnmetTable.cons (h : IsUnmetTable store tags met next) {id : String}
    (hnone : next.find? id = none) : IsUnmetTable store tags (id :: met) next := by
  intro r
  by_cases hr : r.id = id
  · rw [hr, hnone, if_pos List.mem_cons_self]
  · simp only [h r, List.mem_cons, hr, false_or]

/-- A round of the search that does not come to the target meets the next id of what is
reachable. -/
theorem exists_pursuitRound_next (hunmet : IsUnmetTable store tags met next) {r : Ref}
    (hid : r.id ≠ target) (pending : List Ref) :
    ∃ met' next' pending', (Resolver.ofStore store).pursuitRound tags target ⟨met, r :: pending⟩ =
        .next ⟨met', pending'⟩ ∧ IsUnmetTable store tags met' next' ∧
      reachable next (r.id :: pending.map Ref.id) =
        r.id :: reachable next' (pending'.map Ref.id) := by
  have hfind := hunmet r
  by_cases hmet : r.id ∈ met
  · rw [if_pos hmet] at hfind
    exact ⟨met, next, pending, Resolver.pursuitRound_met hid hmet, hunmet,
      reachable_of_find?_eq_none hfind⟩
  · rw [if_neg hmet] at hfind
    cases hresolve : resolve? store r with
    | none =>
      rw [hresolve, Option.map_none] at hfind
      exact ⟨r.id :: met, next, pending, Resolver.pursuitRound_unknown hid hmet hresolve,
        hunmet.cons hfind, reachable_of_find?_eq_none hfind⟩
    | some record =>
      rw [hresolve, Option.map_some] at hfind
      refine ⟨r.id :: met, next.erase r.id, heldRefs tags record ++ pending,
        Resolver.pursuitRound_record hid hmet hresolve, hunmet.erase r.id, ?_⟩
      rw [reachable_of_find?_eq_some hfind, List.map_append]

/-- The search from pending refs finds what is reachable from them. -/
theorem loop_pursuitRound (hunmet : IsUnmetTable store tags met next) :
    loop ((Resolver.ofStore store).pursuitRound tags target) ⟨met, pending⟩ =
      some ((reachable next (pending.map Ref.id)).contains target) := by
  induction hsteps : (reachable next (pending.map Ref.id)).length generalizing next met pending with
  | zero =>
    cases pending with
    | nil =>
      rw [loop_done Resolver.pursuitRound_nil, List.map_nil, reachable]
      rfl
    | cons r pending =>
      rw [List.map_cons, reachable] at hsteps
      split at hsteps <;> cases hsteps
  | succ steps ih =>
    cases pending with
    | nil =>
      rw [List.map_nil, reachable] at hsteps
      cases hsteps
    | cons r pending =>
      rw [List.map_cons] at hsteps ⊢
      by_cases hid : r.id = target
      · have hfound : target ∈ reachable next (r.id :: pending.map Ref.id) :=
          mem_reachable_iff.mpr ⟨r.id, List.mem_cons_self, hid ▸ .refl⟩
        rw [loop_done (Resolver.pursuitRound_target hid), List.contains_iff_mem.mpr hfound]
      · obtain ⟨met', next', pending', hround, hunmet', hreachable⟩ :=
          exists_pursuitRound_next hunmet hid pending
        rw [hreachable, List.length_cons] at hsteps
        rw [loop_next hround, ih hunmet' (Nat.succ.inj hsteps), hreachable, List.contains_cons,
          beq_false_of_ne (Ne.symm hid), Bool.false_or]

/-- In a store, tags lead from refs to what is reachable from the ids of the refs. -/
theorem leads_eq_some (store : Option Store) (tags : List String) (target : String)
    (first : List Ref) : (Resolver.ofStore store).leads tags target first =
      some ((reachable (heldTable tags store) (first.map Ref.id)).contains target) :=
  loop_pursuitRound (isUnmetTable_heldTable store tags)

end Search

namespace Namespace

/-! ### Chains of refs -/

/-- A ref tag of a relationship holds a ref to a record, by itself or in a list. -/
def PointsAt (ns : Namespace) (r : Relationship) (record : Record) (id : String) : Prop :=
  ∃ tag ∈ ns.refTags r, ∃ value, record.find? tag = some value ∧ ∃ ref ∈ value.refs, ref.id = id

/-- A ref to a record that the store knows leads on to what this record points at. -/
def LeadsOn (ns : Namespace) (store : Option Store) (r : Relationship) (a b : String) : Prop :=
  ∃ record, resolve? store ⟨a, none⟩ = some record ∧ ns.PointsAt r record b

section Related

variable {ns : Namespace} {store : Option Store} {record : Record} {r : Relationship}

/-- A def is a ref tag of a relationship when it has a tag of its name, under which stands a subtype
of the term if there is one. -/
theorem isRefTag_iff :
    ns.isRefTag r record = true ↔
      ∃ value, record.find? r.name = some value ∧
        ∀ term ∈ r.term, ∃ symbol ∈ value.symbols, ns.isSubtype symbol.name term.name = true := by
  unfold isRefTag
  cases record.find? r.name with
  | none => simp
  | some value =>
    cases r.term with
    | none => simp
    | some term => simp

theorem mem_map_heldRefs_iff {id : String} :
    id ∈ (heldRefs (ns.refTags r) record).map Ref.id ↔ ns.PointsAt r record id := by
  unfold heldRefs PointsAt
  rw [List.map_flatMap, List.mem_flatMap]
  refine exists_congr fun tag => and_congr_right fun _ => ?_
  cases record.find? tag with
  | none => simp
  | some value => simp

theorem leads_heldTable_iff {a b : String} :
    (heldTable (ns.refTags r) store).Leads a b ↔ ns.LeadsOn store r a b := by
  have hfind : (heldTable (ns.refTags r) store).find? a =
      (resolve? store ⟨a, none⟩).map fun other => (heldRefs (ns.refTags r) other).map Ref.id :=
    find?_heldTable ⟨a, none⟩
  unfold NameMap.Leads LeadsOn
  simp only [hfind, Option.map_eq_some_iff, ← mem_map_heldRefs_iff]
  constructor
  · rintro ⟨_, ⟨other, hother, rfl⟩, hmem⟩
    exact ⟨other, hother, hmem⟩
  · rintro ⟨other, hother, hmem⟩
    exact ⟨_, ⟨other, hother, rfl⟩, hmem⟩

/-- A record stands in a relationship when it points at some record. -/
theorem isRelated_none_iff :
    ns.isRelated store record r none = true ↔ ∃ id, ns.PointsAt r record id := by
  change (!(heldRefs (ns.refTags r) record).isEmpty) = true ↔ _
  simp only [Bool.not_eq_true', List.isEmpty_eq_false_iff_exists_mem, ← mem_map_heldRefs_iff,
    List.mem_map]
  exact ⟨fun ⟨ref, href⟩ => ⟨ref.id, ref, href, rfl⟩, fun ⟨_, ref, href, _⟩ => ⟨ref, href⟩⟩

/-- A record stands in a relationship to the records that it points at. -/
theorem isRelated_some_iff {target : Ref} (h : ns.isTransitive r.name = false) :
    ns.isRelated store record r (some target) = true ↔ ns.PointsAt r record target.id := by
  have hanswer := ns.isRelated?_eq_some store record r (some target)
  unfold isRelated? at hanswer
  simp only [h, Bool.false_eq_true, if_false] at hanswer
  rw [← Option.some.inj hanswer, List.any_eq_true, ← mem_map_heldRefs_iff, List.mem_map]
  simp only [beq_iff_eq]

/-- A record stands in a transitive relationship to the records that chains of refs lead to. -/
theorem isRelated_some_iff_of_isTransitive {target : Ref} (h : ns.isTransitive r.name = true) :
    ns.isRelated store record r (some target) = true ↔
      ∃ first, ns.PointsAt r record first ∧
        Relation.ReflTransGen (ns.LeadsOn store r) first target.id := by
  have hleads : (heldTable (ns.refTags r) store).Leads = ns.LeadsOn store r :=
    funext fun _ => funext fun _ => propext leads_heldTable_iff
  have hanswer := ns.isRelated?_eq_some store record r (some target)
  unfold isRelated? at hanswer
  simp only [h, if_true] at hanswer
  have hsearch := leads_eq_some store (ns.refTags r) target.id (heldRefs (ns.refTags r) record)
  rw [← Option.some.inj (hsearch.symm.trans hanswer), List.contains_iff_mem, mem_reachable_iff]
  simp only [mem_map_heldRefs_iff, hleads]

/-- A relationship continues from a record to another one. -/
def Continues (ns : Namespace) (store : Option Store) (r : Relationship) (a b : String) : Prop :=
  ns.isTransitive r.name = true ∧ ns.LeadsOn store r a b

/-- Whether a relationship is transitive or not, a record stands in it to those to which it
continues from a record that is pointed at. -/
theorem isRelated_some_iff_continues {target : Ref} :
    ns.isRelated store record r (some target) = true ↔
      ∃ first, ns.PointsAt r record first ∧
        Relation.ReflTransGen (ns.Continues store r) first target.id := by
  cases htransitive : ns.isTransitive r.name with
  | false =>
    have hends (a b : String) : ¬ ns.Continues store r a b := by
      rintro ⟨htrue, -⟩
      rw [htransitive] at htrue
      cases htrue
    rw [isRelated_some_iff htransitive]
    constructor
    · intro hpoints
      exact ⟨target.id, hpoints, .refl⟩
    · rintro ⟨first, hfirst, hpath⟩
      have heq : target.id = first := (Relation.reflTransGen_iff_eq (hends first)).mp hpath
      rw [heq]
      exact hfirst
  | true =>
    have hsame : ns.Continues store r = ns.LeadsOn store r :=
      funext fun _ => funext fun _ => propext (and_iff_right htransitive)
    rw [isRelated_some_iff_of_isTransitive htransitive, hsame]

/-- A record that points at all that another one points at, where the relationship continues in all
ways in which another one does, stands in the one if the other record stands in the other. -/
theorem isRelated_of_pointsAt {ns' : Namespace} {store' : Option Store} {record' : Record}
    {r' : Relationship} (hpoints : ∀ id, ns.PointsAt r record id → ns'.PointsAt r' record' id)
    (hcontinues : ∀ a b, ns.Continues store r a b → ns'.Continues store' r' a b)
    {target : Option Ref} (h : ns.isRelated store record r target = true) :
    ns'.isRelated store' record' r' target = true := by
  cases target with
  | none =>
    obtain ⟨id, hid⟩ := isRelated_none_iff.mp h
    exact isRelated_none_iff.mpr ⟨id, hpoints id hid⟩
  | some target =>
    obtain ⟨first, hfirst, hpath⟩ := isRelated_some_iff_continues.mp h
    refine isRelated_some_iff_continues.mpr ⟨first, hpoints first hfirst, ?_⟩
    exact hpath.lift id hcontinues

/-- What a record is related to depends only on what it points at and on how refs lead on. -/
theorem isRelated_congr_of_pointsAt {ns' : Namespace} {store' : Option Store} {record' : Record}
    (htransitive : ns'.isTransitive r.name = ns.isTransitive r.name)
    (hpoints : ∀ id, ns'.PointsAt r record' id ↔ ns.PointsAt r record id)
    (hleads : ∀ a b, ns'.LeadsOn store' r a b ↔ ns.LeadsOn store r a b) (target : Option Ref) :
    ns'.isRelated store' record' r target = ns.isRelated store record r target := by
  have hcontinues (a b : String) : ns'.Continues store' r a b ↔ ns.Continues store r a b := by
    unfold Continues
    rw [htransitive, hleads]
  rw [Bool.eq_iff_iff]
  constructor
  · exact isRelated_of_pointsAt (fun id => (hpoints id).mp) fun a b => (hcontinues a b).mp
  · exact isRelated_of_pointsAt (fun id => (hpoints id).mpr) fun a b => (hcontinues a b).mpr

end Related

/-- Without a target a record stands in a relationship when it points at any record.  It stands in a
relationship to the records that it points at and, if the relationship is transitive, to all that a
chain of refs leads to.  Namespaces, stores and records in which the same refs are held, in
whatever order, give the same answers. -/
theorem isRelated_iff_chain (ns : Namespace) (store : Option Store) (record : Record)
    (r : Relationship) :
    (ns.isRelated store record r none = true ↔ ∃ id, ns.PointsAt r record id) ∧
    (∀ target : Ref, ns.isTransitive r.name = false →
      (ns.isRelated store record r (some target) = true ↔ ns.PointsAt r record target.id)) ∧
    (∀ target : Ref, ns.isTransitive r.name = true →
      (ns.isRelated store record r (some target) = true ↔
        ∃ first, ns.PointsAt r record first ∧
          Relation.ReflTransGen (ns.LeadsOn store r) first target.id)) ∧
    ∀ (ns' : Namespace) (store' : Option Store) (record' : Record),
      ns'.isTransitive r.name = ns.isTransitive r.name →
      (∀ id, ns'.PointsAt r record' id ↔ ns.PointsAt r record id) →
      (∀ a b, ns'.LeadsOn store' r a b ↔ ns.LeadsOn store r a b) →
      ∀ target, ns'.isRelated store' record' r target = ns.isRelated store record r target :=
  ⟨isRelated_none_iff, fun _ h => isRelated_some_iff h,
    fun _ h => isRelated_some_iff_of_isTransitive h,
    fun _ _ _ => isRelated_congr_of_pointsAt⟩

/-- Defs for what feeds a device, which is transitive, and for where it is controlled from, which is
not. -/
def wiring : Namespace where
  defs := ⟨[("controls", ⟨[("def", .symbol ⟨"controls"⟩)]⟩),
    ("elecRef", ⟨[("def", .symbol ⟨"elecRef"⟩), ("inputs", .symbol ⟨"elec"⟩)]⟩),
    ("inputs", ⟨[("def", .symbol ⟨"inputs"⟩), ("transitive", .marker)]⟩),
    ("siteRef", ⟨[("controls", .symbol ⟨"site"⟩), ("def", .symbol ⟨"siteRef"⟩)]⟩)]⟩

/-- Two boards that feed each other. -/
def boards : Store where
  records := ⟨[("board", ⟨[("elecRef", .list [.ref ⟨"gone", none⟩, .ref ⟨"main", none⟩])]⟩),
    ("main", ⟨[("elecRef", .ref ⟨"board", none⟩)]⟩)]⟩

/-- A pump at a site that is fed by some sources. -/
def pumpFedBy (sources : List String) : Record :=
  ⟨[("elecRef", .list (sources.map fun id => .ref ⟨id, none⟩)), ("siteRef", .ref ⟨"hq", none⟩)]⟩

theorem isRelated_iff_chain_boards :
    (wiring.isTransitive "controls" = false ∧
      wiring.isRelated none (pumpFedBy []) ⟨"controls", none⟩ (some ⟨"hq", none⟩) = true) ∧
    (wiring.isTransitive "inputs" = true ∧
      wiring.isRelated (some boards) (pumpFedBy ["gone", "board"]) ⟨"inputs", none⟩
        (some ⟨"main", none⟩) = true) ∧
    (∀ id, wiring.PointsAt ⟨"inputs", none⟩ (pumpFedBy ["board", "gone"]) id ↔
        wiring.PointsAt ⟨"inputs", none⟩ (pumpFedBy ["gone", "board"]) id) ∧
      ∀ target, wiring.isRelated (some boards) (pumpFedBy ["board", "gone"]) ⟨"inputs", none⟩
          target =
        wiring.isRelated (some boards) (pumpFedBy ["gone", "board"]) ⟨"inputs", none⟩ target := by
  have hsite : wiring.PointsAt ⟨"controls", none⟩ (pumpFedBy []) "hq" :=
    ⟨"siteRef", by decide, _, rfl, _, List.mem_cons_self, rfl⟩
  have hboard : wiring.PointsAt ⟨"inputs", none⟩ (pumpFedBy ["gone", "board"]) "board" :=
    ⟨"elecRef", by decide, _, rfl, ⟨"board", none⟩, by decide, rfl⟩
  have hmain : wiring.LeadsOn (some boards) ⟨"inputs", none⟩ "board" "main" :=
    ⟨_, rfl, "elecRef", by decide, _, rfl, ⟨"main", none⟩, by decide, rfl⟩
  have hsame (id : String) : wiring.PointsAt ⟨"inputs", none⟩ (pumpFedBy ["board", "gone"]) id ↔
      wiring.PointsAt ⟨"inputs", none⟩ (pumpFedBy ["gone", "board"]) id := by
    rw [← mem_map_heldRefs_iff, ← mem_map_heldRefs_iff]
    change id ∈ ["board", "gone"] ↔ id ∈ ["gone", "board"]
    simp only [List.mem_cons, List.not_mem_nil, or_false]
    exact or_comm
  have hchain (record : Record) := isRelated_iff_chain wiring (some boards) record ⟨"inputs", none⟩
  refine ⟨⟨rfl, ?_⟩, ⟨rfl, ?_⟩, hsame, ?_⟩
  · exact ((isRelated_iff_chain wiring none _ ⟨"controls", none⟩).2.1 _ rfl).mpr hsite
  · exact ((hchain _).2.2.1 _ rfl).mpr ⟨"board", hboard, .single hmain⟩
  · exact (hchain _).2.2.2 wiring (some boards) _ rfl hsame fun _ _ => Iff.rfl

end Namespace

end TagFilter
