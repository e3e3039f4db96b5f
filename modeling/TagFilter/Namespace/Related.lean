import TagFilter.Namespace.Subtype
import TagFilter.Store
import TagFilter.Taxonomy

/-!
# Relationships between records

A def that has the name of a relationship among its tags is a *ref tag* of the relationship: a
record stands in the relationship to the records that its ref tags point at.  A transitive
relationship also leads on from those records, as far as a resolver finds them.

With a store the search for a record that a transitive relationship leads to always ends
(`Resolver.isSome_leads`), and `Namespace.isRelated` is its answer.
-/

namespace TagFilter

namespace Namespace

/-- Whether a def is a ref tag of a relationship, for a term of which its own is a subtype. -/
def isRefTag (ns : Namespace) (r : Relationship) (record : Record) : Bool :=
  match record.find? r.name with
  | none => false
  | some value =>
    match r.term with
    | none => true
    | some term => value.symbols.any fun symbol => ns.isSubtype symbol.name term.name

/-- The ref tags of a relationship, in ascending order. -/
def refTags (ns : Namespace) (r : Relationship) : List String :=
  (ns.defs.entries.filter fun entry => ns.isRefTag r entry.2).map Prod.fst

end Namespace

/-- The refs that some tags of a record hold. -/
def heldRefs (tags : List String) (record : Record) : List Ref :=
  tags.flatMap fun tag =>
    match record.find? tag with
    | some value => value.refs
    | none => []

namespace Resolver

/-! ### Chains of refs -/

/-- A search through all refs that tags hold. -/
structure Pursuit where
  /-- The ids of the refs that have been followed. -/
  met : List String
  /-- The refs that come next. -/
  pending : List Ref

/-- A round of the search for a target through the refs that tags hold.  A ref that has been
followed before, or that points at no record, leads to nothing. -/
def pursuitRound (resolver : Resolver) (tags : List String) (target : String) (s : Pursuit) :
    Round Pursuit Bool :=
  match s.pending with
  | [] => .done false
  | r :: pending =>
    if r.id = target then .done true
    else if r.id ∈ s.met then .next ⟨s.met, pending⟩
    else match resolver.find? r with
      | none => .next ⟨r.id :: s.met, pending⟩
      | some record => .next ⟨r.id :: s.met, heldRefs tags record ++ pending⟩

/-- Whether tags lead from refs to a target, if the search ends. -/
def leads (resolver : Resolver) (tags : List String) (target : String) (first : List Ref) :
    Option Bool :=
  loop (resolver.pursuitRound tags target) ⟨[], first⟩

section Round

variable {resolver : Resolver} {tags : List String} {target : String} {met : List String} {r : Ref}
  {pending : List Ref}

theorem pursuitRound_nil : resolver.pursuitRound tags target ⟨met, []⟩ = .done false := rfl

theorem pursuitRound_target (hid : r.id = target) :
    resolver.pursuitRound tags target ⟨met, r :: pending⟩ = .done true :=
  if_pos hid

theorem pursuitRound_met (hid : r.id ≠ target) (hmet : r.id ∈ met) :
    resolver.pursuitRound tags target ⟨met, r :: pending⟩ = .next ⟨met, pending⟩ :=
  (if_neg hid).trans (if_pos hmet)

theorem pursuitRound_unknown (hid : r.id ≠ target) (hmet : r.id ∉ met)
    (hfind : resolver.find? r = none) :
    resolver.pursuitRound tags target ⟨met, r :: pending⟩ = .next ⟨r.id :: met, pending⟩ := by
  unfold pursuitRound
  simp only [if_neg hid, if_neg hmet, hfind]

theorem pursuitRound_record {record : Record} (hid : r.id ≠ target) (hmet : r.id ∉ met)
    (hfind : resolver.find? r = some record) :
    resolver.pursuitRound tags target ⟨met, r :: pending⟩ =
      .next ⟨r.id :: met, heldRefs tags record ++ pending⟩ := by
  unfold pursuitRound
  simp only [if_neg hid, if_neg hmet, hfind]

end Round

/-- How many records of a store a search has left to meet, and how many refs to follow. -/
def Pursuit.left (store : Option Store) (s : Pursuit) : Nat × Nat :=
  (((storedRecords store).unmet s.met).length, s.pending.length)

theorem lex_of_le_of_lt {a b m n : Nat} (hle : a ≤ b) (hlt : m < n) :
    Prod.Lex (· < ·) (· < ·) (a, m) (b, n) := by
  rcases Nat.lt_or_eq_of_le hle with h | h
  · exact Prod.Lex.left _ _ h
  · rw [h]
    exact Prod.Lex.right _ hlt

/-- A round of a search in a store leaves less to do: each record leads to further refs only
once. -/
theorem left_lt_of_pursuitRound {store : Option Store} {tags : List String} {target : String}
    {s next : Pursuit} (h : (ofStore store).pursuitRound tags target s = .next next) :
    Prod.Lex (· < ·) (· < ·) (next.left store) (s.left store) := by
  obtain ⟨met, pending⟩ := s
  cases pending with
  | nil => cases h
  | cons r pending =>
    have hless : pending.length < (r :: pending).length := Nat.lt_succ_self _
    by_cases hid : r.id = target
    · rw [pursuitRound_target hid] at h
      cases h
    · by_cases hmet : r.id ∈ met
      · rw [pursuitRound_met hid hmet] at h
        cases h
        exact lex_of_le_of_lt (Nat.le_refl _) hless
      · cases hfind : (ofStore store).find? r with
        | none =>
          rw [pursuitRound_unknown hid hmet hfind] at h
          cases h
          exact lex_of_le_of_lt (NameMap.length_unmet_cons_le _ _ _) hless
        | some record =>
          rw [pursuitRound_record hid hmet hfind] at h
          cases h
          refine Prod.Lex.left _ _ (NameMap.length_unmet_cons_lt ?_ hmet)
          rw [find?_storedRecords]
          exact Option.isSome_of_eq_some hfind

/-- A search through refs in a store has an answer. -/
theorem isSome_leads (store : Option Store) (tags : List String) (target : String)
    (first : List Ref) : ((ofStore store).leads tags target first).isSome = true :=
  isSome_loop (InvImage.wf (Pursuit.left store) (Prod.lex Nat.lt_wfRel Nat.lt_wfRel).wf)
    (fun _ _ h => left_lt_of_pursuitRound h) _

end Resolver

namespace Namespace

/-! ### Relationships -/

/-- Whether a record stands in a relationship, to any record or to a given one, if the search for
the answer ends. -/
def isRelated? (ns : Namespace) (q : Query) : Option Bool :=
  let tags := ns.refTags q.relationship
  let first := heldRefs tags q.subject
  match q.target with
  | none => some (!first.isEmpty)
  | some target =>
    if ns.isTransitive q.relationship.name then
      (Resolver.ofOption q.resolver).leads tags target.id first
    else some (first.any fun r => r.id == target.id)

/-- A set of defs as filters see it. -/
def taxonomy (ns : Namespace) : Taxonomy where
  impliedBy := ns.impliedBy
  fits := ns.fits
  subtypesOf := ns.subtypesOf
  refTags := ns.refTags
  isRelated? := ns.isRelated?

instance : Coe Namespace Taxonomy := ⟨taxonomy⟩

section Taxonomy

variable (ns : Namespace)

@[simp] theorem impliedBy_taxonomy (name : String) :
    ns.taxonomy.impliedBy name = ns.impliedBy name := rfl

@[simp] theorem fits_taxonomy (record : Record) (type : String) :
    ns.taxonomy.fits record type = ns.fits record type := rfl

@[simp] theorem subtypesOf_taxonomy (name : String) :
    ns.taxonomy.subtypesOf name = ns.subtypesOf name := rfl

@[simp] theorem refTags_taxonomy (r : Relationship) :
    ns.taxonomy.refTags r = ns.refTags r := rfl

end Taxonomy

/-- In a store every question about relationships has an answer. -/
theorem isSome_isRelated? (ns : Namespace) (store : Option Store) (record : Record)
    (r : Relationship) (target : Option Ref) :
    (ns.isRelated? ⟨record, r, target, store.map Store.resolver⟩).isSome = true := by
  unfold isRelated?
  cases target with
  | none => rfl
  | some target =>
    by_cases h : ns.isTransitive r.name = true
    · simp only [h, if_true]
      exact Resolver.isSome_leads store _ _ _
    · simp only [h]
      rfl

/-- Whether a record stands in a relationship, to any record or to a given one, where a store finds
the records of refs. -/
def isRelated (ns : Namespace) (store : Option Store) (record : Record) (r : Relationship)
    (target : Option Ref) : Bool :=
  (ns.isRelated? ⟨record, r, target, store.map Store.resolver⟩).get
    (ns.isSome_isRelated? store record r target)

theorem isRelated?_eq_some (ns : Namespace) (store : Option Store) (record : Record)
    (r : Relationship) (target : Option Ref) :
    ns.isRelated? ⟨record, r, target, store.map Store.resolver⟩ =
      some (ns.isRelated store record r target) :=
  (Option.some_get _).symm

end Namespace

end TagFilter
