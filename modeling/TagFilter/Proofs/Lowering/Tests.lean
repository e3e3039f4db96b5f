import TagFilter.Proofs.Lowering.Types

/-!
# Lowered relationship tests and wildcards

The lowered text of a relationship test spells a term of tests for its ref tags, and that of a
wildcard a term of comparisons along the path repeated up to a depth.
-/

namespace TagFilter

/-! ### Relationship tests -/

/-- The term that the lowered text of a relationship test spells. -/
def Namespace.loweredRelated (ns : Namespace) (r : Relationship) : Term :=
  match ns.refTags r with
  | [] => .test (.hasTag r.name)
  | tags => anyTerm (tags.map fun tag => .test (.hasTag tag))

section Related

variable {ns : Namespace} {r : Relationship} {sense : Test → Prop}

/-- The ref tags of a relationship are defs. -/
theorem Namespace.mem_names_of_mem_refTags {tag : String} (h : tag ∈ ns.refTags r) :
    tag ∈ ns.names := by
  obtain ⟨entry, hentry, rfl⟩ := List.mem_map.mp h
  exact List.mem_map_of_mem (List.mem_filter.mp hentry).1

/-- The lowered text of a relationship test is read when its name and its ref tags are plain. -/
theorem Namespace.spells_lowerRelated (hname : IsPlainName r.name)
    (htags : ∀ tag ∈ ns.refTags r, IsPlainName tag) :
    SpellsTerm (lowerRelated ns r) (ns.loweredRelated r) := by
  unfold lowerRelated loweredRelated
  rw [refTags_taxonomy]
  cases htable : ns.refTags r with
  | nil => exact spells_hasTag hname
  | cons tag tags =>
    rw [htable] at htags
    have hgrouped := spells_grouped_or (List.cons_ne_nil tag tags) fun tag htag =>
      spells_hasTag (htags tag htag)
    rw [List.map_id'] at hgrouped
    simp only [anyOf_eq_grouped]
    exact hgrouped

/-- A lowered relationship test asks for one of the ref tags, if there are any. -/
theorem Namespace.means_loweredRelated (hne : ns.refTags r ≠ []) :
    (ns.loweredRelated r).Means sense ↔ ∃ tag ∈ ns.refTags r, sense (.hasTag tag) := by
  have hlowered : ns.loweredRelated r =
      anyTerm ((ns.refTags r).map fun tag => .test (.hasTag tag)) := by
    unfold loweredRelated
    cases htable : ns.refTags r with
    | nil => exact absurd htable hne
    | cons tag tags => rfl
  rw [hlowered, means_anyTerm_map hne]
  rfl

end Related

/-! ### Wildcards -/

/-- The term that the lowered text of a wildcard spells. -/
def loweredReaches (p : Path) (target : Ref) : Term :=
  anyTerm ((List.range maxDepth).map fun n =>
    .test (.compare (p.repeated (n + 1)) .equal (.ref target.written)))

section Reaches

variable {p : Path} {target : Ref} {sense : Test → Prop}

theorem depths_ne_nil : List.range maxDepth ≠ [] := by decide

theorem Path.isPlain_repeated (h : p.IsPlain) (times : Nat) : (p.repeated times).IsPlain := by
  have hsegments := (Path.isPlain_iff.mp h).1
  have hcopies : ∀ n, ∀ name ∈ p.copies n, isTagName name = true := by
    intro n
    induction n with
    | zero => exact List.forall_mem_nil _
    | succ n ih =>
      intro name hname
      exact (List.mem_append.mp hname).elim (hsegments name) (ih name)
  refine ⟨h.head, fun name hname => ?_⟩
  exact (List.mem_append.mp hname).elim (h.tail name) (hcopies _ name)

/-- The lowered text of a wildcard is read when its path and its target can be written. -/
theorem spells_lowerReaches (hpath : p.IsPlain) (htarget : isId target.id = true) :
    SpellsTerm (lowerReaches p target) (loweredReaches p target) := by
  unfold lowerReaches
  rw [anyOf_eq_grouped]
  refine spells_grouped_or depths_ne_nil fun n _ => ?_
  exact spells_compare (Path.isPlain_repeated hpath (n + 1)) .equal (tokenize_ref htarget)

/-- A lowered wildcard asks for a comparison at one of the depths. -/
theorem means_loweredReaches :
    (loweredReaches p target).Means sense ↔ ∃ n < maxDepth,
      sense (.compare (p.repeated (n + 1)) .equal (.ref target.written)) := by
  unfold loweredReaches
  rw [means_anyTerm_map depths_ne_nil]
  simp only [List.mem_range, Term.means_test]

theorem isProper_loweredReaches : (loweredReaches p target).IsProper :=
  isProper_anyTerm_map depths_ne_nil fun _ _ => trivial

end Reaches

end TagFilter
