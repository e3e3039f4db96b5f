import TagFilter.Resolver

/-!
# Taxonomies

What filters ask of a namespace: which records are of a type, which relationships they stand in, and
which names stand in for others when a filter is rewritten.  A set of defs answers these questions
(`Namespace.taxonomy`), and so may anything else.

A relationship test may have to follow refs, and then it need not have an answer.
-/

namespace TagFilter

/-- A question about the relationships of a record. -/
structure Query where
  /-- The record. -/
  subject : Record
  /-- The relationship. -/
  relationship : Relationship
  /-- The ref to the record that the relationship has to lead to, or else to any record. -/
  target : Option Ref
  /-- What finds the records of refs. -/
  resolver : Option Resolver

/-- A namespace as filters see it. -/
structure Taxonomy where
  /-- The names of the tags that imply a def when they all are present. -/
  impliedBy : String → List String
  /-- Whether a record is of a type. -/
  fits : Record → String → Bool
  /-- The proper subtypes of a type. -/
  subtypesOf : String → List String
  /-- The ref tags of a relationship. -/
  refTags : Relationship → List String
  /-- Whether a record stands in a relationship, if the search for the answer ends. -/
  isRelated? : Query → Option Bool

/-- The answers of a namespace depend on the id of a ref alone.  Refs with the same id are the same
ref; the display name is informational only. -/
def Taxonomy.IgnoresDisplays (ns : Taxonomy) : Prop :=
  ∀ (subject : Record) (r : Relationship) (resolver : Option Resolver) {s t : Option Ref},
    s.map Ref.id = t.map Ref.id →
      ns.isRelated? ⟨subject, r, s, resolver⟩ = ns.isRelated? ⟨subject, r, t, resolver⟩

end TagFilter
