import TagFilter.Loop
import TagFilter.Path
import TagFilter.Value.Basic

/-!
# Resolvers

A resolver finds the records that refs point at, in whatever way.  Paths lead from a record through
records held as values and through refs that a resolver finds; what is missing ends a path and is
never an error.

A search follows the first value of a path from record to record.  With an arbitrary resolver it may
go on forever, and then it has no answer.
-/

namespace TagFilter

/-- A way to find the records that refs point at. -/
structure Resolver where
  /-- The record that a ref points at, if there is one. -/
  find? : Ref → Option Record

namespace Resolver

/-- What finds records where there may be no resolver: without one no record is found. -/
def ofOption (resolver : Option Resolver) : Resolver :=
  ⟨fun r => resolver.bind fun resolver => resolver.find? r⟩

/-! ### Paths -/

/-- The value of a tag of the record that a ref points at. -/
def tag? (resolver : Resolver) (name : String) (r : Ref) : Option Value :=
  (resolver.find? r).bind fun record => record.find? name

/-- The values that a name leads to from a value: a tag of the record that the value is, of the
record that it points at, or of each record that one of its items points at. -/
def step (resolver : Resolver) (name : String) : Value → List Value
  | .dict record => (record.find? name).toList
  | .ref r => (resolver.tag? name r).toList
  | .list items => (items.filterMap Value.ref?).filterMap (resolver.tag? name)
  | _ => []

/-- The values that names lead to from values, up to the first name that leads nowhere. -/
def walk (resolver : Resolver) (values : List Value) : List String → List Value
  | [] => values
  | name :: names =>
    let next := values.flatMap (resolver.step name)
    if next.isEmpty then [] else resolver.walk next names

/-- The values that a path leads to from a record. -/
def resolvePath (resolver : Resolver) (record : Record) (p : Path) : List Value :=
  match record.find? p.head with
  | none => []
  | some first => resolver.walk [first] p.tail

/-! ### Searches -/

/-- A search that has come to a record. -/
structure Search where
  /-- The ids of the refs that have been followed. -/
  met : List String
  /-- The record. -/
  record : Record

/-- A round of the search for a target along a path: it ends at the target, at a ref that has been
followed before, and where the path has no ref to a record. -/
def searchRound (resolver : Resolver) (p : Path) (target : String) (s : Search) :
    Round Search Bool :=
  match (resolver.resolvePath s.record p).head? with
  | some (.ref r) =>
    if r.id = target then .done true
    else if r.id ∈ s.met then .done false
    else match resolver.find? r with
      | none => .done false
      | some next => .next ⟨r.id :: s.met, next⟩
  | _ => .done false

/-- The answer of the search for a target along a path, if it ends. -/
def search (resolver : Resolver) (p : Path) (target : String) (record : Record) : Option Bool :=
  loop (resolver.searchRound p target) ⟨[], record⟩

end Resolver

end TagFilter
