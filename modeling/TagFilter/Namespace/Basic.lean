import TagFilter.Value.Basic

/-!
# Namespaces

A namespace is a set of defs.  A def is a record whose tag `def` holds its name; its other tags say
which defs it is a subtype of (`is`), which tags imply it (`impliedBy`), whether it is a transitive
relationship (`transitive`), and, under the names of relationships, which terms it stands for.
-/

namespace TagFilter

/-- Defs by name. -/
structure Namespace where
  /-- The defs, in ascending order of names. -/
  defs : NameMap Record
  /-- The names are in order. -/
  sorted : defs.Sorted := by decide

namespace Namespace

/-- The namespace without defs. -/
def empty : Namespace := ⟨NameMap.empty, NameMap.sorted_empty⟩

/-- The namespace with the def of a name set. -/
def set (ns : Namespace) (name : String) (record : Record) : Namespace :=
  ⟨ns.defs.insert name record, ns.sorted.insert name record⟩

/-- The symbol of the def that a record describes. -/
def symbolOf? (record : Record) : Option Symbol :=
  (record.find? "def").bind Value.symbol?

/-- The namespace with one more def, which replaces any other of its name. -/
def insert (ns : Namespace) (record : Record) : Except ModelError Namespace :=
  match symbolOf? record with
  | some symbol => .ok (ns.set symbol.name record)
  | none => .error .missingDefSymbol

/-- The namespace of a list of defs. -/
def ofList (records : List Record) : Except ModelError Namespace :=
  records.foldlM insert empty

/-- The def of a name. -/
def find? (ns : Namespace) (name : String) : Option Record :=
  ns.defs.find? name

/-- The names of the defs, in ascending order. -/
def names (ns : Namespace) : List String :=
  ns.defs.keys

/-- The names of the symbols that a tag of a def holds. -/
def namesIn (tag : String) (record : Record) : List String :=
  match record.find? tag with
  | some value => value.symbols.map Symbol.name
  | none => []

/-- The names that a tag holds for each def. -/
def table (ns : Namespace) (tag : String) : NameMap (List String) :=
  ns.defs.map (namesIn tag)

/-- The names of the tags that imply a def when they all are present. -/
def impliedBy (ns : Namespace) (name : String) : List String :=
  ((ns.table "impliedBy").find? name).getD []

/-- Whether a relationship continues through the records that it leads to. -/
def isTransitive (ns : Namespace) (relationship : String) : Bool :=
  match ns.find? relationship with
  | some record => record.contains "transitive"
  | none => false

end Namespace

end TagFilter
