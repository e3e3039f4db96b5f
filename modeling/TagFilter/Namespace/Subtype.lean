import TagFilter.Namespace.Basic
import TagFilter.Reachability

/-!
# Subtypes

A def is a subtype of what it can reach through the tag `is` of the defs, itself included.  A
record fits a type when one of the defs that it implements is a subtype of it; it implements a def
by having its tag, or all the tags that the name of the def joins.
-/

namespace TagFilter

namespace Namespace

/-- The names that can be reached from a def through its supertypes, in ascending order. -/
def supertypes (ns : Namespace) (name : String) : List String :=
  nameSet (reachable (ns.table "is") [name])

/-- Whether a def is a subtype of another, or the same. -/
def isSubtype (ns : Namespace) (name type : String) : Bool :=
  name == type || (ns.supertypes name).contains type

/-- The proper subtypes of a type among the defs, in ascending order. -/
def subtypesOf (ns : Namespace) (type : String) : List String :=
  ns.names.filter fun name => name != type && ns.isSubtype name type

/-- Whether a record has the tags that the name of a def asks for. -/
def hasTagsOf (record : Record) (name : String) : Bool :=
  (Symbol.mk name).parts.all fun part => record.contains part

/-- The names of the defs that a record implements. -/
def implementedBy (ns : Namespace) (record : Record) : List String :=
  ns.names.filter (hasTagsOf record)

/-- Whether a record is of a type. -/
def fits (ns : Namespace) (record : Record) (type : String) : Bool :=
  (ns.implementedBy record).any fun name => ns.isSubtype name type

end Namespace

end TagFilter
