import TagFilter.Filter.Basic
import TagFilter.Namespace.Suggestion
import TagFilter.Reachability

/-!
# Warnings

The names of types, relationships and terms in a filter that are no defs of a namespace, each with
the def that may be meant.
-/

namespace TagFilter

/-- The names of defs that a test speaks of. -/
def Test.defNames : Test → List String
  | .isA type => [type.name]
  | .related r _ => r.name :: (r.term.map Symbol.name).toList
  | _ => []

/-- The names of defs that a filter speaks of, in ascending order. -/
def Filter.defNames (f : Filter) : List String :=
  nameSet ((Filter.tests f).flatMap Test.defNames)

/-- The names of defs that a filter speaks of and a namespace does not have, in ascending order. -/
def Filter.unknownDefs (ns : Namespace) (f : Filter) : List String :=
  (Filter.defNames f).filter fun name => (ns.find? name).isNone

namespace Namespace

/-- The warning for a name that is no def. -/
def warning (ns : Namespace) (name : String) : String :=
  match ns.suggestion? name with
  | some other => "unknown def '" ++ name ++ "' (did you mean '" ++ other ++ "'?)"
  | none => "unknown def '" ++ name ++ "'"

end Namespace

/-- The warnings for a filter. -/
def Filter.warnings (ns : Namespace) (f : Filter) : List String :=
  (Filter.unknownDefs ns f).map ns.warning

end TagFilter
