import TagFilter.NameMap

/-!
# Reachability

The nodes of a finite graph that can be reached from given ones.  The graph is a map from names to
the names that follow them; a name outside of the map is followed by none.  A node that has been
met is removed from the map, so that the search ends on every graph.
-/

namespace TagFilter

/-- The nodes that can be reached from the pending ones in any number of steps, each at least
once. -/
def reachable (next : NameMap (List String)) : List String → List String
  | [] => []
  | name :: pending =>
    match _h : next.find? name with
    | none => name :: reachable next pending
    | some names => name :: reachable (next.erase name) (names ++ pending)
termination_by pending => (next.size, pending.length)
decreasing_by
  · exact Prod.Lex.right _ (Nat.lt_succ_self _)
  · refine Prod.Lex.left _ _ (next.size_erase_lt name ?_)
    rw [‹next.find? name = some names›]
    rfl

/-- The names of a list in ascending order, each once. -/
def nameSet (names : List String) : List String :=
  (NameMap.ofList (names.map fun name => (name, ()))).keys

end TagFilter
