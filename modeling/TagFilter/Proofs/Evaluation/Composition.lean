import Mathlib.Data.List.Basic
import TagFilter.Evaluation

/-!
# Paths in parts

What a path leads to is what its second part leads to from the values of its first part, wherever
the path is cut in two (`Resolver.resolvePath_split`).  This holds for every way to find the records
of refs, of which a store is one.

`Resolver.resolvePath` gives up at the first name that leads nowhere.  It loses nothing thereby,
since from no values every name leads nowhere (`Resolver.walk_eq_follow`).
-/

namespace TagFilter

namespace Resolver

/-- The values that names lead to from values, one name after the other. -/
def follow (resolver : Resolver) (values : List Value) (names : List String) : List Value :=
  names.foldl (fun values name => values.flatMap (resolver.step name)) values

/-- The values that a path leads to from the record that a ref points at. -/
def valuesAt (resolver : Resolver) (p : Path) (r : Ref) : List Value :=
  match resolver.find? r with
  | none => []
  | some record => resolver.resolvePath record p

/-- The values that a path leads to from a value. -/
def valuesOn (resolver : Resolver) (p : Path) : Value → List Value
  | .dict record => resolver.resolvePath record p
  | .ref r => resolver.valuesAt p r
  | .list items => (items.filterMap Value.ref?).flatMap (resolver.valuesAt p)
  | _ => []

variable {resolver : Resolver} {values : List Value} {names : List String}

theorem follow_cons (name : String) :
    resolver.follow values (name :: names) =
      resolver.follow (values.flatMap (resolver.step name)) names :=
  List.foldl_cons

theorem follow_append (others : List String) :
    resolver.follow values (names ++ others) =
      resolver.follow (resolver.follow values names) others :=
  List.foldl_append

/-- Values that come from several places lead where they lead from each place, in this order. -/
theorem follow_flatMap {α : Type} (xs : List α) (place : α → List Value) :
    resolver.follow (xs.flatMap place) names =
      xs.flatMap fun x => resolver.follow (place x) names := by
  induction names generalizing place with
  | nil => rfl
  | cons name names ih =>
    simp only [follow_cons, List.flatMap_assoc]
    exact ih fun x => (place x).flatMap (resolver.step name)

theorem follow_nil : resolver.follow [] names = [] :=
  follow_flatMap (α := Empty) [] fun _ => []

/-- The end at a name that leads nowhere loses no value. -/
theorem walk_eq_follow : resolver.walk values names = resolver.follow values names := by
  induction names generalizing values with
  | nil => rfl
  | cons name names ih =>
    rw [walk, follow_cons]
    split
    · next hempty => rw [List.isEmpty_iff.mp hempty, follow_nil]
    · exact ih

theorem resolvePath_eq_follow (record : Record) (p : Path) :
    resolver.resolvePath record p = resolver.follow (record.find? p.head).toList p.tail := by
  unfold resolvePath
  cases record.find? p.head with
  | none => exact follow_nil.symm
  | some first => exact walk_eq_follow

/-- From the tag of a ref's record, names lead where the path that begins with the tag does. -/
theorem follow_tag? (name : String) (r : Ref) :
    resolver.follow (resolver.tag? name r).toList names = resolver.valuesAt ⟨name, names⟩ r := by
  unfold tag? valuesAt
  cases resolver.find? r with
  | none => exact follow_nil
  | some record => exact (resolvePath_eq_follow record ⟨name, names⟩).symm

/-- A name leads from a value to where the path that begins with the name goes on. -/
theorem follow_step (name : String) (v : Value) :
    resolver.follow (resolver.step name v) names = resolver.valuesOn ⟨name, names⟩ v := by
  cases v with
  | dict record => exact (resolvePath_eq_follow record ⟨name, names⟩).symm
  | ref r => exact follow_tag? name r
  | list items =>
    rw [step, valuesOn, List.filterMap_eq_flatMap_toList, follow_flatMap]
    simp only [follow_tag?]
  | _ => exact follow_nil

/-- From a value, names lead where the path of the names does. -/
theorem follow_name_cons (name : String) :
    resolver.follow values (name :: names) = values.flatMap (resolver.valuesOn ⟨name, names⟩) := by
  rw [follow_cons, follow_flatMap]
  simp only [follow_step]

/-- More values lead to more values, when each value leads on to more values. -/
theorem follow_mono {resolver' : Resolver} {more : List Value}
    (hstep : ∀ name v, resolver.step name v ⊆ resolver'.step name v) (h : values ⊆ more) :
    resolver.follow values names ⊆ resolver'.follow more names := by
  induction names generalizing values more with
  | nil => exact h
  | cons name names ih =>
    refine ih fun w hw => ?_
    obtain ⟨v, hv, hw⟩ := List.mem_flatMap.mp hw
    exact List.mem_flatMap.mpr ⟨v, h hv, hstep name v hw⟩

/-- Each value leads on by itself. -/
theorem mem_follow_of_mem {v w : Value} (hv : v ∈ values) (hw : w ∈ resolver.follow [v] names) :
    w ∈ resolver.follow values names :=
  follow_mono (fun _ _ => List.Subset.refl _) (fun u hu => by rwa [List.mem_singleton.mp hu]) hw

/-- From a ref, a path leads to what it leads to from the record of the ref. -/
theorem follow_ref {r : Ref} {record : Record} (h : resolver.find? r = some record) (p : Path) :
    resolver.follow [.ref r] p.segments = resolver.resolvePath record p := by
  rw [Path.segments, follow_name_cons, List.flatMap_cons, List.flatMap_nil, List.append_nil,
    valuesOn, valuesAt, h]

/-- A repeated path leads on from the values of the path. -/
theorem resolvePath_repeated (record : Record) (p : Path) (n : Nat) :
    resolver.resolvePath record (p.repeated (n + 1)) =
      resolver.follow (resolver.resolvePath record p) (p.copies n) := by
  rw [resolvePath_eq_follow, resolvePath_eq_follow]
  exact follow_append _

end Resolver

/-- Whatever finds the records of refs, a path leads to the values that its second part leads to
from the values of its first part, in order and as often.  The end at a name that leads nowhere does
not count, and with the records of a store these are the values by which filters are evaluated. -/
theorem Resolver.resolvePath_split (resolver : Resolver) (record : Record) :
    (∀ head before name after,
      resolver.resolvePath record ⟨head, before ++ name :: after⟩ =
        (resolver.resolvePath record ⟨head, before⟩).flatMap (resolver.valuesOn ⟨name, after⟩)) ∧
    (∀ p, resolver.resolvePath record p =
      resolver.follow (record.find? p.head).toList p.tail) ∧
    ∀ store p, TagFilter.resolvePath store record p = (ofStore store).resolvePath record p := by
  refine ⟨fun head before name after => ?_, resolvePath_eq_follow record, fun _ _ => rfl⟩
  rw [resolvePath_eq_follow, resolvePath_eq_follow, follow_append, follow_name_cons]

end TagFilter
