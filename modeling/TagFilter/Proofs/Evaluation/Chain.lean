import Mathlib.Logic.Relation
import TagFilter.Proofs.Evaluation.Composition

/-!
# Chains of first values

A wildcard follows a chain of values: the first value of the path on the record, and from each ref
the first value of the path on the record that the ref points at.

What the chain comes to is among the values of the path repeated as often, of which it follows only
the first ones.  Where the path has single values, the chain comes to all of them
(`chainFrom_of_mem_repeated`).
-/

namespace TagFilter

/-- The value that a chain comes to in a number of steps. -/
def chainFrom (store : Option Store) (p : Path) : Nat → Option Value → Option Value
  | 0, value => value
  | n + 1, some (.ref r) => chainFrom store p n
      ((resolve? store r).bind fun record => (resolvePath store record p).head?)
  | _ + 1, _ => none

/-- A chain comes to a ref to the target within a number of hops, of which the first one leads from
the record to the first value of the path. -/
def ReachesWithin (store : Option Store) (record : Record) (p : Path) (target : Ref)
    (hops : Nat) : Prop :=
  ∃ n < hops, ∃ r : Ref, r.id = target.id ∧
    chainFrom store p n (resolvePath store record p).head? = some (.ref r)

/-- A repeated path leads on from the values of the path. -/
theorem resolvePath_repeated (store : Option Store) (record : Record) (p : Path) (n : Nat) :
    resolvePath store record (p.repeated (n + 1)) =
      (Resolver.ofStore store).follow (resolvePath store record p) (p.copies n) :=
  Resolver.resolvePath_repeated record p n

section Chain

variable {store : Option Store} {p : Path} {n : Nat}

theorem chainFrom_none : chainFrom store p n none = none := by
  cases n <;> rfl

/-- A chain that goes on after a value does so from a ref to a record on which the path has a
value. -/
theorem chainFrom_succ_eq_some {v w : Value} (h : chainFrom store p (n + 1) (some v) = some w) :
    ∃ r record, v = .ref r ∧ resolve? store r = some record ∧
      ∃ u, (resolvePath store record p).head? = some u ∧ chainFrom store p n (some u) = some w := by
  cases v with
  | ref r =>
    rw [chainFrom] at h
    cases hresolve : resolve? store r with
    | none =>
      rw [hresolve, Option.bind_none, chainFrom_none] at h
      cases h
    | some record =>
      rw [hresolve, Option.bind_some] at h
      cases hhead : (resolvePath store record p).head? with
      | none =>
        rw [hhead, chainFrom_none] at h
        cases h
      | some u =>
        rw [hhead] at h
        exact ⟨r, record, rfl, hresolve, u, hhead, h⟩
  | _ => cases h

section Reaches

variable {record next : Record} {r target : Ref} {hops : Nat}

/-- A first value that is the target is reached at once. -/
theorem ReachesWithin.of_head (hhead : (resolvePath store record p).head? = some (.ref r))
    (hid : r.id = target.id) : ReachesWithin store record p target (hops + 1) :=
  ⟨0, Nat.succ_pos hops, r, hid, hhead⟩

/-- What is reached from the record of the first value is reached with one hop more. -/
theorem ReachesWithin.of_next (hhead : (resolvePath store record p).head? = some (.ref r))
    (hresolve : resolve? store r = some next) (h : ReachesWithin store next p target hops) :
    ReachesWithin store record p target (hops + 1) := by
  obtain ⟨n, hn, s, hs, hchain⟩ := h
  refine ⟨n + 1, Nat.succ_lt_succ hn, s, hs, ?_⟩
  rw [hhead, chainFrom, hresolve, Option.bind_some]
  exact hchain

/-- Fewer hops are among more hops. -/
theorem ReachesWithin.mono {more : Nat} (h : ReachesWithin store record p target hops)
    (hle : hops ≤ more) : ReachesWithin store record p target more := by
  obtain ⟨n, hn, hchain⟩ := h
  exact ⟨n, Nat.lt_of_lt_of_le hn hle, hchain⟩

end Reaches

/-- The value of a chain is among the values of the path repeated as often. -/
theorem mem_follow_of_chainFrom {v w : Value} (h : chainFrom store p n (some v) = some w) :
    w ∈ (Resolver.ofStore store).follow [v] (p.copies n) := by
  induction n generalizing v with
  | zero =>
    cases h
    exact List.mem_cons_self
  | succ n ih =>
    obtain ⟨r, record, rfl, hresolve, u, hhead, hrest⟩ := chainFrom_succ_eq_some h
    have hu : u ∈ resolvePath store record p := List.mem_of_head? hhead
    rw [Path.copies, Resolver.follow_append, Resolver.follow_ref hresolve]
    exact Resolver.mem_follow_of_mem hu (ih hrest)

/-- The value of the chain from a record is among the values of the path repeated as often. -/
theorem mem_resolvePath_repeated {record : Record} {w : Value}
    (h : chainFrom store p n (resolvePath store record p).head? = some w) :
    w ∈ resolvePath store record (p.repeated (n + 1)) := by
  cases hhead : (resolvePath store record p).head? with
  | none =>
    rw [hhead, chainFrom_none] at h
    cases h
  | some v =>
    rw [hhead] at h
    have hv : v ∈ resolvePath store record p := List.mem_of_head? hhead
    rw [resolvePath_repeated]
    exact Resolver.mem_follow_of_mem hv (mem_follow_of_chainFrom h)

/-- A chain goes on from where it has come to. -/
theorem chainFrom_add (m n : Nat) (value : Option Value) :
    chainFrom store p (m + n) value = chainFrom store p n (chainFrom store p m value) := by
  induction m generalizing value with
  | zero => rw [Nat.zero_add, chainFrom]
  | succ m ih =>
    rw [Nat.succ_add]
    cases value with
    | none => rw [chainFrom_none, chainFrom_none, chainFrom_none]
    | some v =>
      cases v with
      | ref r => exact ih _
      | _ => exact chainFrom_none.symm

/-- Refs with the same id lead on in the same way. -/
theorem chainFrom_succ_congr {r s : Ref} (h : r.id = s.id) :
    chainFrom store p (n + 1) (some (.ref r)) = chainFrom store p (n + 1) (some (.ref s)) := by
  rw [chainFrom, chainFrom, resolve?_congr h]

/-! ### Paths of single values -/

/-- The record that the first value of a path on a record points at. -/
def nextRecord? (store : Option Store) (p : Path) (record : Record) : Option Record :=
  match (resolvePath store record p).head? with
  | some (.ref r) => resolve? store r
  | _ => none

/-- On a record and on every record that its chain meets, a path has at most one value, and that is
no list and no record. -/
def HasSingleValues (store : Option Store) (p : Path) (record : Record) : Prop :=
  ∀ other, Relation.ReflTransGen (fun a b => nextRecord? store p a = some b) record other →
    resolvePath store other p = [] ∨
      ∃ v, resolvePath store other p = [v] ∧ v.kind ≠ .list ∧ v.kind ≠ .dict

/-- Only a ref to a known record leads on, among the values that are no lists and no records. -/
theorem exists_record_of_follow {v : Value} (hlist : v.kind ≠ .list) (hdict : v.kind ≠ .dict)
    {name : String} {names : List String}
    (h : (Resolver.ofStore store).follow [v] (name :: names) ≠ []) :
    ∃ r record, v = .ref r ∧ resolve? store r = some record := by
  have hvalues : (Resolver.ofStore store).valuesOn ⟨name, names⟩ v ≠ [] := by
    rw [Resolver.follow_name_cons, List.flatMap_cons, List.flatMap_nil, List.append_nil] at h
    exact h
  cases v with
  | ref r =>
    cases hresolve : resolve? store r with
    | none =>
      refine absurd ?_ hvalues
      rw [Resolver.valuesOn, Resolver.valuesAt, show (Resolver.ofStore store).find? r = none from
        hresolve]
    | some record => exact ⟨r, record, rfl, hresolve⟩
  | list items => exact absurd rfl hlist
  | dict record => exact absurd rfl hdict
  | _ => exact absurd rfl hvalues

/-- Where a path has a single value on a record, the path repeated once more leads from the record
of that value. -/
theorem exists_next_of_mem_repeated {record : Record} {v w : Value}
    (hsingle : resolvePath store record p = [v]) (hlist : v.kind ≠ .list) (hdict : v.kind ≠ .dict)
    (hw : w ∈ resolvePath store record (p.repeated (n + 2))) :
    ∃ r next, v = .ref r ∧ resolve? store r = some next ∧
      w ∈ resolvePath store next (p.repeated (n + 1)) := by
  rw [resolvePath_repeated, hsingle, Path.copies, Resolver.follow_append] at hw
  have hne : (Resolver.ofStore store).follow [v] p.segments ≠ [] := by
    intro hnil
    rw [hnil, Resolver.follow_nil] at hw
    cases hw
  obtain ⟨r, next, rfl, hresolve⟩ := exists_record_of_follow hlist hdict hne
  rw [Resolver.follow_ref hresolve, ← Resolver.resolvePath_repeated] at hw
  exact ⟨r, next, rfl, hresolve, hw⟩

/-- A path without values on a record has none when it is repeated. -/
theorem not_mem_repeated_of_eq_nil {record : Record} (hnil : resolvePath store record p = [])
    {w : Value} : w ∉ resolvePath store record (p.repeated (n + 1)) := by
  rw [resolvePath_repeated, hnil, Resolver.follow_nil]
  exact List.not_mem_nil

/-- When a path has single values, those of the path repeated several times are the values of its
chain. -/
theorem chainFrom_of_mem_repeated {record : Record} (h : HasSingleValues store p record) {w : Value}
    (hw : w ∈ resolvePath store record (p.repeated (n + 1))) :
    chainFrom store p n (resolvePath store record p).head? = some w := by
  induction n generalizing record with
  | zero =>
    rw [resolvePath_repeated] at hw
    rcases h record .refl with hnil | ⟨v, hsingle, -, -⟩
    · rw [hnil] at hw
      cases hw
    · rw [hsingle] at hw ⊢
      rw [List.mem_singleton.mp hw]
      rfl
  | succ n ih =>
    rcases h record .refl with hnil | ⟨v, hsingle, hlist, hdict⟩
    · exact absurd hw (not_mem_repeated_of_eq_nil hnil)
    · obtain ⟨r, next, rfl, hresolve, hw⟩ := exists_next_of_mem_repeated hsingle hlist hdict hw
      have hnext : nextRecord? store p record = some next := by
        unfold nextRecord?
        rw [hsingle]
        exact hresolve
      rw [hsingle, List.head?_cons, chainFrom, hresolve, Option.bind_some]
      exact ih (fun other hother => h other (.head hnext hother)) hw

end Chain

end TagFilter
