import TagFilter.Resolver

/-!
# Stores of records

Records that are known by the ids of their refs.  A record without an id is never held, and a
record replaces an earlier one of the same id.

A store is a resolver that knows finitely many records, so that every search in it ends
(`Resolver.isSome_search`).
-/

namespace TagFilter

/-- Records by id. -/
structure Store where
  /-- The records, in ascending order of ids. -/
  records : NameMap Record
  /-- The ids are in order. -/
  sorted : records.Sorted := by decide

namespace Store

/-- The store without records. -/
def empty : Store := ⟨NameMap.empty, NameMap.sorted_empty⟩

/-- The store with the record of an id set. -/
def set (s : Store) (id : String) (record : Record) : Store :=
  ⟨s.records.insert id record, s.sorted.insert id record⟩

/-- The store with one more record, if the record has an id. -/
def insert? (s : Store) (record : Record) : Option Store :=
  match Record.id? record with
  | some r => some (s.set r.id record)
  | none => none

/-- The store after an attempt to add a record. -/
def insert (s : Store) (record : Record) : Store :=
  (s.insert? record).getD s

/-- The store of the records of a list that have an id. -/
def ofList (records : List Record) : Store :=
  records.foldl insert empty

/-- The record of an id. -/
def find? (s : Store) (id : String) : Option Record :=
  s.records.find? id

/-- The ids of the records, in ascending order. -/
def ids (s : Store) : List String :=
  s.records.keys

/-- The number of records. -/
def size (s : Store) : Nat :=
  s.records.size

/-- The resolver of the records of a store. -/
def resolver (s : Store) : Resolver :=
  ⟨fun r => s.find? r.id⟩

end Store

/-- The resolver of a store, or of none. -/
def Resolver.ofStore (store : Option Store) : Resolver :=
  ofOption (store.map Store.resolver)

/-- The record that a ref points at; without a store there is none. -/
def resolve? (store : Option Store) (r : Ref) : Option Record :=
  (Resolver.ofStore store).find? r

/-- The records that refs can point at. -/
def storedRecords (store : Option Store) : NameMap Record :=
  match store with
  | some s => s.records
  | none => NameMap.empty

theorem find?_storedRecords (store : Option Store) (r : Ref) :
    (storedRecords store).find? r.id = resolve? store r := by
  cases store <;> rfl

/-- A store knows refs by their ids. -/
theorem resolve?_congr {store : Option Store} {r s : Ref} (h : r.id = s.id) :
    resolve? store r = resolve? store s := by
  rw [← find?_storedRecords, ← find?_storedRecords, h]

/-! ### Searches in a store -/

namespace Resolver

variable {store : Option Store} {p : Path} {target : String}

/-- A round of a search goes on only to a record that has not been met. -/
theorem length_unmet_lt_of_searchRound {s next : Search}
    (h : (ofStore store).searchRound p target s = .next next) :
    ((storedRecords store).unmet next.met).length < ((storedRecords store).unmet s.met).length := by
  unfold searchRound at h
  split at h
  · next r hhead =>
    by_cases hid : r.id = target
    · rw [if_pos hid] at h
      cases h
    · by_cases hmet : r.id ∈ s.met
      · rw [if_neg hid, if_pos hmet] at h
        cases h
      · rw [if_neg hid, if_neg hmet] at h
        cases hfind : (ofStore store).find? r with
        | none =>
          rw [hfind] at h
          cases h
        | some record =>
          rw [hfind] at h
          cases h
          refine NameMap.length_unmet_cons_lt ?_ hmet
          rw [find?_storedRecords]
          exact Option.isSome_of_eq_some hfind
  · cases h

/-- A search in a store has an answer. -/
theorem isSome_search (store : Option Store) (p : Path) (target : String) (record : Record) :
    ((ofStore store).search p target record).isSome = true :=
  isSome_loop (measure fun s : Search => ((storedRecords store).unmet s.met).length).wf
    (fun _ _ h => length_unmet_lt_of_searchRound h) _

end Resolver

end TagFilter
