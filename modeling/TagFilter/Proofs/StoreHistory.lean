import Mathlib.Data.List.Dedup
import Mathlib.Data.List.Induction
import TagFilter.Proofs.Evaluation.Growth
import TagFilter.Proofs.NameSets

/-!
# Stores and their history

A store is made by inserting records one after the other.  What it holds is what its history says:
under each id the last record that was inserted with this id (`HoldsLast`).  One insertion keeps
this (`HoldsLast.insert`), and so does a run of them (`holdsLast_ofList`).

Everything else is read off the history.  The size is the number of different ids in it, the records
come in the order of their ids, and the two ways to evaluate a filter on a store, for all of its
records (`mem_query_iff`) and for that of one id (`matches_iff`), ask the same of a record.
-/

namespace TagFilter

/-! ### Ids of records -/

/-- The id under which a record is known. -/
def Record.key? (record : Record) : Option String :=
  (Record.id? record).map Ref.id

/-- A record comes before another one by their ids. -/
def Record.Precedes (a b : Record) : Prop :=
  ∃ i ∈ Record.key? a, ∃ j ∈ Record.key? b, i < j

/-- The last record of a list that is known under an id. -/
def lastOf (records : List Record) (id : String) : Option Record :=
  (records.filter fun record => Record.key? record == some id).getLast?

section History

variable {records : List Record} {record : Record} {id : String}

/-- A further record is the last one of its own id and of no other. -/
theorem lastOf_append_singleton :
    lastOf (records ++ [record]) id =
      if Record.key? record = some id then some record else lastOf records id := by
  unfold lastOf
  rw [getLast?_filter_concat]
  simp only [beq_iff_eq]

theorem mem_of_lastOf (h : lastOf records id = some record) :
    record ∈ records ∧ Record.key? record = some id := by
  obtain ⟨hmem, hkey⟩ := List.mem_filter.mp (List.mem_of_getLast? h)
  exact ⟨hmem, beq_iff_eq.mp hkey⟩

/-- There is a last record of every id that some record has. -/
theorem lastOf_isSome_iff :
    (lastOf records id).isSome = true ↔ id ∈ records.filterMap Record.key? := by
  unfold lastOf
  rw [List.getLast?_isSome, List.mem_filterMap]
  simp only [ne_eq, List.filter_eq_nil_iff, beq_iff_eq, Classical.not_forall, exists_prop,
    Decidable.not_not]

end History

namespace Store

variable {s : Store} {records : List Record} {record : Record} {id : String}

/-! ### Insertions -/

/-- Only a record without an id is refused. -/
theorem insert?_eq_none_iff : s.insert? record = none ↔ Record.id? record = none := by
  unfold insert?
  cases Record.id? record with
  | none => exact ⟨fun _ => rfl, fun _ => rfl⟩
  | some r => exact ⟨nofun, nofun⟩

/-- A record that is refused changes nothing. -/
theorem insert_of_id?_eq_none (h : Record.id? record = none) : s.insert record = s := by
  rw [insert, insert?_eq_none_iff.mpr h, Option.getD_none]

theorem insert_of_id?_eq_some {r : Ref} (h : Record.id? record = some r) :
    s.insert record = s.set r.id record := by
  unfold insert insert?
  rw [h]
  rfl

/-- An insertion sets the record of its id and leaves every other one. -/
theorem find?_insert :
    (s.insert record).find? id =
      if Record.key? record = some id then some record else s.find? id := by
  unfold Record.key?
  cases hid : Record.id? record with
  | none =>
    rw [insert_of_id?_eq_none hid, Option.map_none, if_neg nofun]
  | some r =>
    rw [insert_of_id?_eq_some hid]
    simp only [Option.map_some, Option.some_inj]
    exact NameMap.find?_insert s.records r.id id record

/-- A store holds, under each id, the last record of a history that is known under it. -/
def HoldsLast (s : Store) (records : List Record) : Prop :=
  ∀ id, s.find? id = lastOf records id

/-- An insertion goes on with the history. -/
theorem HoldsLast.insert (h : s.HoldsLast records) (record : Record) :
    (s.insert record).HoldsLast (records ++ [record]) := by
  intro id
  rw [find?_insert, lastOf_append_singleton, h id]

/-- A run of insertions makes a store that holds the last record of each id. -/
theorem holdsLast_ofList (records : List Record) : (ofList records).HoldsLast records := by
  induction records using List.reverseRecOn with
  | nil => exact fun _ => rfl
  | append_singleton records record ih =>
    have hlast : ofList (records ++ [record]) = (ofList records).insert record :=
      List.foldl_concat _ _ _ _
    rw [hlast]
    exact ih.insert record

/-! ### What a store holds -/

variable {types : Option Namespace} {n : Node}

theorem nodup_ids : s.ids.Nodup := by
  refine s.sorted.pairwise_keys.imp ?_
  rintro id _ hlt rfl
  exact String.lt_irrefl id hlt

/-- The records of a store are those that it finds. -/
theorem mem_values_iff :
    record ∈ s.records.values ↔ ∃ id, s.find? id = some record := by
  unfold NameMap.values
  rw [List.mem_map]
  constructor
  · rintro ⟨⟨id, _⟩, hentry, rfl⟩
    exact ⟨id, s.sorted.find?_eq_some_iff.mpr hentry⟩
  · rintro ⟨id, hfind⟩
    exact ⟨(id, record), s.sorted.find?_eq_some_iff.mp hfind, rfl⟩

/-- A query finds the held records of which the filter holds. -/
theorem mem_query_iff :
    record ∈ s.query types n.toFilter ↔
      (∃ id, s.find? id = some record) ∧ n.holds ⟨record, types, some s⟩ = true := by
  rw [query, List.mem_filter, mem_values_iff, Node.holds_eq, Term.holds_group]

/-- A filter matches an id when the record of the id is found without a namespace. -/
theorem matches_iff :
    s.matches n.toFilter id = true ↔
      ∃ record, s.find? id = some record ∧ record ∈ s.query none n.toFilter := by
  unfold Store.matches
  cases hfind : s.find? id with
  | none => simp
  | some record =>
    have hheld : ∃ id, s.find? id = some record := ⟨id, hfind⟩
    simp only [Option.some_inj, exists_eq_left', mem_query_iff, hheld, true_and, Node.holds_eq,
      Term.holds_group]

namespace HoldsLast

/-- Every record is held under its own id. -/
theorem key?_of_find? (h : s.HoldsLast records) (hfind : s.find? id = some record) :
    Record.key? record = some id := by
  rw [h id] at hfind
  exact (mem_of_lastOf hfind).2

/-- The ids of a store are those of its history. -/
theorem mem_ids_iff (h : s.HoldsLast records) :
    id ∈ s.ids ↔ id ∈ records.filterMap Record.key? := by
  have hfind : s.records.find? id = lastOf records id := h id
  rw [ids, NameMap.mem_keys_iff, hfind, lastOf_isSome_iff]

/-- The size of a store is the number of different ids of its history. -/
theorem size_eq (h : s.HoldsLast records) :
    s.size = (records.filterMap Record.key?).dedup.length := by
  have hsame : s.ids.Perm (records.filterMap Record.key?).dedup := by
    refine (List.perm_ext_iff_of_nodup nodup_ids (List.nodup_dedup _)).mpr fun id => ?_
    rw [List.mem_dedup]
    exact h.mem_ids_iff
  have hsize : s.size = s.ids.length := (List.length_map Prod.fst).symm
  rw [hsize, hsame.length_eq]

/-- The records of a store come in the order of their ids. -/
theorem pairwise_values (h : s.HoldsLast records) :
    s.records.values.Pairwise Record.Precedes := by
  have hkey : ∀ entry ∈ s.records.entries, Record.key? entry.2 = some entry.1 := by
    intro entry hentry
    exact h.key?_of_find? (s.sorted.find?_eq_some_iff.mpr hentry)
  refine List.pairwise_map.mpr (List.Pairwise.imp_of_mem ?_ s.sorted)
  intro a b ha hb hlt
  exact ⟨a.1, hkey a ha, b.1, hkey b hb, hlt⟩

/-- A query finds records in the order of their ids. -/
theorem pairwise_query (h : s.HoldsLast records) :
    (s.query types n.toFilter).Pairwise Record.Precedes :=
  h.pairwise_values.filter _

end HoldsLast

/-- After any run of insertions a store holds, under each id, the last record that was inserted with
it; records without an id are refused and change nothing.  Its size is the number of different ids,
and its records come in ascending order of them.  A query finds the held records of which the filter
holds while refs are resolved by the store, each once and in the same order; and a filter matches an
id exactly when the query without a namespace finds the record of the id. -/
theorem ofList_holds_last {s : Store} (hs : ofList records = s) :
    (∀ id, s.find? id = lastOf records id) ∧
    (∀ record, (s.insert? record = none ↔ Record.id? record = none) ∧
      (Record.id? record = none → s.insert record = s)) ∧
    s.size = (records.filterMap Record.key?).dedup.length ∧
    (s.records.values.Pairwise Record.Precedes ∧
      ∀ record, record ∈ s.records.values ↔ ∃ id, s.find? id = some record) ∧
    (∀ (types : Option Namespace) (n : Node),
      (s.query types n.toFilter).Pairwise Record.Precedes ∧
      ∀ record, record ∈ s.query types n.toFilter ↔
        (∃ id, s.find? id = some record) ∧ n.holds ⟨record, types, some s⟩ = true) ∧
    ∀ (n : Node) (id : String), s.matches n.toFilter id = true ↔
      ∃ record, s.find? id = some record ∧ record ∈ s.query none n.toFilter := by
  have h : s.HoldsLast records := hs ▸ holdsLast_ofList records
  exact ⟨h, fun record => ⟨insert?_eq_none_iff, insert_of_id?_eq_none⟩, h.size_eq,
    ⟨h.pairwise_values, fun record => mem_values_iff⟩,
    fun types n => ⟨h.pairwise_query, fun record => mem_query_iff⟩,
    fun n id => matches_iff⟩

/-- A site with an area. -/
def siteWithArea : Record :=
  ⟨[("area", .marker), ("id", .ref ⟨"hq", none⟩)]⟩

/-- An air handler at the site. -/
def airHandler : Record :=
  ⟨[("id", .ref ⟨"ahu", none⟩), ("siteRef", .ref ⟨"hq", none⟩)]⟩

/-- The site without its area, an air handler at it, a note without an id, and the site again. -/
def siteHistory : List Record :=
  [⟨[("id", .ref ⟨"hq", none⟩)]⟩, airHandler, ⟨[("dis", .str "note")]⟩, siteWithArea]

/-- Records at sites with an area. -/
def atSiteWithArea : Node :=
  .filter [[.test (.has ⟨"siteRef", ["area"]⟩)]]

theorem ofList_holds_last_siteHistory :
    (ofList siteHistory).find? "hq" = some siteWithArea ∧
    (ofList siteHistory).insert? ⟨[("dis", .str "note")]⟩ = none ∧
    (ofList siteHistory).size = 2 ∧
    airHandler ∈ (ofList siteHistory).query none atSiteWithArea.toFilter ∧
    (ofList siteHistory).matches atSiteWithArea.toFilter "ahu" = true := by
  obtain ⟨hfind, hrefused, hsize, -, hquery, hmatches⟩ :=
    ofList_holds_last (rfl : ofList siteHistory = ofList siteHistory)
  have hahu : (ofList siteHistory).find? "ahu" = some airHandler := hfind "ahu"
  have hfound : airHandler ∈ (ofList siteHistory).query none atSiteWithArea.toFilter :=
    ((hquery none atSiteWithArea).2 airHandler).mpr ⟨⟨"ahu", hahu⟩, rfl⟩
  exact ⟨hfind "hq", (hrefused _).1.mpr rfl, hsize, hfound,
    (hmatches atSiteWithArea "ahu").mpr ⟨airHandler, hahu, hfound⟩⟩

end Store

end TagFilter
