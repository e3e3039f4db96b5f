import Mathlib.Data.List.Basic
import Mathlib.Data.List.Induction
import TagFilter.NameMap
import TagFilter.Reachability

/-!
# The names of a map

A name is among the keys of a map exactly when it has a value.  The keys of a map that is in order
are in ascending order, so that no name stands there twice and the entries are the names with their
values; `nameSet` puts the names of a list into this form.

Of a list of entries a map holds the last one of each name (`find?_ofList`), and a list that is in
order it keeps as it is (`Sorted.ofList_entries`).
-/

namespace TagFilter

/-- A further item is the last one of its kind and of no other. -/
theorem getLast?_filter_concat {α : Type} (p : α → Bool) (items : List α) (item : α) :
    ((items ++ [item]).filter p).getLast? =
      if p item = true then some item else (items.filter p).getLast? := by
  rw [List.filter_append]
  by_cases h : p item = true
  · rw [List.filter_cons_of_pos h, List.filter_nil, List.getLast?_concat, if_pos h]
  · rw [List.filter_cons_of_neg h, List.filter_nil, List.append_nil, if_neg h]

namespace NameMap

variable {α : Type} {m : NameMap α} {name other : String} {value : α}

theorem mem_keys_insert : other ∈ (m.insert name value).keys ↔ other = name ∨ other ∈ m.keys := by
  rw [mem_keys_iff, mem_keys_iff, find?_insert]
  by_cases h : name = other
  · simp [h]
  · simp [h, Ne.symm h]

/-- The keys of a map made from a list of entries are the names of the entries. -/
theorem mem_keys_ofList {entries : List (String × α)} :
    name ∈ (ofList entries).keys ↔ name ∈ entries.map Prod.fst := by
  have hfold : ∀ m : NameMap α,
      name ∈ (entries.foldl (fun m entry => m.insert entry.1 entry.2) m).keys ↔
        name ∈ entries.map Prod.fst ∨ name ∈ m.keys := by
    induction entries with
    | nil =>
      intro m
      simp
    | cons entry rest ih =>
      intro m
      rw [List.foldl_cons, ih, mem_keys_insert, List.map_cons, List.mem_cons]
      exact or_left_comm.trans or_assoc.symm
  have hempty : name ∉ (empty : NameMap α).keys := List.not_mem_nil
  exact (hfold empty).trans (or_iff_left hempty)

theorem ofList_append_singleton (entries : List (String × α)) (entry : String × α) :
    ofList (entries ++ [entry]) = (ofList entries).insert entry.1 entry.2 :=
  List.foldl_concat _ _ _ _

/-- A name has the value of the last of its entries. -/
theorem find?_ofList (entries : List (String × α)) (name : String) :
    (ofList entries).find? name =
      ((entries.filter fun entry => entry.1 == name).getLast?).map Prod.snd := by
  induction entries using List.reverseRecOn with
  | nil => rfl
  | append_singleton entries entry ih =>
    rw [ofList_append_singleton, find?_insert, getLast?_filter_concat, ih]
    by_cases hname : entry.1 = name
    · rw [if_pos hname, if_pos (beq_iff_eq.mpr hname)]
      rfl
    · rw [if_neg hname, if_neg fun heq => hname (beq_iff_eq.mp heq)]

theorem find?_ofList_singleton (entry : String × α) (name : String) :
    (ofList [entry]).find? name = if entry.1 = name then some entry.2 else none :=
  find?_insert empty entry.1 name entry.2

/-- Later entries come before earlier ones. -/
theorem find?_ofList_append (entries later : List (String × α)) (name : String) :
    (ofList (entries ++ later)).find? name =
      ((ofList later).find? name).or ((ofList entries).find? name) := by
  rw [find?_ofList, find?_ofList, find?_ofList, List.filter_append, List.getLast?_append,
    Option.map_or]

/-- An entry whose name comes after all others is put at the end. -/
theorem insertEntry_of_forall_lt {entries : List (String × α)}
    (h : ∀ entry ∈ entries, entry.1 < name) (value : α) :
    insertEntry name value entries = entries ++ [(name, value)] := by
  induction entries with
  | nil => rfl
  | cons first rest ih =>
    obtain ⟨key, old⟩ := first
    have hkey : key < name := h (key, old) List.mem_cons_self
    have hne : key ≠ name := fun heq => String.lt_irrefl name (heq ▸ hkey)
    have hnot : ¬ name < key := fun hlt => String.lt_irrefl name (String.lt_trans hlt hkey)
    rw [insertEntry, if_neg hnot, if_neg hne,
      ih fun entry hentry => h entry (List.mem_cons_of_mem _ hentry)]
    rfl

/-- The order of a map is the order of its keys. -/
theorem sorted_iff_pairwise_keys : m.Sorted ↔ m.keys.Pairwise (· < ·) :=
  List.pairwise_map.symm

theorem Sorted.pairwise_keys (h : m.Sorted) : m.keys.Pairwise (· < ·) :=
  sorted_iff_pairwise_keys.mp h

/-- A map in order is made from its own entries. -/
theorem Sorted.ofList_entries (h : m.Sorted) : ofList m.entries = m := by
  obtain ⟨entries⟩ := m
  unfold Sorted at h
  change ofList entries = ⟨entries⟩
  induction entries using List.reverseRecOn with
  | nil => rfl
  | append_singleton entries entry ih =>
    obtain ⟨hentries, -, hlast⟩ := List.pairwise_append.mp h
    have hbefore : ∀ other ∈ entries, other.1 < entry.1 :=
      fun other hother => hlast other hother entry List.mem_cons_self
    rw [ofList_append_singleton, ih hentries]
    exact congrArg NameMap.mk (insertEntry_of_forall_lt hbefore entry.2)

/-- The entries of a map in order are the names with their values. -/
theorem Sorted.find?_eq_some_iff (h : m.Sorted) :
    m.find? name = some value ↔ (name, value) ∈ m.entries := by
  obtain ⟨entries⟩ := m
  unfold Sorted at h
  change lookup name entries = some value ↔ (name, value) ∈ entries
  induction entries with
  | nil => simp [lookup]
  | cons entry rest ih =>
    obtain ⟨key, first⟩ := entry
    obtain ⟨hkey, hrest⟩ := List.pairwise_cons.mp h
    rw [lookup, List.mem_cons, Prod.mk.injEq]
    by_cases heq : key = name
    · subst heq
      have hnot : (key, value) ∉ rest := fun hmem => String.lt_irrefl key (hkey _ hmem)
      simp [hnot, eq_comm]
    · rw [if_neg heq, ih hrest]
      simp [Ne.symm heq]

end NameMap

section NameSet

variable {names : List String} {name : String}

theorem mem_nameSet : name ∈ nameSet names ↔ name ∈ names := by
  unfold nameSet
  rw [NameMap.mem_keys_ofList, List.map_map]
  simp

theorem pairwise_nameSet (names : List String) : (nameSet names).Pairwise (· < ·) :=
  (NameMap.sorted_ofList _).pairwise_keys

end NameSet

end TagFilter
