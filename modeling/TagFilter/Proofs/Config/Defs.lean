import TagFilter.Config.Basic
import TagFilter.Proofs.NameSets
import TagFilter.Proofs.Success

/-!
# The defs of a configuration

The table of a def becomes one record, in which the tags of the def itself come first and the tags
of its relationships after them (`DefConfig.tags`).  A relationship of the same name as one of the
tags `def`, `is`, `impliedBy` and `transitive` takes the place of the tag: the def then has another
name, another list of types or of tags that imply it, or it is transitive though its table does not
say so.

What a namespace holds under a name is the record of the last table that gives this name
(`find?_of_toNamespace`), and what the namespace says of the def is read off the table
(`namesIn_tags`, `contains_tags_iff`).
-/

namespace TagFilter

namespace DefConfig

/-- The tags that a table gives to the def itself. -/
def ownTags (d : DefConfig) (name : String) : List (String × Value) :=
  [("def", .symbol ⟨name⟩)] ++ symbolsTag "is" (d.supertypes.map Symbol.mk)
    ++ symbolsTag "impliedBy" (d.impliedBy.map Symbol.mk)
    ++ (if d.transitive then [("transitive", .marker)] else [])

/-- The tags that a table gives to a def for its relationships. -/
def relationshipTags (d : DefConfig) : NameMap Value :=
  d.relationships.map fun term => .symbol ⟨term⟩

/-- The record that a table describes. -/
def tags (d : DefConfig) (name : String) : Record :=
  NameMap.ofList (d.ownTags name ++ d.relationshipTags.entries)

/-- The name of the def that the table of a name describes. -/
def definedName (d : DefConfig) (name : String) : String :=
  (d.relationships.find? "def").getD name

/-- The names that a def has under a tag for which its table gives some names. -/
def namesUnder (d : DefConfig) (tag : String) (names : List String) : List String :=
  match d.relationships.find? tag with
  | some term => [term]
  | none => names

section Record

variable {d : DefConfig} {name tag : String} {record : Record}

theorem eq_of_configSymbol {symbol : Symbol} (h : configSymbol name = .ok symbol) :
    symbol = ⟨name⟩ := by
  unfold configSymbol Symbol.ofText? at h
  split at h
  · cases h
    rfl
  · cases h

theorem eq_map_of_configSymbols {names : List String} {symbols : List Symbol}
    (h : names.mapM configSymbol = .ok symbols) : symbols = names.map Symbol.mk := by
  have hmap := map_eq_of_mapM Symbol.mk id (fun _ _ => eq_of_configSymbol) h
  rwa [List.map_id] at hmap

/-- A table that has a record has the one that it describes. -/
theorem eq_tags_of_record (h : d.record name = .ok record) : record = d.tags name := by
  unfold DefConfig.record at h
  obtain ⟨symbol, hsymbol, h⟩ := bind_eq_ok_iff.mp h
  obtain ⟨supertypes, hsupertypes, h⟩ := bind_eq_ok_iff.mp h
  obtain ⟨impliedBy, himpliedBy, h⟩ := bind_eq_ok_iff.mp h
  obtain ⟨terms, hterms, h⟩ := bind_eq_ok_iff.mp h
  have hrelationships : terms = d.relationshipTags.entries := by
    have hmap := map_eq_of_mapM (fun entry : String × String => (entry.1, Value.symbol ⟨entry.2⟩))
      id (fun entry tag hentry => ?_) hterms
    · rwa [List.map_id] at hmap
    · obtain ⟨term, hterm, htag⟩ := bind_eq_ok_iff.mp hentry
      cases htag
      rw [eq_of_configSymbol hterm]
      rfl
  cases h
  rw [eq_of_configSymbol hsymbol, eq_map_of_configSymbols hsupertypes,
    eq_map_of_configSymbols himpliedBy, hrelationships]
  rfl

/-! ### What the tags hold -/

theorem find?_symbolsTag (tag other : String) (names : List String) :
    (NameMap.ofList (symbolsTag tag (names.map Symbol.mk))).find? other =
      if tag = other ∧ names ≠ [] then some (.list (names.map fun name => .symbol ⟨name⟩))
      else none := by
  cases names with
  | nil => simp [symbolsTag, NameMap.ofList]
  | cons first rest =>
    unfold symbolsTag
    rw [List.map_cons, List.isEmpty_cons, if_neg Bool.false_ne_true,
      NameMap.find?_ofList_singleton]
    simp [Function.comp_def]

theorem find?_ownTags :
    (NameMap.ofList (d.ownTags name)).find? tag =
      ((if d.transitive = true ∧ "transitive" = tag then some .marker else none).or
        (if "impliedBy" = tag ∧ d.impliedBy ≠ [] then
          some (.list (d.impliedBy.map fun tag => .symbol ⟨tag⟩)) else none)).or
        ((if "is" = tag ∧ d.supertypes ≠ [] then
          some (.list (d.supertypes.map fun type => .symbol ⟨type⟩)) else none).or
        (if "def" = tag then some (.symbol ⟨name⟩) else none)) := by
  have htransitive : (NameMap.ofList
      (if d.transitive then [("transitive", Value.marker)] else [])).find? tag =
        if d.transitive = true ∧ "transitive" = tag then some .marker else none := by
    cases d.transitive with
    | false => rfl
    | true => simp [NameMap.find?_ofList_singleton]
  unfold ownTags
  rw [NameMap.find?_ofList_append, NameMap.find?_ofList_append, NameMap.find?_ofList_append,
    find?_symbolsTag, find?_symbolsTag, htransitive, NameMap.find?_ofList_singleton,
    Option.or_assoc]

/-- A tag has the value of the relationship of its name, and else what the table says of the def
itself. -/
theorem find?_tags :
    (d.tags name).find? tag =
      ((d.relationships.find? tag).map fun term => .symbol ⟨term⟩).or
        ((NameMap.ofList (d.ownTags name)).find? tag) := by
  have hsorted : d.relationshipTags.Sorted := List.pairwise_map.mpr d.sorted
  unfold tags
  rw [NameMap.find?_ofList_append, hsorted.ofList_entries, relationshipTags, NameMap.find?_map]

theorem names_symbols (names : List String) :
    (Value.list (names.map fun name => .symbol ⟨name⟩)).symbols.map Symbol.name = names := by
  induction names with
  | nil => rfl
  | cons name rest ih => exact congrArg (name :: ·) ih

theorem namesIn_ownTags_is :
    Namespace.namesIn "is" (NameMap.ofList (d.ownTags name)) = d.supertypes := by
  unfold Namespace.namesIn
  rw [find?_ownTags]
  by_cases h : d.supertypes = [] <;> simp [h, names_symbols]

theorem namesIn_ownTags_impliedBy :
    Namespace.namesIn "impliedBy" (NameMap.ofList (d.ownTags name)) = d.impliedBy := by
  unfold Namespace.namesIn
  rw [find?_ownTags]
  by_cases h : d.impliedBy = [] <;> simp [h, names_symbols]

/-- The names that a def has under a tag are the term of the relationship of this name, and else
those that its table gives to the def itself. -/
theorem namesIn_tags :
    Namespace.namesIn tag (d.tags name) =
      d.namesUnder tag (Namespace.namesIn tag (NameMap.ofList (d.ownTags name))) := by
  unfold Namespace.namesIn namesUnder
  rw [find?_tags]
  cases d.relationships.find? tag with
  | none => rfl
  | some term => rfl

/-- A def is marked as transitive by its table, or by a relationship of this name. -/
theorem contains_tags_iff :
    (d.tags name).contains "transitive" = true ↔
      d.transitive = true ∨ d.relationships.contains "transitive" = true := by
  unfold NameMap.contains
  rw [find?_tags, find?_ownTags]
  cases d.relationships.find? "transitive" with
  | none => simp
  | some term => simp

/-- The record of a table says which def it describes. -/
theorem symbolOf?_tags :
    Namespace.symbolOf? (d.tags name) = some ⟨d.definedName name⟩ := by
  unfold Namespace.symbolOf? definedName
  rw [find?_tags, find?_ownTags]
  cases d.relationships.find? "def" with
  | none => simp [Value.symbol?]
  | some term => rfl

end Record

end DefConfig

namespace Config

/-- The records that the tables of a configuration describe, under the names of the defs. -/
def described (c : Config) : List (String × Record) :=
  c.defs.entries.map fun entry => (entry.2.definedName entry.1, entry.2.tags entry.1)

/-- The table that describes a def, with its own name: the last one that gives the name of the
def. -/
def tableOf? (c : Config) (name : String) : Option (String × DefConfig) :=
  (c.defs.entries.filter fun entry => entry.2.definedName entry.1 == name).getLast?

/-- The tags that a relationship must not have the name of, for a def to be what its table says. -/
def ownNames : List String := ["def", "is", "impliedBy", "transitive"]

/-- No relationship has the name of a tag of the def itself. -/
def IsPlain (c : Config) : Prop :=
  ∀ entry ∈ c.defs.entries, ∀ tag ∈ ownNames, entry.2.relationships.find? tag = none

section Namespaces

variable {c : Config} {ns : Namespace} {name : String} {entry : String × DefConfig}

theorem defs_of_insertDef {next : Namespace} (h : insertDef ns entry = .ok next) :
    next.defs = ns.defs.insert (entry.2.definedName entry.1) (entry.2.tags entry.1) := by
  unfold insertDef at h
  obtain ⟨record, hrecord, hinsert⟩ := bind_eq_ok_iff.mp h
  rw [mapError_eq_ok_iff, DefConfig.eq_tags_of_record hrecord, Namespace.insert,
    DefConfig.symbolOf?_tags] at hinsert
  cases hinsert
  rfl

/-- A namespace is made of the records of all tables in turn. -/
theorem defs_of_toNamespace (h : c.toNamespace = .ok ns) :
    ns.defs = NameMap.ofList c.described := by
  have hfold := foldlM_eq_foldl
    (fun m entry => m.insert (entry.2.definedName entry.1) (entry.2.tags entry.1)) Namespace.defs
    (fun _ _ _ _ => defs_of_insertDef) h
  rw [hfold, NameMap.ofList, described, List.foldl_map]
  rfl

/-- A namespace holds the records of the tables that describe its defs. -/
theorem find?_of_toNamespace (h : c.toNamespace = .ok ns) :
    ns.find? name = (c.tableOf? name).map fun entry => entry.2.tags entry.1 := by
  unfold Namespace.find? tableOf?
  rw [defs_of_toNamespace h, NameMap.find?_ofList, described, List.filter_map,
    List.getLast?_map, Option.map_map]
  rfl

theorem mem_of_tableOf? (h : c.tableOf? name = some entry) :
    entry ∈ c.defs.entries ∧ entry.2.definedName entry.1 = name := by
  obtain ⟨hmem, hname⟩ := List.mem_filter.mp (List.mem_of_getLast? h)
  exact ⟨hmem, beq_iff_eq.mp hname⟩

theorem mem_names_iff (h : c.toNamespace = .ok ns) :
    name ∈ ns.names ↔ ∃ entry ∈ c.defs.entries, entry.2.definedName entry.1 = name := by
  unfold Namespace.names
  rw [defs_of_toNamespace h, NameMap.mem_keys_ofList, described, List.map_map, List.mem_map]
  rfl

/-! ### Tables without conflicts -/

theorem IsPlain.definedName (hplain : c.IsPlain) (hentry : entry ∈ c.defs.entries) :
    entry.2.definedName entry.1 = entry.1 := by
  unfold DefConfig.definedName
  rw [hplain entry hentry "def" List.mem_cons_self]
  rfl

theorem IsPlain.names (hplain : c.IsPlain) (h : c.toNamespace = .ok ns) :
    ns.names = c.defs.keys := by
  have hkeys : (⟨c.described⟩ : NameMap Record).keys = c.defs.keys := by
    unfold NameMap.keys described
    rw [List.map_map]
    exact List.map_congr_left fun entry hentry => hplain.definedName hentry
  have hsorted : (⟨c.described⟩ : NameMap Record).Sorted := by
    rw [NameMap.sorted_iff_pairwise_keys, hkeys]
    exact c.sorted.pairwise_keys
  have hdefs : ns.defs = ⟨c.described⟩ := (defs_of_toNamespace h).trans hsorted.ofList_entries
  unfold Namespace.names
  rw [hdefs, hkeys]

theorem IsPlain.tableOf? (hplain : c.IsPlain) {d : DefConfig}
    (hd : c.defs.find? name = some d) : c.tableOf? name = some (name, d) := by
  -- the table of a name is then the last one of this name, which is the one that the map holds
  have hfilter : (c.defs.entries.filter fun entry => entry.2.definedName entry.1 == name) =
      c.defs.entries.filter fun entry => entry.1 == name :=
    List.filter_congr fun entry hentry => by rw [hplain.definedName hentry]
  rw [← c.sorted.ofList_entries, NameMap.find?_ofList, ← hfilter, Option.map_eq_some_iff] at hd
  obtain ⟨⟨key, table⟩, hentry, rfl⟩ := hd
  obtain ⟨hmem, hname⟩ := mem_of_tableOf? hentry
  rw [hplain.definedName hmem] at hname
  cases hname
  exact hentry

/-! ### What a namespace says of its defs -/

/-- A namespace has the defs that the tables describe, and says of each what its table says, where a
relationship comes before the rest of the table.  Where no relationship gets in the way, these are
the defs that the tables are named for. -/
theorem toNamespace_describes (h : c.toNamespace = .ok ns) :
    (∀ name, name ∈ ns.names ↔ ∃ entry ∈ c.defs.entries, entry.2.definedName entry.1 = name) ∧
    (∀ name key d, c.tableOf? name = some (key, d) →
      (ns.table "is").find? name = some (d.namesUnder "is" d.supertypes) ∧
      ns.impliedBy name = d.namesUnder "impliedBy" d.impliedBy ∧
      (ns.isTransitive name = true ↔
        d.transitive = true ∨ d.relationships.contains "transitive" = true)) ∧
    (c.IsPlain →
      ns.names = c.defs.keys ∧
      ∀ name d, c.defs.find? name = some d →
        (ns.table "is").find? name = some d.supertypes ∧
        ns.impliedBy name = d.impliedBy ∧
        (ns.isTransitive name = true ↔ d.transitive = true)) := by
  have hdescribed : ∀ name key d, c.tableOf? name = some (key, d) →
      (ns.table "is").find? name = some (d.namesUnder "is" d.supertypes) ∧
      ns.impliedBy name = d.namesUnder "impliedBy" d.impliedBy ∧
      (ns.isTransitive name = true ↔
        d.transitive = true ∨ d.relationships.contains "transitive" = true) := by
    intro name key d htable
    have hfind : ns.find? name = some (d.tags key) := by
      rw [find?_of_toNamespace h, htable]
      rfl
    have hnames (tag : String) : (ns.table tag).find? name =
        some (d.namesUnder tag (Namespace.namesIn tag (NameMap.ofList (d.ownTags key)))) := by
      rw [Namespace.table, NameMap.find?_map, ← DefConfig.namesIn_tags]
      exact congrArg (Option.map _) hfind
    refine ⟨?_, ?_, ?_⟩
    · rw [hnames, DefConfig.namesIn_ownTags_is]
    · rw [Namespace.impliedBy, hnames, DefConfig.namesIn_ownTags_impliedBy]
      rfl
    · rw [Namespace.isTransitive, hfind]
      exact DefConfig.contains_tags_iff
  refine ⟨fun name => mem_names_iff h, hdescribed, fun hplain => ⟨hplain.names h, ?_⟩⟩
  intro name d hd
  have htable := hplain.tableOf? hd
  obtain ⟨his, himplied, htransitive⟩ := hdescribed name name d htable
  have hnone (tag : String) (htag : tag ∈ ownNames) : d.relationships.find? tag = none :=
    hplain (name, d) (mem_of_tableOf? htable).1 tag htag
  refine ⟨?_, ?_, htransitive.trans (or_iff_left ?_)⟩
  · rw [his, DefConfig.namesUnder, hnone "is" (by decide)]
  · rw [himplied, DefConfig.namesUnder, hnone "impliedBy" (by decide)]
  · rw [NameMap.contains, hnone "transitive" (by decide)]
    exact Bool.false_ne_true

end Namespaces

/-- Defs of devices. -/
def deviceDefs : Config where
  defs := ⟨[("ahu", { supertypes := ["equip"], relationships := ⟨[("inputs", "elec")]⟩ }),
    ("equip", { impliedBy := ["device"] }), ("inputs", { transitive := true })]⟩

/-- Defs of devices, where relationships get in the way of the rest of their tables. -/
def mixedDefs : Config where
  defs := ⟨[("ahu", { supertypes := ["equip"], relationships := ⟨[("is", "elec")]⟩ }),
    ("elec", { relationships := ⟨[("transitive", "elec")]⟩ }),
    ("equip", { impliedBy := ["device"], relationships := ⟨[("impliedBy", "elec")]⟩ }),
    ("inputs", { relationships := ⟨[("def", "outputs")]⟩ })]⟩

theorem toNamespace_describes_devices :
    (∃ ns, deviceDefs.toNamespace = .ok ns ∧
      ns.names = ["ahu", "equip", "inputs"] ∧
      (ns.table "is").find? "ahu" = some ["equip"] ∧
      ns.impliedBy "equip" = ["device"] ∧
      ns.isTransitive "inputs" = true) ∧
    (∃ ns, mixedDefs.toNamespace = .ok ns ∧
      "outputs" ∈ ns.names ∧
      (ns.table "is").find? "ahu" = some ["elec"]) := by
  have hplain : deviceDefs.IsPlain := by
    unfold IsPlain
    decide
  refine ⟨⟨_, rfl, ?_⟩, _, rfl, ?_⟩
  · obtain ⟨-, -, hsame⟩ := toNamespace_describes (c := deviceDefs) rfl
    obtain ⟨hnames, hdefs⟩ := hsame hplain
    exact ⟨hnames, (hdefs "ahu" _ rfl).1, (hdefs "equip" _ rfl).2.1,
      (hdefs "inputs" _ rfl).2.2.mpr rfl⟩
  · obtain ⟨hnames, hdefs, -⟩ := toNamespace_describes (c := mixedDefs) rfl
    exact ⟨(hnames "outputs").mpr ⟨("inputs", _), List.mem_of_getElem? (i := 3) rfl, rfl⟩,
      (hdefs "ahu" "ahu" _ rfl).1⟩

/-- Relationships can take away the name of a def, its types and the tags that imply it, and can
mark it as transitive. -/
theorem relationships_replace_tags :
    ∃ ns, mixedDefs.toNamespace = .ok ns ∧
      ("inputs" ∈ mixedDefs.defs.keys ∧ "inputs" ∉ ns.names) ∧
      ("outputs" ∈ ns.names ∧ "outputs" ∉ mixedDefs.defs.keys) ∧
      (∃ d, mixedDefs.defs.find? "ahu" = some d ∧
        (ns.table "is").find? "ahu" ≠ some d.supertypes) ∧
      (∃ d, mixedDefs.defs.find? "equip" = some d ∧ ns.impliedBy "equip" ≠ d.impliedBy) ∧
      (∃ d, mixedDefs.defs.find? "elec" = some d ∧ d.transitive = false ∧
        ns.isTransitive "elec" = true) :=
  ⟨_, rfl, by decide, by decide, ⟨_, rfl, by decide⟩, ⟨_, rfl, by decide⟩, ⟨_, rfl, rfl, rfl⟩⟩

end Config

end TagFilter
