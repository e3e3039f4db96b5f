/-!
# Maps keyed by names

A finite map from names to values, held as a list of entries in ascending order of names (by code
points).  `find?` is its view: `find?_insert` says what an insertion does to it, and
`Sorted.insert` that the order is kept.
-/

namespace TagFilter

/-- A finite map from names to values. -/
structure NameMap (α : Type) where
  /-- The entries, in ascending order of names. -/
  entries : List (String × α)
  deriving Repr

namespace NameMap

variable {α β : Type}

/-- The map without entries. -/
def empty : NameMap α := ⟨[]⟩

instance : Inhabited (NameMap α) := ⟨empty⟩

/-- The value of the first entry with a name. -/
def lookup (name : String) : List (String × α) → Option α
  | [] => none
  | (key, value) :: rest => if key = name then some value else lookup name rest

/-- The entries with one name set to a value, in its place by order. -/
def insertEntry (name : String) (value : α) : List (String × α) → List (String × α)
  | [] => [(name, value)]
  | (key, old) :: rest =>
    if name < key then (name, value) :: (key, old) :: rest
    else if key = name then (name, value) :: rest
    else (key, old) :: insertEntry name value rest

/-- The value of a name. -/
def find? (m : NameMap α) (name : String) : Option α :=
  lookup name m.entries

/-- Whether a name has a value. -/
def contains (m : NameMap α) (name : String) : Bool :=
  (m.find? name).isSome

/-- The map with the value of one name set. -/
def insert (m : NameMap α) (name : String) (value : α) : NameMap α :=
  ⟨insertEntry name value m.entries⟩

/-- The map without the entries of one name. -/
def erase (m : NameMap α) (name : String) : NameMap α :=
  ⟨m.entries.filter fun entry => entry.1 != name⟩

/-- The map of a list of entries, of which later ones replace earlier ones of the same name. -/
def ofList (entries : List (String × α)) : NameMap α :=
  entries.foldl (fun m entry => m.insert entry.1 entry.2) empty

/-- The names that have a value, in ascending order. -/
def keys (m : NameMap α) : List String :=
  m.entries.map Prod.fst

/-- The values in the order of their names. -/
def values (m : NameMap α) : List α :=
  m.entries.map Prod.snd

/-- The number of names that have a value. -/
def size (m : NameMap α) : Nat :=
  m.entries.length

/-- Whether no name has a value. -/
def isEmpty (m : NameMap α) : Bool :=
  m.entries.isEmpty

/-- The map with every value replaced by its image. -/
def map (f : α → β) (m : NameMap α) : NameMap β :=
  ⟨m.entries.map fun entry => (entry.1, f entry.2)⟩

/-- The names that have a value and have not been met. -/
def unmet (m : NameMap α) (met : List String) : List String :=
  m.keys.filter fun name => name ∉ met

/-- The names are in strictly ascending order. -/
def Sorted (m : NameMap α) : Prop :=
  m.entries.Pairwise fun a b => a.1 < b.1

instance (m : NameMap α) : Decidable m.Sorted :=
  inferInstanceAs (Decidable (m.entries.Pairwise fun a b => a.1 < b.1))

theorem sorted_empty : (empty : NameMap α).Sorted :=
  List.Pairwise.nil

@[simp] theorem find?_empty (name : String) : (empty : NameMap α).find? name = none := rfl

theorem lookup_insertEntry (name other : String) (value : α) (entries : List (String × α)) :
    lookup other (insertEntry name value entries) =
      if name = other then some value else lookup other entries := by
  induction entries with
  | nil => simp [insertEntry, lookup]
  | cons entry rest ih =>
    obtain ⟨key, old⟩ := entry
    simp only [insertEntry]
    split
    · simp [lookup]
    · split
      · next h =>
        subst h
        by_cases h : key = other <;> simp [lookup, h]
      · next h =>
        by_cases hk : key = other
        · have : ¬ name = other := fun h' => h (hk.trans h'.symm)
          simp [lookup, hk, this]
        · simp [lookup, hk, ih]

/-- An insertion sets the value of its name and leaves every other one. -/
theorem find?_insert (m : NameMap α) (name other : String) (value : α) :
    (m.insert name value).find? other = if name = other then some value else m.find? other :=
  lookup_insertEntry name other value m.entries

@[simp] theorem find?_insert_self (m : NameMap α) (name : String) (value : α) :
    (m.insert name value).find? name = some value := by
  simp [find?_insert]

/-- The value of a name in the image of a map is the image of its value. -/
theorem find?_map (f : α → β) (m : NameMap α) (name : String) :
    (m.map f).find? name = (m.find? name).map f := by
  obtain ⟨entries⟩ := m
  simp only [find?, map]
  induction entries with
  | nil => rfl
  | cons entry rest ih =>
    obtain ⟨key, value⟩ := entry
    simp only [List.map_cons, lookup, ih]
    split <;> rfl

/-- Of two names that are not the same, one comes first. -/
theorem lt_of_not_lt_of_ne {a b : String} (h : ¬ a < b) (hne : a ≠ b) : b < a :=
  Decidable.byContradiction fun h' =>
    hne (String.le_antisymm (String.not_lt.mp h') (String.not_lt.mp h))

theorem mem_insertEntry {name : String} {value : α} {entries : List (String × α)}
    {entry : String × α} (h : entry ∈ insertEntry name value entries) :
    entry = (name, value) ∨ entry ∈ entries := by
  induction entries with
  | nil => simpa [insertEntry] using h
  | cons first rest ih =>
    obtain ⟨key, old⟩ := first
    simp only [insertEntry] at h
    split at h
    · simpa using h
    · split at h
      · rcases List.mem_cons.mp h with rfl | h
        · exact Or.inl rfl
        · exact Or.inr (List.mem_cons_of_mem _ h)
      · rcases List.mem_cons.mp h with rfl | h
        · exact Or.inr List.mem_cons_self
        · exact (ih h).imp id (List.mem_cons_of_mem _)

/-- An insertion keeps the names in ascending order. -/
theorem Sorted.insert {m : NameMap α} (h : m.Sorted) (name : String) (value : α) :
    (m.insert name value).Sorted := by
  obtain ⟨entries⟩ := m
  simp only [Sorted, NameMap.insert] at h ⊢
  induction entries with
  | nil => simp [insertEntry]
  | cons first rest ih =>
    obtain ⟨key, old⟩ := first
    obtain ⟨hfirst, hrest⟩ := List.pairwise_cons.mp h
    simp only [insertEntry]
    split
    · next hlt =>
      refine List.pairwise_cons.mpr ⟨fun entry hentry => ?_, h⟩
      rcases List.mem_cons.mp hentry with rfl | hentry
      · exact hlt
      · exact String.lt_trans hlt (hfirst entry hentry)
    · split
      · next heq =>
        subst heq
        exact List.pairwise_cons.mpr ⟨hfirst, hrest⟩
      · next hlt hne =>
        refine List.pairwise_cons.mpr ⟨fun entry hentry => ?_, ih hrest⟩
        rcases mem_insertEntry hentry with rfl | hentry
        · exact lt_of_not_lt_of_ne hlt fun heq => hne heq.symm
        · exact hfirst entry hentry

/-- A map made from a list of entries has its names in ascending order. -/
theorem sorted_ofList (entries : List (String × α)) : (ofList entries).Sorted := by
  have step : ∀ (entries : List (String × α)) (m : NameMap α), m.Sorted →
      (entries.foldl (fun m entry => m.insert entry.1 entry.2) m).Sorted := by
    intro entries
    induction entries with
    | nil => exact fun _ h => h
    | cons entry rest ih => exact fun m h => ih _ (h.insert entry.1 entry.2)
  exact step entries empty sorted_empty

/-- Removing a name that has a value shortens the map. -/
theorem size_erase_lt (m : NameMap α) (name : String) (h : (m.find? name).isSome) :
    (m.erase name).size < m.size := by
  obtain ⟨entries⟩ := m
  induction entries with
  | nil => simp [find?, lookup] at h
  | cons entry rest ih =>
    obtain ⟨key, value⟩ := entry
    by_cases hk : key = name
    · have := List.length_filter_le (fun entry : String × α => entry.1 != name) rest
      simp only [size, erase, hk, List.filter_cons, bne_self_eq_false, Bool.false_eq_true,
        if_false, List.length_cons]
      omega
    · have hrest : ((⟨rest⟩ : NameMap α).find? name).isSome := by
        simpa [find?, lookup, hk] using h
      have := ih hrest
      simp only [size, erase] at this ⊢
      simp [hk, this]

theorem lookup_isSome_iff {name : String} {entries : List (String × α)} :
    (lookup name entries).isSome = true ↔ name ∈ entries.map Prod.fst := by
  induction entries with
  | nil => simp [lookup]
  | cons entry rest ih =>
    obtain ⟨key, old⟩ := entry
    rw [lookup, List.map_cons, List.mem_cons, ← ih]
    by_cases hkey : key = name
    · simp [hkey]
    · simp [hkey, Ne.symm hkey]

/-- The keys of a map are the names that have a value. -/
theorem mem_keys_iff {m : NameMap α} {name : String} :
    name ∈ m.keys ↔ (m.find? name).isSome = true :=
  lookup_isSome_iff.symm

/-! ### Names that have not been met -/

theorem mem_unmet_iff {m : NameMap α} {met : List String} {name : String} :
    name ∈ m.unmet met ↔ name ∈ m.keys ∧ name ∉ met := by
  rw [unmet, List.mem_filter, decide_eq_true_iff]

/-- One more name that is met is left no more. -/
theorem unmet_cons (m : NameMap α) (met : List String) (name : String) :
    m.unmet (name :: met) = (m.unmet met).filter (· != name) := by
  unfold unmet
  rw [List.filter_filter]
  refine List.filter_congr fun other _ => ?_
  by_cases heq : other = name <;> simp [heq]

theorem length_unmet_cons_le (m : NameMap α) (met : List String) (name : String) :
    (m.unmet (name :: met)).length ≤ (m.unmet met).length := by
  rw [unmet_cons]
  exact List.length_filter_le _ _

/-- Fewer names are left when a name is met that has a value. -/
theorem length_unmet_cons_lt {m : NameMap α} {met : List String} {name : String}
    (h : (m.find? name).isSome = true) (hnew : name ∉ met) :
    (m.unmet (name :: met)).length < (m.unmet met).length := by
  rw [unmet_cons, List.length_filter_lt_length_iff_exists]
  exact ⟨name, mem_unmet_iff.mpr ⟨mem_keys_iff.mpr h, hnew⟩, by simp⟩

/-- Before any name is met, all names are left. -/
theorem length_unmet_nil (m : NameMap α) : (m.unmet []).length = m.size := by
  have hall : m.unmet [] = m.keys := List.filter_eq_self.mpr fun _ _ => by simp
  rw [hall, keys, size, List.length_map]

end NameMap

end TagFilter
