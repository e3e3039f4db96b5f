import TagFilter.NameMap

/-!
# Removal from maps

The searches of the library remove from a map what they have met.  A removed name has no value, and
every other name keeps its own.
-/

namespace TagFilter

theorem lookup_filter_ne {α : Type} (name other : String) (entries : List (String × α)) :
    NameMap.lookup other (entries.filter fun entry => entry.1 != name) =
      if other = name then none else NameMap.lookup other entries := by
  induction entries with
  | nil => simp only [List.filter_nil, NameMap.lookup, ite_self]
  | cons entry rest ih =>
    obtain ⟨key, value⟩ := entry
    rw [List.filter_cons]
    by_cases hkey : key = name
    · subst hkey
      simp only [bne_self_eq_false, Bool.false_eq_true, if_false, ih, NameMap.lookup]
      by_cases hother : other = key
      · rw [if_pos hother, if_pos hother]
      · rw [if_neg hother, if_neg hother, if_neg (Ne.symm hother)]
    · simp only [bne_iff_ne, ne_eq, hkey, not_false_eq_true, if_true, NameMap.lookup, ih]
      by_cases hother : key = other
      · subst hother
        rw [if_pos rfl, if_neg hkey, if_pos rfl]
      · rw [if_neg hother, if_neg hother]

/-- A name is removed, and every other name keeps its value. -/
theorem NameMap.find?_erase {α : Type} (m : NameMap α) (name other : String) :
    (m.erase name).find? other = if other = name then none else m.find? other :=
  lookup_filter_ne name other m.entries

/-- Whatever is left was there before. -/
theorem NameMap.find?_of_find?_erase {α : Type} {m : NameMap α} {name other : String} {value : α}
    (h : (m.erase name).find? other = some value) : m.find? other = some value := by
  rw [NameMap.find?_erase] at h
  split at h
  · cases h
  · exact h

end TagFilter
