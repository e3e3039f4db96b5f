import Mathlib.Logic.Relation
import TagFilter.Proofs.Removal
import TagFilter.Reachability

/-!
# What is reachable

`reachable` finds exactly the names to which a path leads from one of the given names
(`mem_reachable_iff`), on graphs with cycles, with shared names and with names that are not in the
map.

The search removes a name from the map when it meets it.  Nothing is lost: a path that passes
through the name can be taken up after the last time that it does so, at one of the names that
follow it (`exists_path_of_erase`).  With the name go its links, so that the search takes hardly
more steps than there are links, however often a name is shared (`length_reachable_le`).
-/

namespace TagFilter

/-- A name is followed by another one. -/
def NameMap.Leads (next : NameMap (List String)) (a b : String) : Prop :=
  ∃ names, next.find? a = some names ∧ b ∈ names

section Paths

variable {next : NameMap (List String)} {name a b : String} {names : List String}

theorem NameMap.Leads.of_erase (h : (next.erase name).Leads a b) : next.Leads a b := by
  obtain ⟨names, hfind, hmem⟩ := h
  exact ⟨names, NameMap.find?_of_find?_erase hfind, hmem⟩

theorem NameMap.Leads.erase (h : next.Leads a b) (hne : a ≠ name) :
    (next.erase name).Leads a b := by
  obtain ⟨names, hfind, hmem⟩ := h
  refine ⟨names, ?_, hmem⟩
  rw [NameMap.find?_erase, if_neg hne]
  exact hfind

/-- Only the empty path leads on from a name without a value. -/
theorem path_iff_of_find?_eq_none (hfind : next.find? a = none) :
    Relation.ReflTransGen next.Leads a b ↔ b = a := by
  refine Relation.reflTransGen_iff_eq ?_
  rintro c ⟨names, hnames, -⟩
  rw [hfind] at hnames
  cases hnames

/-- A path avoids a name, or it can be taken up behind it. -/
theorem exists_path_of_erase (hfind : next.find? name = some names)
    (h : Relation.ReflTransGen next.Leads a b) :
    Relation.ReflTransGen (next.erase name).Leads a b ∨
      ∃ follower ∈ names, Relation.ReflTransGen (next.erase name).Leads follower b := by
  induction h using Relation.ReflTransGen.head_induction_on with
  | refl => exact Or.inl .refl
  | @head a c hstep _ ih =>
    rcases ih with havoids | hbehind
    · by_cases ha : a = name
      · subst ha
        obtain ⟨others, hothers, hmem⟩ := hstep
        rw [hfind] at hothers
        cases hothers
        exact Or.inr ⟨c, hmem, havoids⟩
      · exact Or.inl (.head (hstep.erase ha) havoids)
    · exact Or.inr hbehind

end Paths

section Steps

variable {next : NameMap (List String)} {name : String} {names pending : List String}

/-- Behind a name without a value the search goes on with the pending names. -/
theorem reachable_of_find?_eq_none (h : next.find? name = none) :
    reachable next (name :: pending) = name :: reachable next pending := by
  rw [reachable]
  split
  · rfl
  · next hfound =>
    rw [h] at hfound
    cases hfound

/-- Behind any other name the search goes on with the names that follow it. -/
theorem reachable_of_find?_eq_some (h : next.find? name = some names) :
    reachable next (name :: pending) = name :: reachable (next.erase name) (names ++ pending) := by
  rw [reachable]
  split
  · next hnone =>
    rw [h] at hnone
    cases hnone
  · next hfound =>
    rw [h] at hfound
    cases hfound
    rfl

end Steps

/-- The names that are found are those to which a path leads from a pending one. -/
theorem mem_reachable_iff {next : NameMap (List String)} {pending : List String} {name : String} :
    name ∈ reachable next pending ↔
      ∃ first ∈ pending, Relation.ReflTransGen next.Leads first name := by
  fun_induction reachable next pending with
  | case1 next => simp only [List.not_mem_nil, false_and, exists_false]
  | case2 next first pending hfind ih =>
    simp only [List.mem_cons, ih, or_and_right, exists_or, exists_eq_left,
      path_iff_of_find?_eq_none hfind]
  | case3 next first pending names hfind ih =>
    rw [List.mem_cons, ih]
    constructor
    · rintro (rfl | ⟨start, hstart, hpath⟩)
      · exact ⟨name, List.mem_cons_self, .refl⟩
      · have hwhole : Relation.ReflTransGen next.Leads start name :=
          hpath.lift id fun _ _ h => NameMap.Leads.of_erase h
        rcases List.mem_append.mp hstart with hnames | hpending
        · exact ⟨first, List.mem_cons_self, .head ⟨names, hfind, hnames⟩ hwhole⟩
        · exact ⟨start, List.mem_cons_of_mem _ hpending, hwhole⟩
    · rintro ⟨start, hstart, hpath⟩
      rcases exists_path_of_erase hfind hpath with havoids | ⟨follower, hfollower, hbehind⟩
      · rcases List.mem_cons.mp hstart with rfl | hpending
        · have hremoved : (next.erase start).find? start = none := by
            rw [NameMap.find?_erase, if_pos rfl]
          exact Or.inl ((path_iff_of_find?_eq_none hremoved).mp havoids)
        · exact Or.inr ⟨start, List.mem_append_right _ hpending, havoids⟩
      · exact Or.inr ⟨follower, List.mem_append_left _ hfollower, hbehind⟩

/-! ### The length of a search -/

/-- The number of links of a graph. -/
def NameMap.links (next : NameMap (List String)) : Nat :=
  next.values.flatten.length

/-- With a name go the links to the names that follow it. -/
theorem NameMap.links_erase_le (next : NameMap (List String)) (name : String) :
    ((next.find? name).getD []).length + (next.erase name).links ≤ next.links := by
  obtain ⟨entries⟩ := next
  induction entries with
  | nil => exact Nat.le_refl 0
  | cons entry rest ih =>
    obtain ⟨key, followers⟩ := entry
    have hlinks (others : List (String × List String)) :
        links ⟨(key, followers) :: others⟩ = followers.length + links ⟨others⟩ :=
      List.length_append
    rw [hlinks]
    by_cases hkey : key = name
    · -- the name may stand in the rest too, but only its first entry is looked up
      have hfind : find? ⟨(key, followers) :: rest⟩ name = some followers := if_pos hkey
      have herase : erase ⟨(key, followers) :: rest⟩ name = erase ⟨rest⟩ name := by
        unfold erase
        rw [List.filter_cons_of_neg (by simp [hkey])]
      rw [hfind, herase, Option.getD_some]
      exact Nat.add_le_add_left (Nat.le_trans (Nat.le_add_left _ _) ih) _
    · have hfind : find? ⟨(key, followers) :: rest⟩ name = find? ⟨rest⟩ name := if_neg hkey
      have herase : (erase ⟨(key, followers) :: rest⟩ name).links =
          followers.length + (erase ⟨rest⟩ name).links := by
        unfold erase
        rw [List.filter_cons_of_pos (by simp [hkey])]
        exact hlinks _
      rw [hfind, herase]
      omega

/-- A search takes a step for each pending name and at most one for each link. -/
theorem length_reachable_le (next : NameMap (List String)) (pending : List String) :
    (reachable next pending).length ≤ pending.length + next.links := by
  fun_induction reachable next pending with
  | case1 next => exact Nat.zero_le _
  | case2 next first pending hfind ih =>
    rw [List.length_cons, List.length_cons]
    omega
  | case3 next first pending names hfind ih =>
    have herase := NameMap.links_erase_le next first
    rw [hfind, Option.getD_some] at herase
    rw [List.length_append] at ih
    rw [List.length_cons, List.length_cons]
    omega

end TagFilter
