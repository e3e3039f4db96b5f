import Mathlib.Order.Bounds.Defs
import TagFilter.Text.EditDistance

/-!
# Edit distance as a least number of edits

`editDistance` finds the least number of single edits, each of which inserts, deletes or replaces a
character at any place, that turn one text into another (`isLeast_editDistance`).

Between the rows that are kept and the edits stands `distance`, which compares two texts from the
front, character by character.  The entries of a row are its values on the beginnings of the texts,
read from their ends (`foldl_nextRow`).  A single edit changes it by at most one, so that no edits
are fewer (`distance_le_of_edits`), and each of its three cases is met by an edit, so that there are
as many (`edits_distance`).
-/

namespace TagFilter

/-- A text becomes another one by a single edit, at any place. -/
inductive Edit : List Char → List Char → Prop where
  /-- A character is put in. -/
  | insert (before : List Char) (c : Char) (after : List Char) :
    Edit (before ++ after) (before ++ c :: after)
  /-- A character is taken out. -/
  | delete (before : List Char) (c : Char) (after : List Char) :
    Edit (before ++ c :: after) (before ++ after)
  /-- A character takes the place of another one. -/
  | replace (before : List Char) (c d : Char) (after : List Char) :
    Edit (before ++ c :: after) (before ++ d :: after)

/-- A text becomes another one by a number of single edits. -/
inductive Edits : Nat → List Char → List Char → Prop where
  /-- Nothing is edited. -/
  | refl (a : List Char) : Edits 0 a a
  /-- One more edit is made. -/
  | step {n : Nat} {a b c : List Char} (h : Edits n a b) (hlast : Edit b c) : Edits (n + 1) a c

/-! ### Edits -/

section Edits

variable {n : Nat} {a b : List Char}

theorem Edit.cons (h : Edit a b) (c : Char) : Edit (c :: a) (c :: b) := by
  cases h with
  | insert before d after => exact .insert (c :: before) d after
  | delete before d after => exact .delete (c :: before) d after
  | replace before d e after => exact .replace (c :: before) d e after

theorem Edits.cons (h : Edits n a b) (c : Char) : Edits n (c :: a) (c :: b) := by
  induction h with
  | refl a => exact .refl (c :: a)
  | step _ hlast ih => exact .step ih (hlast.cons c)

/-- An edit is an edit of the texts read backwards. -/
theorem Edit.reverse (h : Edit a b) : Edit a.reverse b.reverse := by
  cases h with
  | insert before c after =>
    simp only [List.reverse_append, List.reverse_cons, List.append_assoc, List.cons_append,
      List.nil_append]
    exact .insert after.reverse c before.reverse
  | delete before c after =>
    simp only [List.reverse_append, List.reverse_cons, List.append_assoc, List.cons_append,
      List.nil_append]
    exact .delete after.reverse c before.reverse
  | replace before c d after =>
    simp only [List.reverse_append, List.reverse_cons, List.append_assoc, List.cons_append,
      List.nil_append]
    exact .replace after.reverse c d before.reverse

theorem Edits.reverse (h : Edits n a b) : Edits n a.reverse b.reverse := by
  induction h with
  | refl a => exact .refl a.reverse
  | step _ hlast ih => exact .step ih hlast.reverse

/-- Edits can be preceded by another one. -/
theorem Edits.head {c : List Char} (hfirst : Edit a b) (h : Edits n b c) : Edits (n + 1) a c := by
  induction h with
  | refl b => exact .step (.refl a) hfirst
  | step _ hlast ih => exact .step (ih hfirst) hlast

/-- Without edits a text stays what it is. -/
theorem Edits.eq_of_zero (h : Edits 0 a b) : a = b := by
  cases h
  rfl

end Edits

/-! ### The distance from the front -/

/-- The number of edits between two texts that are compared from the front.  The first characters
are deleted, inserted, or brought in line with each other, whichever takes the fewest. -/
def distance : List Char → List Char → Nat
  | [], b => b.length
  | _ :: a, [] => a.length + 1
  | c :: a, d :: b =>
    min (min (distance a (d :: b) + 1) (distance (c :: a) b + 1))
      (if c = d then distance a b else distance a b + 1)
termination_by a b => a.length + b.length

section Distance

variable {a b : List Char}

@[simp] theorem distance_nil (b : List Char) : distance [] b = b.length := by
  rw [distance]

@[simp] theorem distance_cons_nil (c : Char) (a : List Char) :
    distance (c :: a) [] = a.length + 1 := by
  rw [distance]

theorem distance_cons_cons (c d : Char) (a b : List Char) :
    distance (c :: a) (d :: b) =
      min (min (distance a (d :: b) + 1) (distance (c :: a) b + 1))
        (if c = d then distance a b else distance a b + 1) := by
  rw [distance]

theorem distance_self (a : List Char) : distance a a = 0 := by
  induction a with
  | nil => rw [distance_nil, List.length_nil]
  | cons c a ih => rw [distance_cons_cons, if_pos rfl, ih, Nat.min_zero]

/-- The ways in which the first characters can be compared, each of which is an upper bound. -/
theorem distance_cons_cons_le (c d : Char) (a b : List Char) :
    distance (c :: a) (d :: b) ≤ distance a (d :: b) + 1 ∧
      distance (c :: a) (d :: b) ≤ distance (c :: a) b + 1 ∧
      distance (c :: a) (d :: b) ≤ distance a b + 1 := by
  rw [distance_cons_cons]
  split <;> omega

/-- The ways in which the first characters can be compared, of which one is taken. -/
theorem distance_cons_cons_cases (c d : Char) (a b : List Char) :
    distance (c :: a) (d :: b) = distance a (d :: b) + 1 ∨
      distance (c :: a) (d :: b) = distance (c :: a) b + 1 ∨
      (c = d ∧ distance (c :: a) (d :: b) = distance a b) ∨
      distance (c :: a) (d :: b) = distance a b + 1 := by
  rw [distance_cons_cons]
  split
  · next heq =>
    simp only [heq, true_and]
    omega
  · omega

/-- A character more in front of the first text costs at most one edit. -/
theorem distance_cons_left_le (c : Char) (a b : List Char) :
    distance (c :: a) b ≤ distance a b + 1 := by
  cases b with
  | nil => cases a <;> simp
  | cons d b => exact (distance_cons_cons_le c d a b).1

/-- A character more in front of the second text costs at most one edit. -/
theorem distance_cons_right_le (d : Char) (a b : List Char) :
    distance a (d :: b) ≤ distance a b + 1 := by
  cases a with
  | nil => simp
  | cons c a => exact (distance_cons_cons_le c d a b).2.1

/-- A character less in front of the second text costs at most one edit. -/
theorem distance_le_cons_right (d : Char) (a b : List Char) :
    distance a b ≤ distance a (d :: b) + 1 := by
  induction a with
  | nil =>
    simp only [distance_nil, List.length_cons]
    omega
  | cons c a ih =>
    have hleft := distance_cons_left_le c a b
    rcases distance_cons_cons_cases c d a b with h | h | ⟨-, h⟩ | h <;> omega

/-- Another character in front of the second text costs at most one edit. -/
theorem distance_replace_le (d e : Char) (a b : List Char) :
    distance a (e :: b) ≤ distance a (d :: b) + 1 := by
  induction a with
  | nil => simp
  | cons c a ih =>
    obtain ⟨hdelete, hinsert, hreplace⟩ := distance_cons_cons_le c e a b
    rcases distance_cons_cons_cases c d a b with h | h | ⟨-, h⟩ | h <;> omega

/-- A change behind a beginning of the second text costs at most one edit if it does so without the
beginning. -/
theorem distance_append_le {after after' : List Char}
    (h : ∀ a, distance a after' ≤ distance a after + 1) (before a : List Char) :
    distance a (before ++ after') ≤ distance a (before ++ after) + 1 := by
  induction before generalizing a with
  | nil => exact h a
  | cons d before ihbefore =>
    rw [List.cons_append, List.cons_append]
    induction a with
    | nil =>
      have hrest := ihbefore []
      simp only [distance_nil, List.length_cons] at hrest ⊢
      omega
    | cons c a ih =>
      have hrest := ihbefore a
      have hinner := ihbefore (c :: a)
      rw [distance_cons_cons, distance_cons_cons]
      split <;> omega

/-- A single edit of the second text changes the distance by at most one. -/
theorem distance_le_of_edit {c : List Char} (h : Edit b c) : distance a c ≤ distance a b + 1 := by
  cases h with
  | insert before d after =>
    exact distance_append_le (fun a => distance_cons_right_le d a after) before a
  | delete before d after =>
    exact distance_append_le (fun a => distance_le_cons_right d a after) before a
  | replace before d e after =>
    exact distance_append_le (fun a => distance_replace_le d e a after) before a

/-- No number of edits is less than the distance. -/
theorem distance_le_of_edits {n : Nat} (h : Edits n a b) : distance a b ≤ n := by
  induction h with
  | refl a => exact Nat.le_of_eq (distance_self a)
  | step _ hlast ih => exact Nat.le_trans (distance_le_of_edit hlast) (Nat.succ_le_succ ih)

/-- A text is made from nothing by as many edits as it has characters. -/
theorem edits_of_nil (b : List Char) : Edits b.length [] b := by
  induction b with
  | nil => exact .refl []
  | cons d b ih => exact .step ih (.insert [] d b)

/-- Nothing is left of a text after as many edits as it has characters. -/
theorem edits_to_nil (a : List Char) : Edits a.length a [] := by
  induction a with
  | nil => exact .refl []
  | cons c a ih => exact .head (.delete [] c a) ih

/-- There are as many edits as the distance says. -/
theorem edits_distance (a b : List Char) : Edits (distance a b) a b := by
  induction a, b using distance.induct with
  | case1 b =>
    rw [distance_nil]
    exact edits_of_nil b
  | case2 c a =>
    rw [distance_cons_nil]
    exact edits_to_nil (c :: a)
  | case3 c a d b ihdelete ihinsert ihboth =>
    rcases distance_cons_cons_cases c d a b with h | h | ⟨rfl, h⟩ | h
    · rw [h]
      exact .head (.delete [] c a) ihdelete
    · rw [h]
      exact .step ihinsert (.insert [] d b)
    · rw [h]
      exact ihboth.cons c
    · rw [h]
      exact .step (ihboth.cons c) (.replace [] c d b)

/-- The distance is the least number of edits. -/
theorem isLeast_distance (a b : List Char) : IsLeast {n | Edits n a b} (distance a b) :=
  ⟨edits_distance a b, fun _ h => distance_le_of_edits h⟩

/-- Read backwards, two texts are as far apart as before. -/
theorem distance_reverse (a b : List Char) : distance a.reverse b.reverse = distance a b := by
  refine Nat.le_antisymm (distance_le_of_edits (edits_distance a b).reverse) ?_
  have hback := (edits_distance a.reverse b.reverse).reverse
  rw [List.reverse_reverse, List.reverse_reverse] at hback
  exact distance_le_of_edits hback

end Distance

/-! ### Rows of distances -/

/-- The distances from a text to a beginning of another one with more and more of the characters
that follow it.  Both texts are given backwards. -/
def distancesAfter (a before : List Char) : List Char → List Nat
  | [] => []
  | d :: others => distance a (d :: before) :: distancesAfter a (d :: before) others

/-- The distances from a text, given backwards, to all beginnings of another one. -/
def distanceRow (a b : List Char) : List Nat :=
  distance a [] :: distancesAfter a [] b

section Rows

variable {a before others : List Char}

theorem nextEntries_distancesAfter (c : Char) :
    nextEntries c (distance a before) (distance (c :: a) before) others
      (distancesAfter a before others) = distancesAfter (c :: a) before others := by
  induction others generalizing before with
  | nil => rfl
  | cons d others ih =>
    have hentry : min (min (distance a (d :: before) + 1) (distance (c :: a) before + 1))
        (if c = d then distance a before else distance a before + 1) =
          distance (c :: a) (d :: before) := (distance_cons_cons c d a before).symm
    simp only [distancesAfter, nextEntries, hentry, ih]

/-- A step adds a character to the first text. -/
theorem nextRow_distanceRow (c : Char) (a b : List Char) :
    nextRow b (distanceRow a b) c = distanceRow (c :: a) b := by
  have hfirst : distance a [] + 1 = distance (c :: a) [] := by
    cases a <;> simp
  unfold nextRow distanceRow
  simp only [hfirst, nextEntries_distancesAfter]

theorem foldl_nextRow (a done b : List Char) :
    a.foldl (nextRow b) (distanceRow done b) = distanceRow (a.reverse ++ done) b := by
  induction a generalizing done with
  | nil => rfl
  | cons c a ih =>
    rw [List.foldl_cons, nextRow_distanceRow, ih, List.reverse_cons, List.append_assoc]
    rfl

/-- From the empty text, the distances are the lengths of the beginnings. -/
theorem distanceRow_nil (b : List Char) : distanceRow [] b = List.range (b.length + 1) := by
  have hafter : ∀ before others : List Char,
      distancesAfter [] before others = List.range' (before.length + 1) others.length := by
    intro before others
    induction others generalizing before with
    | nil => rfl
    | cons d others ih =>
      rw [distancesAfter, ih, distance_nil, List.length_cons, List.length_cons, List.range'_succ]
  rw [distanceRow, hafter, distance_nil, List.range_eq_range', List.range'_succ]
  rfl

/-- The last entry is the distance to the whole text. -/
theorem getLastD_distancesAfter (a before others : List Char) :
    (distancesAfter a before others).getLastD (distance a before) =
      distance a (others.reverse ++ before) := by
  induction others generalizing before with
  | nil => rfl
  | cons d others ih =>
    rw [distancesAfter, List.getLastD_cons, ih, List.reverse_cons, List.append_assoc]
    rfl

end Rows

theorem editDistance_eq_distance (a b : List Char) : editDistance a b = distance a b := by
  have hlast := getLastD_distancesAfter a.reverse [] b
  rw [List.append_nil, distance_reverse] at hlast
  rw [editDistance, ← distanceRow_nil, foldl_nextRow, List.append_nil, distanceRow,
    List.getLastD_cons, hlast]

/-- The edit distance is the least number of single edits that turn one text into the other. -/
theorem isLeast_editDistance (a b : List Char) : IsLeast {n | Edits n a b} (editDistance a b) := by
  rw [editDistance_eq_distance]
  exact isLeast_distance a b

/-- Only a text itself is at no distance. -/
theorem eq_of_editDistance_eq_zero {a b : List Char} (h : editDistance a b = 0) : a = b := by
  have hedits := (isLeast_editDistance a b).1
  rw [h] at hedits
  exact Edits.eq_of_zero hedits

end TagFilter
