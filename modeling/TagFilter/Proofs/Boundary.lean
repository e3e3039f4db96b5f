/-!
# Boundaries of lists

Where a list is followed by another, reading from its front stops at the boundary if the second
list does not begin with something that could still be read.  `StartsIn` is this condition, for
the characters of a text as well as for tokens.
-/

namespace TagFilter

variable {α : Type}

/-- A list is empty, or its first element belongs to a class. -/
def StartsIn (ends : α → Bool) (rest : List α) : Prop :=
  ∀ first tail, rest = first :: tail → ends first = true

theorem startsIn_nil (ends : α → Bool) : StartsIn ends [] := by
  intro first tail h
  cases h

theorem startsIn_cons {ends : α → Bool} {first : α} (h : ends first = true) (tail : List α) :
    StartsIn ends (first :: tail) := by
  intro other rest heq
  obtain ⟨rfl, rfl⟩ := List.cons.inj heq
  exact h

theorem StartsIn.mono {some all : α → Bool} {rest : List α} (h : StartsIn some rest)
    (hle : ∀ first, some first = true → all first = true) : StartsIn all rest :=
  fun first tail heq => hle first (h first tail heq)

theorem StartsIn.ne_cons {ends : α → Bool} {rest : List α} (h : StartsIn ends rest) (first : α)
    {tail : List α} (hend : ends first = false) : rest ≠ first :: tail := by
  intro heq
  rw [h first tail heq] at hend
  cases hend

/-- A part of two joined lists that nothing behind the boundary belongs to is part of the first. -/
theorem StartsIn.append_eq_append {ends : α → Bool} {rest xs other : List α}
    (h : StartsIn ends rest) (front : List α) (heq : xs ++ rest = front ++ other)
    (hfront : ∀ a ∈ front, ends a = false) :
    ∃ middle, xs = front ++ middle ∧ other = middle ++ rest := by
  rcases List.append_eq_append_iff.mp heq with ⟨middle, hmiddle, hrest⟩ | ⟨middle, hxs, hother⟩
  · cases middle with
    | nil =>
      rw [List.append_nil] at hmiddle
      exact ⟨[], by rw [hmiddle, List.append_nil], hrest.symm⟩
    | cons a middle =>
      have ha : ends a = true := h a (middle ++ other) hrest
      have hmem : a ∈ front := by
        rw [hmiddle]
        exact List.mem_append_right _ List.mem_cons_self
      rw [hfront a hmem] at ha
      cases ha
  · exact ⟨middle, hxs, hother⟩

/-- What a class takes from the front of a list does not reach over a boundary. -/
theorem StartsIn.takeWhile_append {ends p : α → Bool} {rest : List α} (h : StartsIn ends rest)
    (hp : ∀ a, ends a = true → p a = false) (xs : List α) :
    (xs ++ rest).takeWhile p = xs.takeWhile p := by
  induction xs with
  | nil =>
    cases rest with
    | nil => rfl
    | cons a tail =>
      have ha : p a = false := hp a (h a tail rfl)
      rw [List.nil_append, List.takeWhile_cons_of_neg (by rw [ha]; exact Bool.false_ne_true)]
      rfl
  | cons x xs ih =>
    rw [List.cons_append, List.takeWhile_cons, List.takeWhile_cons, ih]

/-- What a class leaves of a list is followed by what stands behind a boundary. -/
theorem StartsIn.dropWhile_append {ends p : α → Bool} {rest : List α} (h : StartsIn ends rest)
    (hp : ∀ a, ends a = true → p a = false) (xs : List α) :
    (xs ++ rest).dropWhile p = xs.dropWhile p ++ rest := by
  induction xs with
  | nil =>
    cases rest with
    | nil => rfl
    | cons a tail =>
      have ha : p a = false := hp a (h a tail rfl)
      rw [List.nil_append, List.dropWhile_cons_of_neg (by rw [ha]; exact Bool.false_ne_true)]
      rfl
  | cons x xs ih =>
    rw [List.cons_append, List.dropWhile_cons, List.dropWhile_cons, ih]
    split
    · rfl
    · rfl

/-- A class takes exactly a list of its own up to what is not of the class. -/
theorem StartsIn.span_append {p : α → Bool} {xs rest : List α}
    (h : StartsIn (fun a => !p a) rest) (hxs : ∀ a ∈ xs, p a = true) :
    (xs ++ rest).takeWhile p = xs ∧ (xs ++ rest).dropWhile p = rest := by
  have hnot : ∀ a, (!p a) = true → p a = false := fun a ha => by simpa using ha
  have htake := h.takeWhile_append hnot []
  have hdrop := h.dropWhile_append hnot []
  rw [List.nil_append, List.takeWhile_nil] at htake
  rw [List.nil_append, List.dropWhile_nil, List.nil_append] at hdrop
  constructor
  · rw [List.takeWhile_append_of_pos hxs, htake, List.append_nil]
  · rw [List.dropWhile_append_of_pos hxs, hdrop]

/-- A class that stops within a list does not reach over its end. -/
theorem span_append_of_dropWhile_ne_nil {p : α → Bool} {xs : List α} (h : xs.dropWhile p ≠ [])
    (rest : List α) :
    (xs ++ rest).takeWhile p = xs.takeWhile p ∧
      (xs ++ rest).dropWhile p = xs.dropWhile p ++ rest := by
  induction xs with
  | nil => exact absurd rfl h
  | cons x xs ih =>
    simp only [List.cons_append, List.takeWhile_cons, List.dropWhile_cons] at h ⊢
    by_cases hx : p x = true
    · rw [if_pos hx] at h
      simp only [hx, if_true, (ih h).1, (ih h).2, and_self]
    · simp only [hx, Bool.false_eq_true, if_false, List.cons_append, and_self]

/-- A class takes the whole of a list of its own. -/
theorem span_of_forall {p : α → Bool} {xs : List α} (hxs : ∀ a ∈ xs, p a = true) :
    xs.takeWhile p = xs ∧ xs.dropWhile p = [] := by
  have hspan := (startsIn_nil (fun a => !p a)).span_append hxs
  rwa [List.append_nil] at hspan

end TagFilter
