/-!
# Computations that succeed

What is known of the parts of a computation that can fail when the whole of it succeeds.  Of a run
of steps it is what the single steps compute (`foldlM_eq_foldl`).
-/

namespace TagFilter

section Success

variable {ε δ α β : Type} {x : Except ε α}

theorem bind_eq_ok_iff {f : α → Except ε β} {b : β} :
    (x >>= f) = .ok b ↔ ∃ a, x = .ok a ∧ f a = .ok b := by
  cases x with
  | error e => exact ⟨nofun, fun ⟨_, h, _⟩ => nomatch h⟩
  | ok a =>
    constructor
    · exact fun h => ⟨a, rfl, h⟩
    · rintro ⟨_, ⟨⟩, h⟩
      exact h

theorem mapError_eq_ok_iff {f : ε → δ} {a : α} : x.mapError f = .ok a ↔ x = .ok a := by
  cases x with
  | error e => exact ⟨nofun, nofun⟩
  | ok b => exact ⟨fun h => congrArg _ (Except.ok.inj h), fun h => congrArg _ (Except.ok.inj h)⟩

theorem map_eq_ok_iff {f : α → β} {b : β} : x.map f = .ok b ↔ ∃ a, x = .ok a ∧ f a = b := by
  cases x with
  | error e => exact ⟨nofun, fun ⟨_, h, _⟩ => nomatch h⟩
  | ok a =>
    constructor
    · exact fun h => ⟨a, rfl, Except.ok.inj h⟩
    · rintro ⟨_, ⟨⟩, rfl⟩
      rfl

/-- The results for the members of a list have the images of the members, if a single result has the
image of its member. -/
theorem map_eq_of_mapM {γ : Type} {f : α → Except ε β} (g : α → γ) (k : β → γ) {xs : List α}
    {ys : List β} (hf : ∀ a b, f a = .ok b → k b = g a) (h : xs.mapM f = .ok ys) :
    ys.map k = xs.map g := by
  induction xs generalizing ys with
  | nil =>
    cases h
    rfl
  | cons a rest ih =>
    rw [List.mapM_cons] at h
    obtain ⟨b, hb, htail⟩ := bind_eq_ok_iff.mp h
    obtain ⟨others, hothers, hys⟩ := bind_eq_ok_iff.mp htail
    cases hys
    rw [List.map_cons, List.map_cons, hf a b hb, ih hothers]

/-- A run of steps computes what the steps compute in turn. -/
theorem foldlM_eq_foldl {γ : Type} {f : β → α → Except ε β} (g : γ → α → γ) (view : β → γ)
    {xs : List α} {b c : β} (hf : ∀ b, ∀ a ∈ xs, ∀ c, f b a = .ok c → view c = g (view b) a)
    (h : xs.foldlM f b = .ok c) : view c = xs.foldl g (view b) := by
  induction xs generalizing b with
  | nil =>
    cases h
    rfl
  | cons a rest ih =>
    rw [List.foldlM_cons] at h
    obtain ⟨next, hnext, hrest⟩ := bind_eq_ok_iff.mp h
    rw [List.foldl_cons, ← hf b a List.mem_cons_self next hnext]
    exact ih (fun b a hmem => hf b a (List.mem_cons_of_mem _ hmem)) hrest

end Success

end TagFilter
