import TagFilter.Proofs.Filter.LexesBack
import TagFilter.Proofs.RoundTrip

/-!
# Values that are their own literals

A value is its own literal when its written form is one literal of the same value.  These are the
values that a literal can express, and no others (`Value.lexesBack_iff_isExpressible`): all truth
values, strings, times and uris, the dates with years of four digits, the refs and symbols with
valid names, and the numbers whose unit is written and read back.

That nothing else is its own literal does not need a look at each written form.  Whatever is read
from it is something that the scanner produces, and a value that is the same as such a one can be
written.  Only a number may lose a part of its unit on the way, so the unit that is read back is
compared to the unit that was written (`Number.isExpressible_of_lexesBack`).
-/

namespace TagFilter

/-- A finite number has no unit or one that can follow its digits, any other number has none. -/
def Number.IsExpressible (n : Number) : Prop :=
  (n.magnitude.isFinite = true ∧ ∀ unit ∈ n.unit, unit ≠ "" ∧ IsUnitText unit.toList) ∨
    (n.magnitude.isFinite = false ∧ n.unit = none)

/-- A literal can express the value. -/
def Value.IsExpressible : Value → Prop
  | .bool _ | .str _ | .time _ | .uri _ => True
  | .date d => 0 ≤ d.year ∧ d.year ≤ 9999
  | .ref r => isId r.id = true
  | .symbol s => isId s.name = true
  | .number n => n.IsExpressible
  | .marker | .list _ | .dict _ => False

/-- A unit that is read has the characters that it is read from, and there are any. -/
theorem toList_of_unitOfChars {chars : List Char} {unit : String}
    (h : unitOfChars chars = some unit) : unit ≠ "" ∧ unit.toList = chars := by
  unfold unitOfChars at h
  split at h
  · cases h
  · next hempty =>
    cases h
    refine ⟨fun hnil => hempty ?_, String.toList_ofList⟩
    rw [← String.toList_eq_nil_iff, String.toList_ofList] at hnil
    exact List.isEmpty_iff.mpr hnil

section Numbers

variable {n : Number}

theorem Number.IsExpressible.isLiteral (h : n.IsExpressible) : n.IsLiteral := by
  intro hfinite unit hunit
  rcases h with ⟨-, hwritten⟩ | ⟨-, hnone⟩
  · exact hwritten unit hunit
  · rw [hnone] at hunit
    cases hunit

theorem Number.IsExpressible.writesUnit (h : n.IsExpressible) : n.WritesUnit :=
  h.imp And.left And.right

/-- A number that is its own literal keeps its unit, which therefore can follow its digits. -/
theorem Number.isExpressible_of_lexesBack (h : (Value.number n).LexesBack) : n.IsExpressible := by
  obtain ⟨w, htokens, hsame⟩ := h
  obtain ⟨m, rfl⟩ : ∃ m, w = .number m := by
    cases w with
    | number m => exact ⟨m, rfl⟩
    | _ => cases hsame
  have hunit : m.unit = n.unit := (Number.same_iff.mp hsame).2
  cases hfinite : n.magnitude.isFinite with
  | false =>
    have hwritten := htokens.symm.trans (n.tokenize_toText_of_not_finite hfinite)
    cases hwritten
    have hnone : n.written.unit = none := by
      unfold Number.written
      rw [hfinite]
      rfl
    exact Or.inr ⟨hfinite, hunit.symm.trans hnone⟩
  | true =>
    have hchars : n.HasUnitChars := by
      have hscanned : m.HasUnitChars := isScanned_of_tokenize htokens _ List.mem_cons_self
      unfold Number.HasUnitChars at hscanned ⊢
      rw [← hunit]
      exact hscanned
    obtain ⟨chars, htext, hread⟩ := Number.exists_isUnitText_tokenize hchars hfinite
    have hwritten := htokens.symm.trans hread
    cases hwritten
    refine Or.inl ⟨hfinite, fun unit hmem => ?_⟩
    obtain ⟨hne, hlist⟩ := toList_of_unitOfChars (hunit.trans hmem)
    rw [hlist]
    exact ⟨hne, htext⟩

theorem Number.IsExpressible.lexesBack (h : n.IsExpressible) : (Value.number n).LexesBack := by
  have hsame := n.same_written
  rw [Number.withWrittenUnit_eq_self h.writesUnit] at hsame
  exact ⟨.number n.written, n.tokenize_toText h.isLiteral, hsame⟩

end Numbers

/-- What a value that is its own literal is read as is a value that can be expressed, and so the
value can. -/
theorem Value.isExpressible_of_lexesBack {v : Value} (h : v.LexesBack) : v.IsExpressible := by
  obtain ⟨w, hscanned, hsame⟩ := h.exists_isScanned
  have hatom : v.IsAtom := Value.isAtom_of_same hscanned.isAtom hsame
  rcases Value.same_cases hatom hsame with rfl | ⟨-, n, -, rfl, -⟩ | ⟨-, r, -, rfl, -⟩
  · cases w with
    | number n => exact Number.isExpressible_of_lexesBack h
    | _ => exact hscanned
  · exact Number.isExpressible_of_lexesBack h
  · exact isId_of_lexesBack_ref h

/-- A value that is its own literal is a literal. -/
theorem Value.LexesBack.isLiteral {v : Value} (h : v.LexesBack) : v.IsLiteral := by
  have hexpressible := Value.isExpressible_of_lexesBack h
  cases v with
  | number n => exact Number.IsExpressible.isLiteral hexpressible
  | _ => exact hexpressible

/-- A value is its own literal exactly when a literal can express it: a truth value, a string, a
time or a uri, a date with a year of four digits, a ref or a symbol with a valid name, a finite
number without a unit or with one that can follow its digits, or any other number without a unit. -/
theorem Value.lexesBack_iff_isExpressible (v : Value) : v.LexesBack ↔ v.IsExpressible := by
  refine ⟨Value.isExpressible_of_lexesBack, fun h => ?_⟩
  cases v with
  | number n => exact h.lexesBack
  | marker | list | dict => exact h.elim
  | bool | str | date | time | ref | symbol | uri =>
    exact ⟨_, Value.tokenize_toText h, Value.same_written h⟩

end TagFilter
