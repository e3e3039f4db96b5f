import TagFilter.Text.CharClass

/-!
# Disjoint character classes

No digit opens a name or stands in a unit, and no blank is a character of a name or of an id.  The
blanks outside of ASCII, and no others, are characters of units.
-/

namespace TagFilter

variable {c : Char}

/-- The letters of ASCII by their codes. -/
theorem isAlpha_iff_toNat :
    c.isAlpha = true ↔ (65 ≤ c.toNat ∧ c.toNat ≤ 90) ∨ (97 ≤ c.toNat ∧ c.toNat ≤ 122) := by
  change (decide (_ ∧ _) || (decide _ && decide _)) = true ↔ _
  simp only [Bool.or_eq_true, Bool.and_eq_true, decide_eq_true_eq]
  exact Iff.rfl

/-- The digits by their codes. -/
theorem isDigit_iff_toNat : c.isDigit = true ↔ 48 ≤ c.toNat ∧ c.toNat ≤ 57 :=
  Char.isDigit_iff_toNat

theorem isDigit_of_isAlpha (h : c.isAlpha = true) : c.isDigit = false := by
  rw [Bool.eq_false_iff, ne_eq, isDigit_iff_toNat]
  rw [isAlpha_iff_toNat] at h
  omega

theorem isDigit_of_isNameStart (h : isNameStart c = true) : c.isDigit = false := by
  simp only [isNameStart, Bool.or_eq_true, beq_iff_eq] at h
  rcases h with h | rfl
  · exact isDigit_of_isAlpha h
  · decide

theorem isDigit_of_isUnitChar (h : isUnitChar c = true) : c.isDigit = false := by
  simp only [isUnitChar, Bool.or_eq_true, decide_eq_true_eq, beq_iff_eq] at h
  rcases h with ((((h | rfl) | rfl) | rfl) | rfl) | h
  · exact isDigit_of_isAlpha h
  · decide
  · decide
  · decide
  · decide
  · rw [Bool.eq_false_iff, ne_eq, isDigit_iff_toNat]
    omega

/-- No blank is a character of an id. -/
theorem isIdChar_of_isBlank (h : isBlank c = true) : isIdChar c = false := by
  simp only [isBlank, Bool.or_eq_true, Bool.and_eq_true, decide_eq_true_eq, beq_iff_eq] at h
  rw [Bool.eq_false_iff, ne_eq]
  simp only [isIdChar, Char.isAlphanum, Bool.or_eq_true, beq_iff_eq, isAlpha_iff_toNat,
    isDigit_iff_toNat]
  rintro (((((hletter | rfl) | rfl) | rfl) | rfl) | rfl)
  · omega
  all_goals
    revert h
    decide

/-- No blank is a character of a name. -/
theorem isNameChar_of_isBlank (h : isBlank c = true) : isNameChar c = false := by
  refine Bool.eq_false_iff.mpr fun hname => ?_
  have hid := isIdChar_of_isBlank h
  rw [isIdChar_of_isNameChar hname] at hid
  cases hid

/-- The blanks that a unit may take in are those outside of ASCII. -/
theorem isUnitChar_iff_of_isBlank (h : isBlank c = true) : isUnitChar c = true ↔ 128 ≤ c.toNat := by
  have hid := isIdChar_of_isBlank h
  simp only [isIdChar, Char.isAlphanum, Bool.or_eq_false_iff, beq_eq_false_iff_ne] at hid
  obtain ⟨⟨⟨⟨⟨⟨hletter, -⟩, hscore⟩, -⟩, -⟩, -⟩, -⟩ := hid
  have hmarks : c ≠ '%' ∧ c ≠ '/' ∧ c ≠ '$' := by
    refine ⟨?_, ?_, ?_⟩
    all_goals
      rintro rfl
      revert h
      decide
  simp only [isUnitChar, hletter, hscore, hmarks.1, hmarks.2.1, hmarks.2.2, beq_iff_eq,
    Bool.or_eq_true, decide_eq_true_eq, Bool.false_eq_true, false_or]

theorem isBlank_of_isDigit (h : c.isDigit = true) : isBlank c = false := by
  cases hblank : isBlank c with
  | false => rfl
  | true =>
    have hname := isNameChar_of_isBlank hblank
    rw [isNameChar, Char.isAlphanum, h, Bool.or_true, Bool.true_or] at hname
    cases hname

end TagFilter
