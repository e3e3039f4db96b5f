import TagFilter.Token.Reading

/-!
# Quoted literals

How the text between two quotes is read: one equation for each way in which a character can be
written, from which it follows that a literal may be followed by anything (`readString_append`,
`readUri_append`) and that its written form is read back (`readString_flatMap`,
`readUri_flatMap`).
-/

namespace TagFilter

variable {literal rest text after : List Char} {c : Char}

/-- What is read behind a character of a literal, with that character in front. -/
def withChar (c : Char) (read : Except Stop (List Char × List Char)) :
    Except Stop (List Char × List Char) :=
  read.map fun (text, after) => (c :: text, after)

theorem withChar_eq_ok {read : Except Stop (List Char × List Char)} {inner : List Char}
    (h : withChar c read = .ok (inner, after)) :
    ∃ tail, read = .ok (tail, after) ∧ inner = c :: tail := by
  cases read with
  | error _ => cases h
  | ok pair =>
    obtain ⟨rfl, rfl⟩ := Prod.mk.inj (Except.ok.inj h)
    exact ⟨_, rfl, rfl⟩

theorem withChar_ok (c : Char) (tail after : List Char) :
    withChar c (.ok (tail, after)) = .ok (c :: tail, after) := rfl

/-! ### Strings -/

theorem readString_close (literal rest : List Char) :
    readString literal (doubleQuote :: rest) = .ok ([], rest) := by
  rw [readString.eq_def]
  simp only [if_true]

theorem readString_plain (hquote : c ≠ doubleQuote) (hslash : c ≠ backslash) :
    readString literal (c :: rest) = withChar c (readString literal rest) := by
  rw [readString.eq_def]
  simp only [hquote, hslash, if_false]
  rfl

theorem readString_escaped {e : Char} (hu : e ≠ 'u') (hc : escaped? e = some c) :
    readString literal (backslash :: e :: rest) = withChar c (readString literal rest) := by
  rw [readString.eq_def]
  simp only [show backslash ≠ doubleQuote by decide, if_true, if_false, hu, hc]
  rfl

theorem readString_codePoint {h₁ h₂ h₃ h₄ : Char} (hc : codePoint? h₁ h₂ h₃ h₄ = some c) :
    readString literal (backslash :: 'u' :: h₁ :: h₂ :: h₃ :: h₄ :: rest) =
      withChar c (readString literal rest) := by
  rw [readString.eq_def]
  simp only [show backslash ≠ doubleQuote by decide, if_true, if_false, hc]
  rfl

theorem readString_badEscape {e : Char} (hu : e ≠ 'u') (hc : escaped? e = none) :
    readString literal (backslash :: e :: rest) =
      .error ⟨.invalidLiteral [backslash, e], backslash :: e :: rest, rest⟩ := by
  rw [readString.eq_def]
  simp only [show backslash ≠ doubleQuote by decide, if_true, if_false, hu, hc]

theorem readString_badCodePoint {h₁ h₂ h₃ h₄ : Char} (hc : codePoint? h₁ h₂ h₃ h₄ = none) :
    readString literal (backslash :: 'u' :: h₁ :: h₂ :: h₃ :: h₄ :: rest) =
      .error (badCodePoint (backslash :: 'u' :: h₁ :: h₂ :: h₃ :: h₄ :: rest)
        (h₁ :: h₂ :: h₃ :: h₄ :: rest)) := by
  rw [readString.eq_def]
  simp only [show backslash ≠ doubleQuote by decide, if_true, if_false, hc]

/-- A string literal that has been read may be followed by anything. -/
theorem readString_append {inner : List Char} (hread : readString literal text = .ok (inner, after))
    (other rest : List Char) :
    readString other (text ++ rest) = .ok (inner, after ++ rest) := by
  fun_induction readString literal text generalizing inner with
  | case1 | case3 | case5 | case6 | case8 => cases hread
  | case2 tail =>
    cases hread
    exact readString_close other _
  | case4 h₁ h₂ h₃ h₄ tail c hc _ ih =>
    obtain ⟨inner, hinner, rfl⟩ := withChar_eq_ok hread
    rw [List.cons_append, List.cons_append, List.cons_append, List.cons_append, List.cons_append,
      List.cons_append, readString_codePoint hc, ih hinner]
    rfl
  | case7 e tail hu c hc _ ih =>
    obtain ⟨inner, hinner, rfl⟩ := withChar_eq_ok hread
    rw [List.cons_append, List.cons_append, readString_escaped hu hc, ih hinner]
    rfl
  | case9 c tail hquote hslash ih =>
    obtain ⟨inner, hinner, rfl⟩ := withChar_eq_ok hread
    rw [List.cons_append, readString_plain hquote hslash, ih hinner]
    rfl

theorem exists_of_length_eq_four {digits : List Char} (h : digits.length = 4) :
    ∃ h₁ h₂ h₃ h₄, digits = [h₁, h₂, h₃, h₄] := by
  match digits, h with
  | [h₁, h₂, h₃, h₄], _ => exact ⟨h₁, h₂, h₃, h₄, rfl⟩

/-- The code point escape of a control character stands for it. -/
theorem exists_codePoint_of_isControl (h : isControl c = true) :
    ∃ h₁ h₂ h₃ h₄, paddedDigits 16 4 c.toNat = [h₁, h₂, h₃, h₄] ∧
      codePoint? h₁ h₂ h₃ h₄ = some c := by
  have hall : ∀ n < 160, (paddedDigits 16 4 n).length = 4 ∧
      codePoint? ((paddedDigits 16 4 n).getD 0 '0') ((paddedDigits 16 4 n).getD 1 '0')
        ((paddedDigits 16 4 n).getD 2 '0') ((paddedDigits 16 4 n).getD 3 '0') =
          some (Char.ofNat n) := by
    decide +kernel
  have hlt : c.toNat < 160 := by
    simp only [isControl, Bool.or_eq_true, Bool.and_eq_true, decide_eq_true_eq] at h
    omega
  obtain ⟨hlength, hcode⟩ := hall c.toNat hlt
  obtain ⟨h₁, h₂, h₃, h₄, hdigits⟩ := exists_of_length_eq_four hlength
  rw [hdigits, Char.ofNat_toNat] at hcode
  exact ⟨h₁, h₂, h₃, h₄, hdigits, hcode⟩

/-- Every character of a string is read back from its written form. -/
theorem readString_escapeInString (literal rest : List Char) (c : Char) :
    readString literal (escapeInString c ++ rest) = withChar c (readString literal rest) := by
  unfold escapeInString
  split
  · next hc =>
    rcases hc with rfl | rfl
    · exact readString_escaped (by decide) (by decide)
    · exact readString_escaped (by decide) (by decide)
  split
  · next hc =>
    subst hc
    exact readString_escaped (by decide) (by decide)
  split
  · next hc =>
    subst hc
    exact readString_escaped (by decide) (by decide)
  split
  · next hc =>
    subst hc
    exact readString_escaped (by decide) (by decide)
  split
  · next hcontrol =>
    obtain ⟨h₁, h₂, h₃, h₄, hdigits, hc⟩ := exists_codePoint_of_isControl hcontrol
    rw [hdigits]
    exact readString_codePoint hc
  · next hne _ _ _ _ =>
    obtain ⟨hquote, hslash⟩ := not_or.mp hne
    exact readString_plain hquote hslash

/-- A string is read back from its written form. -/
theorem readString_flatMap (literal rest text : List Char) :
    readString literal (text.flatMap escapeInString ++ doubleQuote :: rest) = .ok (text, rest) := by
  induction text with
  | nil => exact readString_close literal rest
  | cons c text ih =>
    rw [List.flatMap_cons, List.append_assoc, readString_escapeInString, ih, withChar_ok]

/-! ### Uris -/

theorem readUri_close (literal rest : List Char) :
    readUri literal (backQuote :: rest) = .ok ([], rest) := by
  rw [readUri.eq_def]
  simp only [if_true]

theorem readUri_plain (hquote : c ≠ backQuote) (hslash : c ≠ backslash) :
    readUri literal (c :: rest) = withChar c (readUri literal rest) := by
  rw [readUri.eq_def]
  simp only [hquote, hslash, if_false]
  rfl

theorem readUri_escaped (hc : c = backQuote ∨ c = backslash) :
    readUri literal (backslash :: c :: rest) = withChar c (readUri literal rest) := by
  rw [readUri.eq_def]
  simp only [show backslash ≠ backQuote by decide, if_true, if_false, hc]
  rfl

/-- A backslash in front of any other character stands for itself. -/
theorem readUri_backslash (hc : ¬ (c = backQuote ∨ c = backslash)) :
    readUri literal (backslash :: c :: rest) =
      withChar backslash (readUri literal (c :: rest)) := by
  rw [readUri.eq_def]
  simp only [show backslash ≠ backQuote by decide, if_true, if_false, hc]
  rfl

/-- A uri literal that has been read may be followed by anything. -/
theorem readUri_append {inner : List Char} (hread : readUri literal text = .ok (inner, after))
    (other rest : List Char) :
    readUri other (text ++ rest) = .ok (inner, after ++ rest) := by
  fun_induction readUri literal text generalizing inner with
  | case1 | case3 => cases hread
  | case2 tail =>
    cases hread
    exact readUri_close other _
  | case4 e tail hc _ ih =>
    obtain ⟨inner, hinner, rfl⟩ := withChar_eq_ok hread
    rw [List.cons_append, List.cons_append, readUri_escaped hc, ih hinner]
    rfl
  | case5 e tail hc _ ih =>
    obtain ⟨inner, hinner, rfl⟩ := withChar_eq_ok hread
    rw [List.cons_append, List.cons_append, readUri_backslash hc, ← List.cons_append, ih hinner]
    rfl
  | case6 c tail hquote hslash ih =>
    obtain ⟨inner, hinner, rfl⟩ := withChar_eq_ok hread
    rw [List.cons_append, readUri_plain hquote hslash, ih hinner]
    rfl

/-- Every character of a uri is read back from its written form. -/
theorem readUri_escapeInUri (literal rest : List Char) (c : Char) :
    readUri literal (escapeInUri c ++ rest) = withChar c (readUri literal rest) := by
  unfold escapeInUri
  split
  · next hc => exact readUri_escaped hc
  · next hne =>
    obtain ⟨hquote, hslash⟩ := not_or.mp hne
    exact readUri_plain hquote hslash

/-- A uri is read back from its written form. -/
theorem readUri_flatMap (literal rest text : List Char) :
    readUri literal (text.flatMap escapeInUri ++ backQuote :: rest) = .ok (text, rest) := by
  induction text with
  | nil => exact readUri_close literal rest
  | cons c text ih =>
    rw [List.flatMap_cons, List.append_assoc, readUri_escapeInUri, ih, withChar_ok]

end TagFilter
