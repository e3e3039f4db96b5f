import TagFilter.Proofs.Scanner.CalendarText
import TagFilter.Proofs.Scanner.Words
import TagFilter.Token.Reading

/-!
# Literals

The written form of a value is read back as a value that is the same: all of it, but for the display
name of a ref, the sign of zero and the unit of a number that is not finite, none of which is
written.  `Value.IsLiteral` says which values have a literal, and `Value.written` is the value that
is read back.
-/

namespace TagFilter

/-! ### Numbers -/

/-- The unit of a number that has one can follow its digits. -/
def Number.IsLiteral (n : Number) : Prop :=
  n.magnitude.isFinite = true → ∀ unit ∈ n.unit, unit ≠ "" ∧ IsUnitText unit.toList

/-- The number that is read back from the written form of a number. -/
def Number.written (n : Number) : Number where
  magnitude := if n.magnitude.key = 0 then .zero else n.magnitude
  unit := if n.magnitude.isFinite then n.unit else none

/-- The unit of a number that is read, from the characters after its digits. -/
def unitOfChars (unit : List Char) : Option String :=
  if unit.isEmpty then none else some (String.ofList unit)

theorem scanNumber_eq {text unit : List Char} {decimal : Decimal}
    (hread : Decimal.read text = (decimal, unit)) (hunit : IsUnitText unit) :
    scanNumber text = .token (.value (.number ⟨.ofDecimal decimal, unitOfChars unit⟩)) [] := by
  obtain ⟨htake, hdrop⟩ := span_of_forall hunit.all
  unfold scanNumber
  simp only [hread, htake, hdrop]
  rfl

section Digits

variable {text : List Char}

/-- A text that begins with a digit and has neither dashes nor colons is a number. -/
theorem scan_of_startsWithDigit (hdigit : Decimal.startsWithDigit text = true)
    (hdash : '-' ∉ text) (hcolon : ':' ∉ text) : scan text = scanNumber text := by
  have hdate : readDate? text = none := by
    refine readDate?_of_forall fun y₁ y₂ y₃ y₄ m₁ m₂ d₁ d₂ tail heq => absurd ?_ hdash
    simp [heq]
  have htime : readTime? text = none := by
    refine readTime?_of_forall fun h₁ h₂ m₁ m₂ tail heq => absurd ?_ hcolon
    simp [heq]
  cases text with
  | nil => cases hdigit
  | cons c rest => rw [scan_of_isDigit hdigit, scanDigits, hdate, htime]

/-- A dash in front of a digit is the sign of a number. -/
theorem scanNegative_of_startsWithDigit (hdigit : Decimal.startsWithDigit text = true) :
    scanNegative text = scanNumber ('-' :: text) := by
  unfold scanNegative
  split
  · -- The word for minus infinity begins with a letter.
    cases hdigit
  · rw [if_pos hdigit]

theorem read_of_not_mem_dash (hdash : '-' ∉ text) :
    Decimal.read text = Decimal.readUnsigned false text := by
  unfold Decimal.read
  split
  · exact absurd List.mem_cons_self hdash
  · rfl

end Digits

section PlainTexts

variable {decimal : Decimal} {marks unit : List Char}

theorem startsWithDigit_plainText (decimal : Decimal) (unit : List Char) :
    Decimal.startsWithDigit (decimal.plainText ++ unit) = true := by
  have hdigit := decimal.plainText_spec.1
  cases htext : decimal.plainText with
  | nil =>
    rw [htext] at hdigit
    cases hdigit
  | cons c rest =>
    rw [htext] at hdigit
    exact hdigit

/-- The characters of a number as text: digits, the point, and those of units. -/
theorem not_mem_plainText (hunit : ∀ c ∈ unit, isUnitChar c = true) {c : Char}
    (hc : c.isDigit = false) (hpoint : c ≠ '.') (hchar : isUnitChar c = false) :
    c ∉ decimal.plainText ++ unit := by
  intro hmem
  rcases List.mem_append.mp hmem with hmem | hmem
  · rcases decimal.plainText_spec.2 c hmem with h | h
    · rw [hc] at h
      cases h
    · exact hpoint h
  · rw [hunit c hmem] at hchar
    cases hchar

/-- The plain text of a decimal with a unit after it is scanned as a number, with either sign; group
marks between them do not count. -/
theorem scan_plainText (negative : Bool) (decimal : Decimal) (hmarks : ∀ c ∈ marks, c = '_')
    (hunit : IsUnitText unit) :
    scan ((if negative then ['-'] else []) ++ (decimal.plainText ++ (marks ++ unit))) =
      .token (.value (.number ⟨.ofDecimal (decimal.spelled negative), unitOfChars unit⟩)) [] := by
  have hchars : ∀ c ∈ marks ++ unit, isUnitChar c = true := by
    intro c hc
    rcases List.mem_append.mp hc with hc | hc
    · rw [hmarks c hc]
      rfl
    · exact hunit.all c hc
  have hread := Decimal.readUnsigned_plainText negative decimal hmarks hunit
  have hfirst := startsWithDigit_plainText decimal (marks ++ unit)
  have hdash : '-' ∉ decimal.plainText ++ (marks ++ unit) :=
    not_mem_plainText hchars (by decide) (by decide) (by decide)
  have hcolon : ':' ∉ decimal.plainText ++ (marks ++ unit) :=
    not_mem_plainText hchars (by decide) (by decide) (by decide)
  cases negative with
  | false =>
    rw [if_neg Bool.false_ne_true, List.nil_append, scan_of_startsWithDigit hfirst hdash hcolon]
    exact scanNumber_eq ((read_of_not_mem_dash hdash).trans hread) hunit
  | true =>
    rw [if_pos rfl, List.cons_append, List.nil_append]
    exact (scanNegative_of_startsWithDigit hfirst).trans (scanNumber_eq hread hunit)

end PlainTexts

theorem IsUnitText.nil : IsUnitText [] where
  all := List.forall_mem_nil _
  first := by decide

/-- The characters of the unit of a number, as they are written behind its digits. -/
def Number.unitChars (n : Number) : List Char :=
  match n.unit with
  | some unit => unit.toList
  | none => []

/-- A unit is read from its own characters. -/
theorem Number.unitChars_unitOfChars (magnitude : Magnitude) (unit : List Char) :
    (Number.mk magnitude (unitOfChars unit)).unitChars = unit := by
  cases unit with
  | nil => rfl
  | cons c rest => exact String.toList_ofList

theorem Number.isUnitText_unitChars {n : Number} (h : n.IsLiteral)
    (hfinite : n.magnitude.isFinite = true) :
    IsUnitText n.unitChars ∧ unitOfChars n.unitChars = n.unit := by
  obtain ⟨magnitude, unit⟩ := n
  cases unit with
  | none => exact ⟨IsUnitText.nil, rfl⟩
  | some unit =>
    obtain ⟨hne, htext⟩ := h hfinite unit rfl
    refine ⟨htext, ?_⟩
    have hempty : unit.toList.isEmpty = false := by
      rw [Bool.eq_false_iff, ne_eq, List.isEmpty_iff, String.toList_eq_nil_iff]
      exact hne
    unfold unitOfChars Number.unitChars
    simp only [hempty, String.ofList_toList, Bool.false_eq_true, if_false]

/-- The digits of a finite number are followed by its unit. -/
theorem Number.toList_toText {n : Number} (hfinite : n.magnitude.isFinite = true) :
    n.toText.toList = (magnitudeText n.magnitude).toList ++ n.unitChars := by
  obtain ⟨magnitude, unit⟩ := n
  cases unit with
  | none => exact (List.append_nil _).symm
  | some unit =>
    unfold Number.toText Number.unitChars
    simp only at hfinite ⊢
    rw [if_pos hfinite, String.toList_append]

/-- A number that is not finite is written without its unit. -/
theorem Number.toText_of_isFinite_eq_false {n : Number} (hfinite : n.magnitude.isFinite = false) :
    n.toText = magnitudeText n.magnitude := by
  obtain ⟨magnitude, unit⟩ := n
  cases unit with
  | none => rfl
  | some unit =>
    unfold Number.toText
    simp only at hfinite ⊢
    rw [hfinite, if_neg Bool.false_ne_true]

theorem Magnitude.key_finite_eq_zero_iff {negative : Bool} {rank : Fin rankLimit} :
    (Magnitude.finite negative rank).key = 0 ↔ rank.val = 0 := by
  cases negative with
  | false => exact Int.natCast_eq_zero
  | true => exact Int.neg_eq_zero.trans Int.natCast_eq_zero

/-- The digits of a finite magnitude are the plain text of a decimal that reads back. -/
theorem magnitudeText_finite (negative : Bool) (rank : Fin rankLimit) :
    ∃ (sign : Bool) (decimal : Decimal), (Number.magnitudeText (.finite negative rank)).toList =
        (if sign then ['-'] else []) ++ decimal.plainText ∧
      Magnitude.ofDecimal (decimal.spelled sign) =
        if (Magnitude.finite negative rank).key = 0 then .zero else .finite negative rank := by
  unfold Number.magnitudeText
  by_cases hzero : rank.val = 0
  · have hkey : (Magnitude.finite negative rank).key = 0 :=
      Magnitude.key_finite_eq_zero_iff.mpr hzero
    refine ⟨false, ⟨false, 0, 0⟩, ?_, ?_⟩
    · rw [if_pos hkey]
      rfl
    · have hspelled : Decimal.spelled false ⟨false, 0, 0⟩ = ⟨false, 0, 0⟩ := rfl
      rw [if_pos hkey, hspelled]
      exact Magnitude.ofDecimal_zero false 0
  · have hkey : (Magnitude.finite negative rank).key ≠ 0 := fun h =>
      hzero (Magnitude.key_finite_eq_zero_iff.mp h)
    have hdigits : (Magnitude.plainDigits rank).toList = (Magnitude.shortest rank).plainText := by
      unfold Magnitude.plainDigits
      rw [if_neg hzero, String.toList_ofList]
    obtain ⟨digits, exponent, hshortest, hback⟩ :=
      Magnitude.readsBack_shortest (Nat.pos_of_ne_zero hzero)
    refine ⟨negative, Magnitude.shortest rank, ?_, ?_⟩
    · rw [if_neg hkey]
      unfold Magnitude.toText
      cases negative with
      | false =>
        rw [if_neg Bool.false_ne_true, List.nil_append]
        exact hdigits
      | true =>
        rw [if_pos rfl]
        simp only
        rw [String.toList_append, hdigits]
        rfl
    · rw [if_neg hkey]
      refine Magnitude.ofDecimal_spelled ?_ negative
      rw [hshortest]
      exact hback

/-- A finite number whose unit may begin with underscores is read back without these. -/
theorem Number.tokenize_toText_of_marks {n : Number} {marks unit : List Char}
    (hfinite : n.magnitude.isFinite = true) (hchars : n.unitChars = marks ++ unit)
    (hmarks : ∀ c ∈ marks, c = '_') (hunit : IsUnitText unit) :
    tokenize n.toText =
      .ok [.value (.number ⟨if n.magnitude.key = 0 then .zero else n.magnitude,
        unitOfChars unit⟩)] := by
  refine tokenize_of_scan ?_
  cases hmagnitude : n.magnitude with
  | finite negative rank =>
    obtain ⟨sign, decimal, htext, hdecimal⟩ := magnitudeText_finite negative rank
    rw [n.toList_toText hfinite, hmagnitude, htext, List.append_assoc, hchars,
      scan_plainText sign decimal hmarks hunit, hdecimal]
  | infinite | nan =>
    rw [hmagnitude] at hfinite
    cases hfinite

/-- A number that is not finite is read back without its unit. -/
theorem Number.tokenize_toText_of_not_finite {n : Number}
    (hfinite : n.magnitude.isFinite = false) :
    tokenize n.toText = .ok [.value (.number n.written)] := by
  refine tokenize_of_scan ?_
  rw [n.toText_of_isFinite_eq_false hfinite, Number.written, hfinite]
  cases hmagnitude : n.magnitude with
  | finite negative rank =>
    rw [hmagnitude] at hfinite
    cases hfinite
  | infinite negative => cases negative <;> rfl
  | nan => rfl

/-- A number is read back from its written form. -/
theorem Number.tokenize_toText {n : Number} (h : n.IsLiteral) :
    tokenize n.toText = .ok [.value (.number n.written)] := by
  cases hfinite : n.magnitude.isFinite with
  | true =>
    obtain ⟨hunit, hunitOf⟩ := n.isUnitText_unitChars h hfinite
    have hread := n.tokenize_toText_of_marks hfinite (List.nil_append _).symm
      (List.forall_mem_nil _) hunit
    rw [hread, hunitOf, Number.written, hfinite, if_pos rfl]
  | false => exact n.tokenize_toText_of_not_finite hfinite

/-! ### Values -/

/-- The value can be written as a literal of a filter. -/
def Value.IsLiteral : Value → Prop
  | .bool _ | .str _ | .time _ | .uri _ => True
  | .number n => n.IsLiteral
  | .date d => d.IsWritable
  | .ref r => isId r.id = true
  | .symbol s => isId s.name = true
  | .marker | .list _ | .dict _ => False

/-- The value that is read back from the written form of a value. -/
def Value.written : Value → Value
  | .number n => .number n.written
  | .ref r => .ref ⟨r.id, none⟩
  | v => v

/-- A string is read back from its written form. -/
theorem tokenize_quoteString (text : String) :
    tokenize (quoteString text) = .ok [.value (.str text)] := by
  have hlist : (quoteString text).toList =
      doubleQuote :: (text.toList.flatMap escapeInString ++ [doubleQuote]) := String.toList_ofList
  have hscan (rest : List Char) : scan (doubleQuote :: rest) =
      scanQuoted .str (readString (doubleQuote :: rest) rest) := rfl
  refine tokenize_of_scan ?_
  rw [hlist, hscan, readString_flatMap]
  unfold scanQuoted
  simp only [String.ofList_toList]

/-- A uri is read back from its written form. -/
theorem tokenize_quoteUri (text : String) :
    tokenize (quoteUri text) = .ok [.value (.uri ⟨text⟩)] := by
  have hlist : (quoteUri text).toList =
      backQuote :: (text.toList.flatMap escapeInUri ++ [backQuote]) := String.toList_ofList
  have hscan (rest : List Char) : scan (backQuote :: rest) =
      scanQuoted (fun text => .uri ⟨text⟩) (readUri (backQuote :: rest) rest) := rfl
  refine tokenize_of_scan ?_
  rw [hlist, hscan, readUri_flatMap]
  unfold scanQuoted
  simp only [String.ofList_toList]

/-- A value that has a literal is read back from its written form. -/
theorem Value.tokenize_toText {v : Value} (h : v.IsLiteral) :
    tokenize v.toText = .ok [.value v.written] := by
  cases v with
  | bool b => cases b <;> exact tokenize_of_scan rfl
  | number n => exact n.tokenize_toText h
  | str text => exact tokenize_quoteString text
  | date d => exact d.tokenize_toText h
  | time t => exact t.tokenize_toText
  | ref r => exact tokenize_ref h
  | symbol s => exact tokenize_symbol h
  | uri u => exact tokenize_quoteUri u.text
  | marker | list | dict => exact h.elim

end TagFilter
