import TagFilter.Proofs.Boundary
import TagFilter.Proofs.CharClass
import TagFilter.Proofs.Number.ShortestDecimal
import TagFilter.Proofs.Scanner.Separation

/-!
# Texts of decimals

A decimal that is written without an exponent, with a unit after it, is read as a decimal of the
same value and that unit.  Underscores that the unit begins with are read as group marks of the
digits before it.
-/

namespace TagFilter

/-! ### Whole numbers -/

section WholeNumbers

variable {digits : List Char}

theorem isDigit_of_mem_toDigits {n : Nat} {c : Char} (hc : c ∈ Nat.toDigits 10 n) :
    c.isDigit = true :=
  Nat.isDigit_of_mem_toDigits (by decide) (by decide) hc

theorem isDigit_of_mem_zeros {n : Nat} {c : Char} (hc : c ∈ List.replicate n '0') :
    c.isDigit = true := by
  rw [List.eq_of_mem_replicate hc]
  decide

theorem wholeNumber_eq_ofDigitChars (hdigits : ∀ c ∈ digits, c.isDigit = true) :
    wholeNumber digits = Nat.ofDigitChars 10 digits 0 := by
  unfold wholeNumber Nat.ofDigitChars
  generalize 0 = start
  induction digits generalizing start with
  | nil => rfl
  | cons c rest ih =>
    rw [List.foldl_cons, List.foldl_cons, if_pos (hdigits c List.mem_cons_self)]
    exact ih (fun d hd => hdigits d (List.mem_cons_of_mem _ hd)) _

theorem wholeNumber_toDigits (n : Nat) : wholeNumber (Nat.toDigits 10 n) = n := by
  rw [wholeNumber_eq_ofDigitChars fun _ => isDigit_of_mem_toDigits, Nat.ofDigitChars_ten_toDigits]

/-- Zeros behind a number multiply it by powers of ten. -/
theorem wholeNumber_append_zeros (hdigits : ∀ c ∈ digits, c.isDigit = true) (places : Nat) :
    wholeNumber (digits ++ List.replicate places '0') =
      wholeNumber digits * Nat.pow 10 places := by
  have hall : ∀ c ∈ digits ++ List.replicate places '0', c.isDigit = true := by
    intro c hc
    rcases List.mem_append.mp hc with hc | hc
    · exact hdigits c hc
    · exact isDigit_of_mem_zeros hc
  rw [wholeNumber_eq_ofDigitChars hall, wholeNumber_eq_ofDigitChars hdigits,
    Nat.ofDigitChars_append, Nat.ofDigitChars_replicate_zero, Nat.mul_comm]
  rfl

theorem isDigit_of_mem_paddedDigits {width n : Nat} {c : Char} (hc : c ∈ paddedDigits 10 width n) :
    c.isDigit = true := by
  rcases List.mem_append.mp hc with hc | hc
  · exact isDigit_of_mem_zeros hc
  · exact isDigit_of_mem_toDigits hc

/-- Zeros in front of a number do not change it. -/
theorem wholeNumber_paddedDigits (width n : Nat) : wholeNumber (paddedDigits 10 width n) = n := by
  rw [wholeNumber_eq_ofDigitChars fun _ => isDigit_of_mem_paddedDigits, paddedDigits,
    Nat.ofDigitChars_append, Nat.ofDigitChars_replicate_zero, Nat.mul_zero,
    Nat.ofDigitChars_ten_toDigits]

/-- A number that fits a width is padded to exactly that width. -/
theorem length_paddedDigits {width n : Nat} (hwidth : 0 < width) (hn : n < Nat.pow 10 width) :
    (paddedDigits 10 width n).length = width := by
  have hlength := (Nat.length_toDigits_le_iff (by decide) hwidth).mpr hn
  rw [paddedDigits, List.length_append, List.length_replicate]
  omega

theorem digitCount_eq_length (hdigits : ∀ c ∈ digits, c.isDigit = true) :
    digitCount digits = digits.length :=
  List.countP_eq_length.mpr hdigits

section Marks

variable {marks : List Char}

/-- Group marks behind a number do not change it. -/
theorem wholeNumber_append_marks (h : ∀ c ∈ marks, c = '_') :
    wholeNumber (digits ++ marks) = wholeNumber digits := by
  unfold wholeNumber
  rw [List.foldl_append]
  generalize List.foldl _ 0 digits = number
  induction marks with
  | nil => rfl
  | cons c marks ih =>
    rw [List.foldl_cons, h c List.mem_cons_self]
    exact ih fun d hd => h d (List.mem_cons_of_mem _ hd)

theorem digitCount_append_marks (h : ∀ c ∈ marks, c = '_') :
    digitCount (digits ++ marks) = digitCount digits := by
  have hnone : marks.countP Char.isDigit = 0 := by
    rw [List.countP_eq_zero]
    intro c hc
    rw [h c hc]
    decide
  rw [digitCount, List.countP_append, hnone, Nat.add_zero, digitCount]

end Marks

end WholeNumbers

/-! ### Units -/

/-- A text of unit characters that does not begin with an underscore, and may be empty. -/
structure IsUnitText (unit : List Char) : Prop where
  /-- The text is made of unit characters. -/
  all : ∀ c ∈ unit, isUnitChar c = true
  /-- The text cannot be taken for a group mark of the digits before it. -/
  first : unit.head? ≠ some '_'

namespace IsUnitText

variable {unit : List Char}

/-- A unit does not go on where digits end. -/
theorem startsIn (h : IsUnitText unit) : StartsIn (fun c => !isDigitOrGroup c) unit := by
  intro c rest heq
  have hchar := isDigit_of_isUnitChar (h.all c (by rw [heq]; exact List.mem_cons_self))
  have hne : c ≠ '_' := by
    rintro rfl
    exact h.first (by rw [heq]; rfl)
  simp only [isDigitOrGroup, hchar, beq_eq_false_iff_ne.mpr hne, Bool.or_false, Bool.not_false]

/-- A character that is no unit character does not open a unit. -/
theorem ne_cons (h : IsUnitText unit) {c : Char} (hc : isUnitChar c = false) (rest : List Char) :
    unit ≠ c :: rest := by
  intro heq
  have hmem : c ∈ unit := by
    rw [heq]
    exact List.mem_cons_self
  rw [h.all c hmem] at hc
  cases hc

theorem readFraction_eq (h : IsUnitText unit) : Decimal.readFraction unit = ([], unit) :=
  readFraction_of_forall fun d tail heq => absurd heq (h.ne_cons (by decide) _)

/-- The characters after the first of a unit are no digits and no signs. -/
theorem readExponent_eq (h : IsUnitText unit) : Decimal.readExponent unit = (0, unit) := by
  cases unit with
  | nil => rfl
  | cons mark rest =>
    have hrest : ∀ c ∈ rest, isUnitChar c = true := fun c hc => h.all c (List.mem_cons_of_mem _ hc)
    unfold Decimal.readExponent
    simp only
    split
    · split
      · exact absurd (hrest '+' List.mem_cons_self) (by decide)
      · exact absurd (hrest '-' List.mem_cons_self) (by decide)
      · cases rest with
        | nil => rfl
        | cons c tail =>
          have hdigit := isDigit_of_isUnitChar (hrest c List.mem_cons_self)
          rw [Decimal.startsWithDigit, hdigit, if_neg Bool.false_ne_true]
    · rfl

end IsUnitText

/-! ### Reading -/

section Reading

variable {whole fraction unit : List Char} {negative : Bool}

/-- Digits and group marks with a unit after them are a whole number. -/
theorem readUnsigned_whole (hwhole : ∀ c ∈ whole, isDigitOrGroup c = true)
    (hunit : IsUnitText unit) :
    Decimal.readUnsigned negative (whole ++ unit) = (⟨negative, wholeNumber whole, 0⟩, unit) := by
  obtain ⟨htake, hdrop⟩ := hunit.startsIn.span_append hwhole
  unfold Decimal.readUnsigned
  simp only [htake, hdrop, hunit.readFraction_eq, hunit.readExponent_eq, List.append_nil]
  rfl

/-- Digits and group marks around a point with a unit after them are a number with as many places as
there are digits after the point. -/
theorem readUnsigned_fraction (hwhole : ∀ c ∈ whole, isDigitOrGroup c = true)
    (hfraction : ∀ c ∈ fraction, isDigitOrGroup c = true)
    (hdigit : Decimal.startsWithDigit fraction = true) (hunit : IsUnitText unit) :
    Decimal.readUnsigned negative (whole ++ '.' :: (fraction ++ unit)) =
      (⟨negative, wholeNumber (whole ++ fraction), -digitCount fraction⟩, unit) := by
  have hpoint : StartsIn (fun c => !isDigitOrGroup c) ('.' :: (fraction ++ unit)) :=
    startsIn_cons (by decide) _
  obtain ⟨htake, hdrop⟩ := hpoint.span_append hwhole
  obtain ⟨htake', hdrop'⟩ := hunit.startsIn.span_append hfraction
  have hread : Decimal.readFraction ('.' :: (fraction ++ unit)) = (fraction, unit) := by
    cases fraction with
    | nil => cases hdigit
    | cons d tail =>
      rw [List.cons_append] at htake' hdrop' ⊢
      rw [Decimal.readFraction, if_pos (show d.isDigit = true from hdigit), htake', hdrop']
  unfold Decimal.readUnsigned
  simp only [htake, hdrop, hread, hunit.readExponent_eq, Int.zero_sub]

end Reading

/-! ### Plain texts -/

namespace Decimal

/-- A decimal as it is read from its plain text: without a power of ten above zero. -/
def spelled (negative : Bool) (decimal : Decimal) : Decimal :=
  match decimal.exponent with
  | .ofNat places => ⟨negative, decimal.digits * Nat.pow 10 places, 0⟩
  | .negSucc n => ⟨negative, decimal.digits, .negSucc n⟩

/-- The plain text of a decimal is made of digits, or of digits around a point. -/
theorem plainText_cases (decimal : Decimal) :
    (∃ whole, decimal.plainText = whole ∧ whole ≠ [] ∧ (∀ c ∈ whole, c.isDigit = true) ∧
        ∀ negative, decimal.spelled negative = ⟨negative, wholeNumber whole, 0⟩) ∨
      ∃ whole fraction, decimal.plainText = whole ++ '.' :: fraction ∧ whole ≠ [] ∧
        fraction ≠ [] ∧ (∀ c ∈ whole, c.isDigit = true) ∧ (∀ c ∈ fraction, c.isDigit = true) ∧
        ∀ negative,
          decimal.spelled negative =
            ⟨negative, wholeNumber (whole ++ fraction), -fraction.length⟩ := by
  obtain ⟨sign, digits, exponent⟩ := decimal
  have hdigits := @isDigit_of_mem_toDigits digits
  cases exponent with
  | ofNat places =>
    refine Or.inl ⟨Nat.toDigits 10 digits ++ List.replicate places '0', rfl, ?_, ?_, ?_⟩
    · exact List.append_ne_nil_of_left_ne_nil Nat.toDigits_ne_nil _
    · intro c hc
      rcases List.mem_append.mp hc with hc | hc
      · exact hdigits hc
      · exact isDigit_of_mem_zeros hc
    · intro negative
      rw [wholeNumber_append_zeros fun _ => hdigits, wholeNumber_toDigits]
      rfl
  | negSucc n =>
    have hlong : n + 1 < (paddedDigits 10 (n + 1 + 1) digits).length := by
      rw [paddedDigits, List.length_append, List.length_replicate]
      omega
    have hall : ∀ c ∈ paddedDigits 10 (n + 1 + 1) digits, c.isDigit = true :=
      fun _ => isDigit_of_mem_paddedDigits
    have hnumber := wholeNumber_paddedDigits (n + 1 + 1) digits
    have htext : Decimal.plainText ⟨sign, digits, .negSucc n⟩ =
        (paddedDigits 10 (n + 1 + 1) digits).take
            ((paddedDigits 10 (n + 1 + 1) digits).length - (n + 1)) ++
          '.' :: (paddedDigits 10 (n + 1 + 1) digits).drop
            ((paddedDigits 10 (n + 1 + 1) digits).length - (n + 1)) := rfl
    rw [htext]
    generalize paddedDigits 10 (n + 1 + 1) digits = padded at hlong hall hnumber ⊢
    refine Or.inr ⟨_, _, rfl, ?_, ?_, ?_, ?_, ?_⟩
    · intro hnil
      have hzero := congrArg List.length hnil
      rw [List.length_take, List.length_nil] at hzero
      omega
    · intro hnil
      have hzero := congrArg List.length hnil
      rw [List.length_drop, List.length_nil] at hzero
      omega
    · exact fun c hc => hall c (List.mem_of_mem_take hc)
    · exact fun c hc => hall c (List.mem_of_mem_drop hc)
    · intro negative
      rw [List.take_append_drop, hnumber, List.length_drop]
      have hplaces : padded.length - (padded.length - (n + 1)) = n + 1 := by omega
      rw [hplaces]
      rfl

/-- The plain text of a decimal with a unit after it is read as that decimal; group marks between
them do not count. -/
theorem readUnsigned_plainText (negative : Bool) (decimal : Decimal) {marks unit : List Char}
    (hmarks : ∀ c ∈ marks, c = '_') (hunit : IsUnitText unit) :
    readUnsigned negative (decimal.plainText ++ (marks ++ unit)) =
      (decimal.spelled negative, unit) := by
  have hgroup : ∀ digits : List Char, (∀ c ∈ digits, c.isDigit = true) →
      ∀ c ∈ digits, isDigitOrGroup c = true := fun digits hdigits c hc => by
    rw [isDigitOrGroup, hdigits c hc, Bool.true_or]
  have hmarked : ∀ digits : List Char, (∀ c ∈ digits, c.isDigit = true) →
      ∀ c ∈ digits ++ marks, isDigitOrGroup c = true := by
    intro digits hdigits c hc
    rcases List.mem_append.mp hc with hc | hc
    · exact hgroup digits hdigits c hc
    · rw [hmarks c hc]
      rfl
  rcases decimal.plainText_cases with ⟨whole, htext, -, hwhole, hspelled⟩ |
    ⟨whole, fraction, htext, -, hne, hwhole, hfraction, hspelled⟩
  · rw [htext, hspelled, ← List.append_assoc, readUnsigned_whole (hmarked whole hwhole) hunit,
      wholeNumber_append_marks hmarks]
  · have hdigit : startsWithDigit (fraction ++ marks) = true := by
      cases fraction with
      | nil => exact absurd rfl hne
      | cons c rest => exact hfraction c List.mem_cons_self
    rw [htext, hspelled, List.append_assoc, List.cons_append, ← List.append_assoc fraction,
      readUnsigned_fraction (hgroup whole hwhole) (hmarked fraction hfraction) hdigit hunit,
      ← List.append_assoc, wholeNumber_append_marks hmarks, digitCount_append_marks hmarks,
      digitCount_eq_length hfraction]

/-- A plain text begins with a digit, and is made of digits and a point. -/
theorem plainText_spec (decimal : Decimal) :
    startsWithDigit decimal.plainText = true ∧
      ∀ c ∈ decimal.plainText, c.isDigit = true ∨ c = '.' := by
  have hstarts : ∀ whole : List Char, whole ≠ [] → (∀ c ∈ whole, c.isDigit = true) →
      ∀ rest, startsWithDigit (whole ++ rest) = true := by
    intro whole hne hwhole rest
    cases whole with
    | nil => exact absurd rfl hne
    | cons c tail => exact hwhole c List.mem_cons_self
  rcases decimal.plainText_cases with ⟨whole, htext, hne, hwhole, -⟩ |
    ⟨whole, fraction, htext, hne, -, hwhole, hfraction, -⟩
  · rw [htext]
    constructor
    · have hstart := hstarts whole hne hwhole []
      rwa [List.append_nil] at hstart
    · exact fun c hc => Or.inl (hwhole c hc)
  · rw [htext]
    constructor
    · exact hstarts whole hne hwhole _
    · intro c hc
      rcases List.mem_append.mp hc with hc | hc
      · exact Or.inl (hwhole c hc)
      · rcases List.mem_cons.mp hc with rfl | hc
        · exact Or.inr rfl
        · exact Or.inl (hfraction c hc)

end Decimal

/-- A decimal that reads back as a rank does so in its plain text. -/
theorem Magnitude.ofDecimal_spelled {rank : Fin rankLimit} {decimal : Decimal}
    (h : readsBack rank decimal.digits decimal.exponent = true) (negative : Bool) :
    ofDecimal (decimal.spelled negative) = .finite negative rank := by
  obtain ⟨sign, digits, exponent⟩ := decimal
  have hdecimal := ofDecimal_of_readsBack h negative
  cases exponent with
  | negSucc n => exact hdecimal
  | ofNat places =>
    by_cases hzero : digits = 0
    · subst hzero
      rw [← hdecimal, ofDecimal_zero]
      have hspelled : Decimal.spelled negative ⟨sign, 0, .ofNat places⟩ = ⟨negative, 0, 0⟩ := by
        simp only [Decimal.spelled, Nat.zero_mul]
      rw [hspelled, ofDecimal_zero]
    by_cases hlarge : 310 < places
    · -- A power of ten beyond the range would not have read back.
      rw [ofDecimal_large hzero hlarge] at hdecimal
      cases hdecimal
    · have hne : digits * Nat.pow 10 places ≠ 0 :=
        Nat.ne_of_gt (Nat.mul_pos (Nat.pos_of_ne_zero hzero) (Nat.pow_pos (by decide)))
      have hwhole := ofDecimal_ofNat hne (Nat.zero_le 310) negative
      rw [ofDecimal_ofNat hzero (Nat.not_lt.mp hlarge)] at hdecimal
      rw [← hdecimal]
      refine hwhole.trans ?_
      rw [show Nat.pow 10 0 = 1 from rfl, Nat.mul_one]

end TagFilter
