import TagFilter.Proofs.Boundary
import TagFilter.Proofs.CharClass
import TagFilter.Proofs.Scanner.Quoted

/-!
# Separated texts

A separator is a blank of ASCII or a parenthesis.  No separator can continue a token, so a
text that can be read as tokens is read in the same way in front of any text that begins with a
separator (`readChars_append`).  The readers of `Token.Scanner` are taken one after the other:
each reads the same, and leaves what it left before followed by the other text.

The blanks outside of ASCII are nearly separators.  They continue no token but a number at the end
of a text (`EndsInNumber`), since a unit takes in any character outside of ASCII.  The readers are
therefore taken in front of blanks of any kind, and only where numbers are read is something asked
of the character behind them (`readChars_append_gap`).
-/

namespace TagFilter

/-- The characters that continue no token. -/
def isSeparator (c : Char) : Bool :=
  c == '(' || c == ')' || c == ' ' || c == '\t' || c == '\n' || c == '\x0b' || c == '\x0c' ||
    c == '\r'

/-- What holds of each of the separators holds of a separator. -/
theorem isSeparator_rec {P : Char → Prop} {c : Char} (h : isSeparator c = true)
    (hP : P '(' ∧ P ')' ∧ P ' ' ∧ P '\t' ∧ P '\n' ∧ P '\x0b' ∧ P '\x0c' ∧ P '\r') : P c := by
  obtain ⟨h₁, h₂, h₃, h₄, h₅, h₆, h₇, h₈⟩ := hP
  simp only [isSeparator, Bool.or_eq_true, beq_iff_eq] at h
  rcases h with ((((((rfl | rfl) | rfl) | rfl) | rfl) | rfl) | rfl) | rfl <;> assumption

theorem isUnitChar_of_isSeparator (c : Char) (h : isSeparator c = true) : isUnitChar c = false :=
  isSeparator_rec (P := fun c => isUnitChar c = false) h (by decide)

/-! ### Gaps -/

/-- The characters that continue no token but a number: parentheses, and blanks of any kind. -/
def isGap (c : Char) : Bool :=
  c == '(' || c == ')' || isBlank c

theorem isGap_of_isSeparator (c : Char) (h : isSeparator c = true) : isGap c = true :=
  isSeparator_rec (P := fun c => isGap c = true) h (by decide)

theorem isGap_of_isBlank (c : Char) (h : isBlank c = true) : isGap c = true := by
  rw [isGap, h, Bool.or_true]

/-- What begins with a separator begins with a gap. -/
theorem StartsIn.gap {rest : List Char} (h : StartsIn isSeparator rest) : StartsIn isGap rest :=
  h.mono isGap_of_isSeparator

/-- What begins with a separator continues no unit. -/
theorem StartsIn.not_unit {rest : List Char} (h : StartsIn isSeparator rest) :
    StartsIn (fun c => !isUnitChar c) rest :=
  h.mono fun c hc => by rw [isUnitChar_of_isSeparator c hc, Bool.not_false]

theorem ne_of_isGap {c d : Char} (h : isGap c = true) (hd : isGap d = false) : c ≠ d := by
  rintro rfl
  rw [h] at hd
  cases hd

theorem isIdChar_of_isGap (c : Char) (h : isGap c = true) : isIdChar c = false := by
  simp only [isGap, Bool.or_eq_true, beq_iff_eq] at h
  rcases h with (rfl | rfl) | h
  · decide
  · decide
  · exact isIdChar_of_isBlank h

theorem isNameChar_of_isGap (c : Char) (h : isGap c = true) : isNameChar c = false := by
  refine Bool.eq_false_iff.mpr fun hname => ?_
  have hid := isIdChar_of_isGap c h
  rw [isIdChar_of_isNameChar hname] at hid
  cases hid

theorem isNameStart_of_isGap (c : Char) (h : isGap c = true) : isNameStart c = false := by
  refine Bool.eq_false_iff.mpr fun hstart => ?_
  have hname := isNameChar_of_isGap c h
  rw [isNameChar_of_isNameStart hstart] at hname
  cases hname

theorem isDigitOrGroup_of_isGap (c : Char) (h : isGap c = true) : isDigitOrGroup c = false := by
  have hname := isNameChar_of_isGap c h
  simp only [isNameChar, Char.isAlphanum, Bool.or_eq_false_iff] at hname
  rw [isDigitOrGroup, hname.1.2, hname.2, Bool.or_false]

theorem isDigit_of_isGap (c : Char) (h : isGap c = true) : c.isDigit = false :=
  (Bool.or_eq_false_iff.mp (isDigitOrGroup_of_isGap c h)).1

theorem isGap_of_isDigit {c : Char} (h : c.isDigit = true) : isGap c = false := by
  refine Bool.eq_false_iff.mpr fun hc => ?_
  rw [isDigit_of_isGap c hc] at h
  cases h

/-! ### Texts that do not have the form of a reader -/

theorem readFraction_of_forall {text : List Char}
    (h : ∀ d tail, text = '.' :: d :: tail → d.isDigit = false) :
    Decimal.readFraction text = ([], text) := by
  fun_cases Decimal.readFraction text with
  | case1 d tail hd => rw [h d tail rfl] at hd; cases hd
  | case2 d tail hd => rfl
  | case3 text hne => rfl

theorem readSecondFraction_of_forall {text : List Char}
    (h : ∀ d tail, text = '.' :: d :: tail → d.isDigit = false) :
    readSecondFraction text = (0, text) := by
  fun_cases readSecondFraction text with
  | case1 d tail hd => rw [h d tail rfl] at hd; cases hd
  | case2 d tail hd => rfl
  | case3 text hne => rfl

theorem readSeconds_of_forall {text : List Char}
    (h : ∀ s₁ s₂ tail, text = ':' :: s₁ :: s₂ :: tail → (s₁.isDigit && s₂.isDigit) = false) :
    readSeconds text = ((0, 0), text) := by
  fun_cases readSeconds text with
  | case1 s₁ s₂ tail hdigits => rw [h s₁ s₂ tail rfl] at hdigits; cases hdigits
  | case2 s₁ s₂ tail hdigits => rfl
  | case3 text hne => rfl

theorem readTime?_of_forall {text : List Char}
    (h : ∀ h₁ h₂ m₁ m₂ tail, text = h₁ :: h₂ :: ':' :: m₁ :: m₂ :: tail →
      [h₁, h₂, m₁, m₂].all Char.isDigit = false) : readTime? text = none := by
  fun_cases readTime? text with
  | case1 h₁ h₂ m₁ m₂ tail hdigits => rw [h h₁ h₂ m₁ m₂ tail rfl] at hdigits; cases hdigits
  | case2 h₁ h₂ m₁ m₂ tail hdigits => rfl
  | case3 text hne => rfl

theorem readDate?_of_forall {text : List Char}
    (h : ∀ y₁ y₂ y₃ y₄ m₁ m₂ d₁ d₂ tail,
      text = y₁ :: y₂ :: y₃ :: y₄ :: '-' :: m₁ :: m₂ :: '-' :: d₁ :: d₂ :: tail →
        [y₁, y₂, y₃, y₄, m₁, m₂, d₁, d₂].all Char.isDigit = false) : readDate? text = none := by
  fun_cases readDate? text with
  | case1 y₁ y₂ y₃ y₄ m₁ m₂ d₁ d₂ tail hdigits =>
    rw [h y₁ y₂ y₃ y₄ m₁ m₂ d₁ d₂ tail rfl] at hdigits
    cases hdigits
  | case2 y₁ y₂ y₃ y₄ m₁ m₂ d₁ d₂ tail hdigits => rfl
  | case3 text hne => rfl

theorem scanQuoted_append {value : String → Value} {rest after : List Char} {token : Token}
    {read read' : Except Stop (List Char × List Char)}
    (hread : ∀ inner after, read = .ok (inner, after) → read' = .ok (inner, after ++ rest))
    (hscan : scanQuoted value read = .token token after) :
    scanQuoted value read' = .token token (after ++ rest) := by
  cases hr : read with
  | error _ =>
    rw [hr] at hscan
    cases hscan
  | ok pair =>
    rw [hr] at hscan
    rw [hread _ _ hr]
    cases hscan
    rfl

/-! ### Numbers at the end of a text -/

/-- Whether a text begins with a number in digits, perhaps behind a minus sign, and not with a date
or a time. -/
def isNumeral (text : List Char) : Bool :=
  match text with
  | [] => false
  | c :: rest =>
    if c = '-' then Decimal.startsWithDigit rest
    else c.isDigit && (readDate? text).isNone && (readTime? text).isNone

/-- The last token of a text is a number in digits that ends with the text, so that what comes
behind the text may belong to its unit. -/
inductive EndsInNumber : List Char → Prop where
  /-- The number is the only token. -/
  | last {text : List Char} {token : Token} (hscan : scan text = .token token [])
      (hnumeral : isNumeral (text.dropWhile isBlank) = true) : EndsInNumber text
  /-- There are tokens in front of the number. -/
  | later {text rest : List Char} {token : Token} (hscan : scan text = .token token rest)
      (hrest : EndsInNumber rest) : EndsInNumber text

section Readers

variable {rest : List Char} (h : StartsIn isGap rest)

include h

/-! ### Words -/

theorem startsName_append (text : List Char) : startsName (text ++ rest) = startsName text := by
  cases text with
  | nil =>
    cases rest with
    | nil => rfl
    | cons c tail => exact isNameStart_of_isGap c (h c tail rfl)
  | cons c text => rfl

/-- A gap makes no relationship of the word before it. -/
theorem readMark?_of_startsIn : readMark? rest = none ∧ readMark? ('-' :: rest) = none := by
  cases rest with
  | nil => exact ⟨rfl, rfl⟩
  | cons c tail =>
    have hgap : isGap c = true := h c tail rfl
    have hne (d : Char) (hd : isGap d = false) (xs ys : List Char) : c :: xs = d :: ys → False :=
      fun heq => ne_of_isGap hgap hd (List.cons.inj heq).1
    have hid : ¬ isIdChar c = true := by rw [isIdChar_of_isGap c hgap]; decide
    constructor
    · exact readMark?.eq_4 _ (hne '?' rfl tail) (fun xs => hne '-' rfl tail ('>' :: xs))
        (hne '-' rfl tail)
    · rw [readMark?.eq_3 _ (hne '>' rfl tail), List.dropWhile_cons_of_neg hid]
      split
      · next heq => exact absurd heq (hne '?' rfl tail _)
      · rfl

theorem readMark?_append (text : List Char) :
    readMark? (text ++ rest) = (readMark? text).map fun (term, after) => (term, after ++ rest) := by
  cases text with
  | nil => exact (readMark?_of_startsIn h).1
  | cons c text =>
    by_cases hc : c = '-'
    · subst hc
      cases text with
      | nil => exact (readMark?_of_startsIn h).2
      | cons d tail =>
        by_cases hd : d = '>'
        · subst hd
          rfl
        · have hne : ∀ xs after, d :: xs = '>' :: after → False :=
            fun xs after heq => hd (List.cons.inj heq).1
          have htake := h.takeWhile_append isIdChar_of_isGap (d :: tail)
          have hdrop := h.dropWhile_append isIdChar_of_isGap (d :: tail)
          rw [List.cons_append, List.cons_append, readMark?.eq_3 _ (hne _),
            readMark?.eq_3 _ (hne _), ← List.cons_append, htake, hdrop]
          -- the mark stands behind the term, unless the term reaches the boundary
          cases (d :: tail).dropWhile isIdChar with
          | nil =>
            rw [List.nil_append]
            split
            · exact absurd rfl (h.ne_cons '?' rfl)
            · rfl
          | cons e after =>
            rw [List.cons_append]
            by_cases he : e = '?'
            · subst he
              simp only
              split <;> rfl
            · split
              · next heq => exact absurd (List.cons.inj heq).1 he
              · split
                · next heq => exact absurd (List.cons.inj heq).1 he
                · rfl
    · by_cases hmark : c = '?'
      · subst hmark
        rfl
      · have hnone : ∀ xs, readMark? (c :: xs) = none := fun xs =>
          readMark?.eq_4 _ (fun _ heq => hmark (List.cons.inj heq).1)
            (fun _ heq => hc (List.cons.inj heq).1) (fun _ heq => hc (List.cons.inj heq).1)
        rw [List.cons_append, hnone, hnone]
        rfl

theorem readSegments_append (text : List Char) :
    readSegments (text ++ rest) = ((readSegments text).1, (readSegments text).2 ++ rest) := by
  have hdrop := h.dropWhile_append isNameChar_of_isGap
  have htake := h.takeWhile_append isNameChar_of_isGap
  fun_induction readSegments text with
  | case1 text hstart names after heq ih =>
    rw [List.cons_append, List.cons_append, readSegments.eq_1, startsName_append h, if_pos hstart,
      hdrop, htake, ih, heq]
  | case2 text hstart =>
    rw [List.cons_append, List.cons_append, readSegments.eq_1, startsName_append h,
      if_neg hstart, hdrop]
  | case3 text hne =>
    refine readSegments.eq_2 _ fun after heq => ?_
    match text with
    | [] => exact h.ne_cons '-' rfl heq
    | [c] => exact h.ne_cons '>' rfl (List.cons.inj heq).2
    | c :: d :: tail =>
      injection heq with hc heq
      injection heq with hd _
      exact hne tail (by rw [hc, hd])

/-! ### Numbers -/

theorem startsWithDigit_append (text : List Char) :
    Decimal.startsWithDigit (text ++ rest) = Decimal.startsWithDigit text := by
  cases text with
  | nil =>
    cases rest with
    | nil => rfl
    | cons c tail => exact isDigit_of_isGap c (h c tail rfl)
  | cons c text => rfl

/-- A point and a digit do not stand on two sides of a boundary. -/
theorem point_digit_append {text : List Char}
    (hne : ¬ ∃ d tail, text = '.' :: d :: tail ∧ d.isDigit = true) :
    ∀ d tail, text ++ rest = '.' :: d :: tail → d.isDigit = false := by
  intro d tail heq
  cases hd : d.isDigit with
  | false => rfl
  | true =>
    obtain ⟨middle, rfl, -⟩ := h.append_eq_append ['.', d] heq (by
      simp only [List.mem_cons, List.not_mem_nil, or_false, forall_eq_or_imp, forall_eq]
      exact ⟨rfl, isGap_of_isDigit hd⟩)
    exact absurd ⟨d, middle, rfl, hd⟩ hne

theorem readFraction_append (text : List Char) :
    Decimal.readFraction (text ++ rest) =
      ((Decimal.readFraction text).1, (Decimal.readFraction text).2 ++ rest) := by
  have htake := h.takeWhile_append isDigitOrGroup_of_isGap
  have hdrop := h.dropWhile_append isDigitOrGroup_of_isGap
  by_cases hopens : ∃ d tail, text = '.' :: d :: tail ∧ d.isDigit = true
  · obtain ⟨d, tail, rfl, hd⟩ := hopens
    rw [List.cons_append, List.cons_append, Decimal.readFraction.eq_1, Decimal.readFraction.eq_1,
      if_pos hd, if_pos hd, ← List.cons_append, htake, hdrop]
  · rw [readFraction_of_forall (point_digit_append h hopens), readFraction_of_forall]
    intro d tail heq
    exact Bool.eq_false_iff.mpr fun hd => hopens ⟨d, tail, heq, hd⟩

theorem readPower_append (negative : Bool) (text : List Char) :
    Decimal.readPower negative (text ++ rest) =
      ((Decimal.readPower negative text).1, (Decimal.readPower negative text).2 ++ rest) := by
  simp only [Decimal.readPower, h.takeWhile_append isDigit_of_isGap,
    h.dropWhile_append isDigit_of_isGap]

/-- The exponent that follows its mark does not reach over a boundary. -/
theorem readExponent_cons_append (mark : Char) (power : List Char) :
    Decimal.readExponent (mark :: (power ++ rest)) =
      ((Decimal.readExponent (mark :: power)).1,
        (Decimal.readExponent (mark :: power)).2 ++ rest) := by
  have hdigit := startsWithDigit_append h
  have hpower := readPower_append h
  by_cases hsign : ∃ sign tail, power = sign :: tail ∧ (sign = '+' ∨ sign = '-')
  · obtain ⟨sign, tail, rfl, rfl | rfl⟩ := hsign
    · rw [List.cons_append, Decimal.readExponent.eq_2, Decimal.readExponent.eq_2, hdigit, hpower]
      split
      · split <;> rfl
      · rfl
    · rw [List.cons_append, Decimal.readExponent.eq_3, Decimal.readExponent.eq_3, hdigit, hpower]
      split
      · split <;> rfl
      · rfl
  · have hne (sign : Char) (hs : sign = '+' ∨ sign = '-') (tail : List Char) :
        power = sign :: tail → False := fun heq => hsign ⟨sign, tail, heq, hs⟩
    have hjoined (sign : Char) (hs : sign = '+' ∨ sign = '-') (tail : List Char) :
        power ++ rest = sign :: tail → False := by
      intro heq
      cases power with
      | nil => rcases hs with rfl | rfl <;> exact h.ne_cons _ rfl heq
      | cons d power => exact hne sign hs power (by rw [(List.cons.inj heq).1])
    rw [Decimal.readExponent.eq_4 _ _ (hjoined '+' (Or.inl rfl)) (hjoined '-' (Or.inr rfl)),
      Decimal.readExponent.eq_4 _ _ (hne '+' (Or.inl rfl)) (hne '-' (Or.inr rfl)), hdigit, hpower]
    split
    · split <;> rfl
    · rfl

theorem readExponent_append (text : List Char) :
    Decimal.readExponent (text ++ rest) =
      ((Decimal.readExponent text).1, (Decimal.readExponent text).2 ++ rest) := by
  cases text with
  | nil =>
    cases rest with
    | nil => rfl
    | cons c tail =>
      have hmark : ¬ (c = 'e' ∨ c = 'E') := fun hc =>
        hc.elim (ne_of_isGap (h c tail rfl) rfl) (ne_of_isGap (h c tail rfl) rfl)
      exact if_neg hmark
  | cons mark power => exact readExponent_cons_append h mark power

theorem readUnsigned_append (negative : Bool) (text : List Char) :
    Decimal.readUnsigned negative (text ++ rest) =
      ((Decimal.readUnsigned negative text).1, (Decimal.readUnsigned negative text).2 ++ rest) := by
  simp only [Decimal.readUnsigned, h.takeWhile_append isDigitOrGroup_of_isGap,
    h.dropWhile_append isDigitOrGroup_of_isGap, readFraction_append h,
    readExponent_append h]

theorem read_append (text : List Char) :
    Decimal.read (text ++ rest) = ((Decimal.read text).1, (Decimal.read text).2 ++ rest) := by
  fun_cases Decimal.read text with
  | case1 text => exact readUnsigned_append h true text
  | case2 text hne =>
    rw [Decimal.read.eq_2 _ fun tail heq => ?_]
    · exact readUnsigned_append h false text
    · cases text with
      | nil => exact h.ne_cons '-' rfl heq
      | cons c text => exact hne text (by rw [(List.cons.inj heq).1])

/-- A number that ends with a text is read in front of what does not continue its unit. -/
theorem scanNumber_append {text after : List Char} {token : Token}
    (hscan : scanNumber text = .token token after)
    (hunit : after = [] → StartsIn (fun c => !isUnitChar c) rest) :
    scanNumber (text ++ rest) = .token token (after ++ rest) := by
  simp only [scanNumber] at hscan
  cases hscan
  have hunit' : ∀ c, (!isUnitChar c) = true → isUnitChar c = false := fun c hc => by
    rwa [Bool.not_eq_true'] at hc
  simp only [scanNumber, read_append h]
  by_cases hend : (Decimal.read text).2.dropWhile isUnitChar = []
  · rw [(hunit hend).takeWhile_append hunit', (hunit hend).dropWhile_append hunit']
  · obtain ⟨htake, hdrop⟩ := span_append_of_dropWhile_ne_nil hend rest
    rw [htake, hdrop]

/-! ### Dates and times -/

theorem readDate?_append (text : List Char) :
    readDate? (text ++ rest) =
      (readDate? text).map fun (fields, after) => (fields, after ++ rest) := by
  fun_cases readDate? text with
  | case1 y₁ y₂ y₃ y₄ m₁ m₂ d₁ d₂ tail hdigits =>
    simp only [List.cons_append, readDate?, hdigits, if_true, Option.map_some]
  | case2 y₁ y₂ y₃ y₄ m₁ m₂ d₁ d₂ tail hdigits =>
    simp only [List.cons_append, readDate?, hdigits, Bool.false_eq_true, if_false, Option.map_none]
  | case3 text hne =>
    refine readDate?_of_forall fun y₁ y₂ y₃ y₄ m₁ m₂ d₁ d₂ tail heq => ?_
    refine Bool.eq_false_iff.mpr fun hdigits => ?_
    simp only [List.all_cons, List.all_nil, Bool.and_true, Bool.and_eq_true] at hdigits
    obtain ⟨hy₁, hy₂, hy₃, hy₄, hm₁, hm₂, hd₁, hd₂⟩ := hdigits
    obtain ⟨middle, rfl, -⟩ :=
      h.append_eq_append [y₁, y₂, y₃, y₄, '-', m₁, m₂, '-', d₁, d₂] heq (by
        simp only [List.mem_cons, List.not_mem_nil, or_false, forall_eq_or_imp, forall_eq,
          isGap_of_isDigit, hy₁, hy₂, hy₃, hy₄, hm₁, hm₂, hd₁, hd₂]
        decide)
    exact hne _ _ _ _ _ _ _ _ _ rfl

theorem readSecondFraction_append (text : List Char) :
    readSecondFraction (text ++ rest) =
      ((readSecondFraction text).1, (readSecondFraction text).2 ++ rest) := by
  have htake := h.takeWhile_append isDigit_of_isGap
  have hdrop := h.dropWhile_append isDigit_of_isGap
  by_cases hopens : ∃ d tail, text = '.' :: d :: tail ∧ d.isDigit = true
  · obtain ⟨d, tail, rfl, hd⟩ := hopens
    rw [List.cons_append, List.cons_append, readSecondFraction.eq_1, readSecondFraction.eq_1,
      if_pos hd, if_pos hd, ← List.cons_append, htake, hdrop]
  · rw [readSecondFraction_of_forall (point_digit_append h hopens), readSecondFraction_of_forall]
    intro d tail heq
    exact Bool.eq_false_iff.mpr fun hd => hopens ⟨d, tail, heq, hd⟩

theorem readSeconds_append (text : List Char) :
    readSeconds (text ++ rest) = ((readSeconds text).1, (readSeconds text).2 ++ rest) := by
  fun_cases readSeconds text with
  | case1 s₁ s₂ tail hdigits fraction after heq =>
    simp only [List.cons_append, readSeconds, hdigits, if_true, readSecondFraction_append h, heq]
  | case2 s₁ s₂ tail hdigits =>
    simp only [List.cons_append, readSeconds, hdigits, Bool.false_eq_true, if_false]
  | case3 text hne =>
    refine readSeconds_of_forall fun s₁ s₂ tail heq => ?_
    refine Bool.eq_false_iff.mpr fun hdigits => ?_
    rw [Bool.and_eq_true] at hdigits
    obtain ⟨middle, rfl, -⟩ := h.append_eq_append [':', s₁, s₂] heq (by
      simp only [List.mem_cons, List.not_mem_nil, or_false, forall_eq_or_imp, forall_eq]
      exact ⟨rfl, isGap_of_isDigit hdigits.1, isGap_of_isDigit hdigits.2⟩)
    exact hne _ _ _ rfl

theorem readTime?_append (text : List Char) :
    readTime? (text ++ rest) =
      (readTime? text).map fun (fields, after) => (fields, after ++ rest) := by
  fun_cases readTime? text with
  | case1 h₁ h₂ m₁ m₂ tail hdigits second fraction after heq =>
    simp only [List.cons_append, readTime?, hdigits, if_true, readSeconds_append h, heq,
      Option.map_some]
  | case2 h₁ h₂ m₁ m₂ tail hdigits =>
    simp only [List.cons_append, readTime?, hdigits, Bool.false_eq_true, if_false, Option.map_none]
  | case3 text hne =>
    refine readTime?_of_forall fun h₁ h₂ m₁ m₂ tail heq => ?_
    refine Bool.eq_false_iff.mpr fun hdigits => ?_
    simp only [List.all_cons, List.all_nil, Bool.and_true, Bool.and_eq_true] at hdigits
    obtain ⟨hh₁, hh₂, hm₁, hm₂⟩ := hdigits
    obtain ⟨middle, rfl, -⟩ := h.append_eq_append [h₁, h₂, ':', m₁, m₂] heq (by
      simp only [List.mem_cons, List.not_mem_nil, or_false, forall_eq_or_imp, forall_eq,
        isGap_of_isDigit, hh₁, hh₂, hm₁, hm₂]
      decide)
    exact hne _ _ _ _ _ rfl

theorem scanDigits_append {text after : List Char} {token : Token}
    (hscan : scanDigits text = .token token after)
    (hunit : after = [] → readDate? text = none → readTime? text = none →
      StartsIn (fun c => !isUnitChar c) rest) :
    scanDigits (text ++ rest) = .token token (after ++ rest) := by
  have fields {text after r : List Char} {value? : Option Value}
      (hscan : scanFields text r value? = .token token after) :
      scanFields (text ++ rest) (r ++ rest) value? = .token token (after ++ rest) := by
    cases value? with
    | none => cases hscan
    | some value => cases hscan; rfl
  unfold scanDigits at hscan ⊢
  rw [readDate?_append h, readTime?_append h]
  cases hdate : readDate? text with
  | some pair =>
    rw [hdate] at hscan
    exact fields hscan
  | none =>
    cases htime : readTime? text with
    | some pair =>
      rw [hdate, htime] at hscan
      exact fields hscan
    | none =>
      rw [hdate, htime] at hscan
      exact scanNumber_append h hscan fun hafter => hunit hafter hdate htime

/-! ### Whole tokens -/

theorem scanWord_append {text after : List Char} {token : Token}
    (hscan : scanWord text = .token token after) :
    scanWord (text ++ rest) = .token token (after ++ rest) := by
  unfold scanWord at hscan ⊢
  simp only [h.takeWhile_append isNameChar_of_isGap,
    h.dropWhile_append isNameChar_of_isGap, readMark?_append h, readSegments_append h]
    at hscan ⊢
  split at hscan
  · cases hscan; rfl
  · split at hscan
    · next hmark =>
      rw [hmark]
      cases hscan
      rfl
    · next hmark =>
      rw [hmark]
      split at hscan
      · next names r hsegments =>
        rw [hsegments]
        cases hscan
        rfl
      · cases hscan

theorem scanMarked_append {value : String → Value} {mark : Char} {text after : List Char}
    {token : Token} (hscan : scanMarked value mark text = .token token after) :
    scanMarked value mark (text ++ rest) = .token token (after ++ rest) := by
  simp only [scanMarked, h.takeWhile_append isIdChar_of_isGap,
    h.dropWhile_append isIdChar_of_isGap] at hscan ⊢
  split at hscan
  · cases hscan
  · next hname =>
    rw [if_neg hname]
    cases hscan
    rfl

theorem readOperator?_append {text after : List Char} {token : Token}
    (hread : readOperator? text = some (token, after)) :
    readOperator? (text ++ rest) = some (token, after ++ rest) := by
  -- an order that is not followed by `=` in the text is not followed by one behind it either
  have hequal {tail : List Char} (hne : ∀ xs, tail = '=' :: xs → False) :
      ∀ xs, tail ++ rest = '=' :: xs → False := by
    intro xs heq
    obtain ⟨middle, rfl, -⟩ := h.append_eq_append ['='] heq (by
      simp only [List.mem_cons, List.not_mem_nil, or_false, forall_eq]
      rfl)
    exact hne middle rfl
  fun_cases readOperator? text with
  | case1 | case2 | case3 | case4 | case5 => cases hread; rfl
  | case6 tail hne =>
    rw [readOperator?.eq_6 _ hne] at hread
    cases hread
    exact readOperator?.eq_6 _ (hequal hne)
  | case7 tail hne =>
    rw [readOperator?.eq_7 _ hne] at hread
    cases hread
    exact readOperator?.eq_7 _ (hequal hne)
  | case8 text h₁ h₂ h₃ h₄ h₅ h₆ h₇ =>
    rw [readOperator?.eq_8 _ h₁ h₂ h₃ h₄ h₅ h₆ h₇] at hread
    cases hread

theorem scanOther_append {c : Char} {text after : List Char} {token : Token}
    (hscan : scanOther c text = .token token after) :
    scanOther c (text ++ rest) = .token token (after ++ rest) := by
  unfold scanOther at hscan ⊢
  split at hscan
  · next t r hread =>
    cases hscan
    rw [← List.cons_append, readOperator?_append h hread]
  · cases hscan

theorem scanNegative_append {text after : List Char} {token : Token}
    (hscan : scanNegative text = .token token after)
    (hunit : after = [] → Decimal.startsWithDigit text = true →
      StartsIn (fun c => !isUnitChar c) rest) :
    scanNegative (text ++ rest) = .token token (after ++ rest) := by
  fun_cases scanNegative text with
  | case1 tail =>
    rw [scanNegative.eq_1] at hscan
    cases hscan
    rfl
  | case2 _ hdigit hne =>
    rw [scanNegative.eq_2 _ hne, if_pos hdigit] at hscan
    rw [scanNegative.eq_2, startsWithDigit_append h, if_pos hdigit, ← List.cons_append]
    · exact scanNumber_append h hscan fun hafter => hunit hafter hdigit
    · intro tail heq
      cases text with
      | nil => cases hdigit
      | cons c text =>
        obtain ⟨rfl, -⟩ := List.cons.inj heq
        cases hdigit
  | case3 _ hdigit hne =>
    rw [scanNegative.eq_2 _ hne, if_neg hdigit] at hscan
    cases hscan

theorem scanSolid_append {text after : List Char} {token : Token}
    (hscan : scanSolid text = .token token after)
    (hunit : after = [] → isNumeral text = true → StartsIn (fun c => !isUnitChar c) rest) :
    scanSolid (text ++ rest) = .token token (after ++ rest) := by
  cases text with
  | nil => cases hscan
  | cons c text =>
    cases readerOf c with
    | opening hread | closing hread =>
      rw [hread] at hscan
      rw [List.cons_append, hread]
      cases hscan
      rfl
    | string hread =>
      rw [hread] at hscan
      rw [List.cons_append, hread]
      exact scanQuoted_append (fun _ _ hread => readString_append hread _ _) hscan
    | uri hread =>
      rw [hread] at hscan
      rw [List.cons_append, hread]
      exact scanQuoted_append (fun _ _ hread => readUri_append hread _ _) hscan
    | ref hread | symbol hread =>
      rw [hread] at hscan
      rw [List.cons_append, hread]
      exact scanMarked_append h hscan
    | negative hc hread =>
      rw [hread] at hscan
      rw [List.cons_append, hread]
      refine scanNegative_append h hscan fun hafter hdigit => hunit hafter ?_
      rw [isNumeral, if_pos hc, hdigit]
    | digits hc hread =>
      rw [hread] at hscan
      rw [List.cons_append, hread, ← List.cons_append]
      refine scanDigits_append h hscan fun hafter hdate htime => hunit hafter ?_
      have hdash : c ≠ '-' := by
        rintro rfl
        cases hc
      rw [isNumeral, if_neg hdash, hc, hdate, htime]
      rfl
    | word _ hread =>
      rw [hread] at hscan
      rw [List.cons_append, hread, ← List.cons_append]
      exact scanWord_append h hscan
    | other hread =>
      rw [hread] at hscan
      rw [List.cons_append, hread]
      exact scanOther_append h hscan

/-- A token is read in the same way in front of a gap, unless it is a number that ends with the text
and the gap continues its unit. -/
theorem scan_append_gap {text after : List Char} {token : Token}
    (hscan : scan text = .token token after)
    (hunit : after = [] → isNumeral (text.dropWhile isBlank) = true →
      StartsIn (fun c => !isUnitChar c) rest) :
    scan (text ++ rest) = .token token (after ++ rest) := by
  unfold scan at hscan ⊢
  cases hsolid : text.dropWhile isBlank with
  | nil => rw [hsolid] at hscan; cases hscan
  | cons c tail =>
    have hdrop : (text ++ rest).dropWhile isBlank = text.dropWhile isBlank ++ rest := by
      rw [List.dropWhile_append, hsolid]
      rfl
    rw [hdrop]
    exact scanSolid_append h hscan hunit

end Readers

/-- A token is read in the same way in front of a separator. -/
theorem scan_append {rest : List Char} (h : StartsIn isSeparator rest) {text after : List Char}
    {token : Token} (hscan : scan text = .token token after) :
    scan (text ++ rest) = .token token (after ++ rest) :=
  scan_append_gap h.gap hscan fun _ _ => h.not_unit

/-! ### Lists of tokens -/

theorem readChars_congr {a b : List Char} (h : scan a = scan b) : readChars a = readChars b := by
  cases hscan : scan b with
  | finished => rw [readChars_finished hscan, readChars_finished (h.trans hscan)]
  | token t after => rw [readChars_token hscan, readChars_token (h.trans hscan)]
  | stopped stop => rw [readChars_stopped hscan, readChars_stopped (h.trans hscan)]

/-- Something other than blanks is found. -/
def Scan.Found : Scan → Prop
  | .finished => False
  | _ => True

theorem scanQuoted_found (value : String → Value) (read : Except Stop (List Char × List Char)) :
    (scanQuoted value read).Found := by
  cases read <;> trivial

theorem scanMarked_found (value : String → Value) (mark : Char) (rest : List Char) :
    (scanMarked value mark rest).Found := by
  simp only [scanMarked]
  split <;> trivial

theorem scanNegative_found (rest : List Char) : (scanNegative rest).Found := by
  unfold scanNegative
  split
  · trivial
  · split <;> trivial

theorem scanFields_found (text rest : List Char) (value? : Option Value) :
    (scanFields text rest value?).Found := by
  cases value? <;> trivial

theorem scanDigits_found (text : List Char) : (scanDigits text).Found := by
  unfold scanDigits
  split
  · exact scanFields_found _ _ _
  · split
    · exact scanFields_found _ _ _
    · trivial

theorem scanWord_found (text : List Char) : (scanWord text).Found := by
  unfold scanWord
  simp only
  split
  · trivial
  · split
    · trivial
    · split <;> trivial

theorem scanOther_found (c : Char) (rest : List Char) : (scanOther c rest).Found := by
  unfold scanOther
  split <;> trivial

/-- A text that does not begin with a blank holds a token or a fault. -/
theorem scanSolid_found (c : Char) (rest : List Char) : (scanSolid (c :: rest)).Found := by
  cases readerOf c with
  | opening h => exact h rest ▸ trivial
  | closing h => exact h rest ▸ trivial
  | string h => exact h rest ▸ scanQuoted_found _ _
  | uri h => exact h rest ▸ scanQuoted_found _ _
  | ref h => exact h rest ▸ scanMarked_found _ _ _
  | symbol h => exact h rest ▸ scanMarked_found _ _ _
  | negative _ h => exact h rest ▸ scanNegative_found rest
  | digits _ h => exact h rest ▸ scanDigits_found (c :: rest)
  | word _ h => exact h rest ▸ scanWord_found (c :: rest)
  | other h => exact h rest ▸ scanOther_found c rest

theorem dropWhile_eq_nil_of_scan {text : List Char} (h : scan text = .finished) :
    text.dropWhile isBlank = [] := by
  unfold scan at h
  cases hsolid : text.dropWhile isBlank with
  | nil => rfl
  | cons c tail =>
    have hfound := scanSolid_found c tail
    rw [hsolid] at h
    rw [h] at hfound
    exact hfound.elim

/-- Blanks in front of a text do not count. -/
theorem readChars_blanks_append {blanks : List Char} (h : blanks.dropWhile isBlank = [])
    (rest : List Char) : readChars (blanks ++ rest) = readChars rest := by
  apply readChars_congr
  unfold scan
  rw [List.dropWhile_append, h]
  rfl

/-- A text that can be read as tokens is read in the same way in front of a gap, unless it ends in a
number and the gap continues its unit. -/
theorem readChars_append_gap {rest : List Char} (hrest : StartsIn isGap rest) {text : List Char}
    {tokens : List Token} (h : readChars text = (tokens, none))
    (hunit : EndsInNumber text → StartsIn (fun c => !isUnitChar c) rest) :
    readChars (text ++ rest) = (tokens ++ (readChars rest).1, (readChars rest).2) := by
  induction tokens generalizing text with
  | nil => exact readChars_blanks_append (dropWhile_eq_nil_of_scan (scan_of_readChars_nil h)) rest
  | cons token tokens ih =>
    obtain ⟨after, hscan, hafter⟩ := scan_of_readChars_cons h
    have hjoined : scan (text ++ rest) = .token token (after ++ rest) := by
      refine scan_append_gap hrest hscan fun hnil hnumeral => ?_
      rw [hnil] at hscan
      exact hunit (.last hscan hnumeral)
    rw [readChars_token hjoined, ih hafter fun hends => hunit (.later hscan hends)]
    rfl

/-- A text that can be read as tokens is read in the same way in front of a separator. -/
theorem readChars_append {rest : List Char} (hrest : StartsIn isSeparator rest) {text : List Char}
    {tokens : List Token} (h : readChars text = (tokens, none)) :
    readChars (text ++ rest) = (tokens ++ (readChars rest).1, (readChars rest).2) :=
  readChars_append_gap hrest.gap h fun _ => hrest.not_unit

end TagFilter
