import Mathlib.Data.List.TakeWhile
import TagFilter.Proofs.Scanner.Literals

/-!
# Blanks between texts

With blanks between two texts, the tokens of the second follow those of the first: whatever a token
looks at behind itself, it stops in front of a blank, be it of ASCII or not.  There is one
exception.  A unit takes in any character outside of ASCII, so that such a blank behind a number in
digits belongs to the unit of the number, and the tokens are not those of the two texts
(`tokenize_append_blanks_iff`).
-/

namespace TagFilter

/-! ### Numbers in digits -/

section Numerals

variable {text rest : List Char}

/-- A text that begins with a number in digits is read as a number. -/
theorem scanSolid_of_isNumeral (h : isNumeral text = true) : scanSolid text = scanNumber text := by
  cases text with
  | nil => cases h
  | cons c tail =>
    rw [isNumeral] at h
    split at h
    · next hc =>
      subst hc
      exact scanNegative_of_startsWithDigit h
    · simp only [Bool.and_eq_true, Option.isNone_iff_eq_none] at h
      obtain ⟨⟨hdigit, hdate⟩, htime⟩ := h
      rw [scanSolid_of_isDigit hdigit, scanDigits, hdate, htime]

theorem ne_nil_of_isNumeral (h : isNumeral text = true) : text ≠ [] := by
  rintro rfl
  cases h

variable (hrest : StartsIn isGap rest)

include hrest

/-- A gap makes neither a date nor a time of a number. -/
theorem isNumeral_append (h : isNumeral text = true) : isNumeral (text ++ rest) = true := by
  cases text with
  | nil => cases h
  | cons c text =>
    rw [isNumeral] at h
    simp only [List.cons_append, isNumeral, startsWithDigit_append hrest]
    rw [← List.cons_append, readDate?_append hrest, readTime?_append hrest, Option.isNone_map,
      Option.isNone_map]
    exact h

/-- The unit of a number that ends with a text goes on behind the text. -/
theorem exists_scanNumber_append {token : Token} (hscan : scanNumber text = .token token []) :
    ∃ n m : Number, token = .value (.number n) ∧
      scanNumber (text ++ rest) = .token (.value (.number m)) (rest.dropWhile isUnitChar) ∧
      m.unitChars = n.unitChars ++ rest.takeWhile isUnitChar := by
  unfold scanNumber at hscan ⊢
  simp only [read_append hrest] at hscan ⊢
  injection hscan with htoken hend
  have hunit : ∀ c ∈ (Decimal.read text).2, isUnitChar c = true := List.dropWhile_eq_nil_iff.mp hend
  rw [(span_of_forall hunit).1] at htoken
  rw [List.takeWhile_append_of_pos hunit, List.dropWhile_append_of_pos hunit]
  refine ⟨_, _, htoken.symm, rfl, ?_⟩
  exact (Number.unitChars_unitOfChars _ _).trans
    (congrArg (· ++ _) (Number.unitChars_unitOfChars _ _).symm)

/-- The unit of a number in digits that is the whole of a text goes on behind the text. -/
theorem exists_scan_append {token : Token} (hscan : scan text = .token token [])
    (hnumeral : isNumeral (text.dropWhile isBlank) = true) :
    ∃ n m : Number, token = .value (.number n) ∧
      scan (text ++ rest) = .token (.value (.number m)) (rest.dropWhile isUnitChar) ∧
      m.unitChars = n.unitChars ++ rest.takeWhile isUnitChar := by
  have hsolid := ne_nil_of_isNumeral hnumeral
  rw [scan, scanSolid_of_isNumeral hnumeral] at hscan
  rw [scan, (span_append_of_dropWhile_ne_nil hsolid rest).2,
    scanSolid_of_isNumeral (isNumeral_append hrest hnumeral)]
  exact exists_scanNumber_append hrest hscan

end Numerals

/-! ### Texts that end in a number -/

namespace EndsInNumber

variable {text : List Char}

theorem ne_nil (h : EndsInNumber text) : text ≠ [] := by
  rintro rfl
  cases h with
  | last hscan => cases hscan
  | later hscan => cases hscan

/-- A text of a single token that is no number in digits does not end in a number. -/
theorem not_of_scan {token : Token} (hscan : scan text = .token token [])
    (hnumeral : isNumeral (text.dropWhile isBlank) = false) : ¬ EndsInNumber text := by
  intro h
  cases h with
  | last _ htrue =>
    rw [hnumeral] at htrue
    cases htrue
  | later hother hrest =>
    rw [hscan] at hother
    cases hother
    exact hrest.ne_nil rfl

/-- Behind a text that ends in a number, a character of units that continues no other token makes it
another number. -/
theorem exists_readChars_append (h : EndsInNumber text) {tokens : List Token}
    (hread : readChars text = (tokens, none)) {c : Char} (hgap : isGap c = true)
    (hunit : isUnitChar c = true) (more : List Char) :
    ∃ before n m later stop, tokens = before ++ [.value (.number n)] ∧
      readChars (text ++ c :: more) = (before ++ .value (.number m) :: later, stop) ∧ n ≠ m := by
  have hstart : StartsIn isGap (c :: more) := startsIn_cons hgap more
  induction h generalizing tokens with
  | last hscan hnumeral =>
    obtain ⟨n, m, rfl, hjoined, hchars⟩ := exists_scan_append hstart hscan hnumeral
    rw [readChars_token hscan, readChars_finished rfl] at hread
    obtain ⟨rfl, -⟩ := Prod.mk.inj hread
    refine ⟨[], n, m, _, _, rfl, readChars_token hjoined, ?_⟩
    rintro rfl
    -- the unit of the second number has at least one character more
    rw [List.takeWhile_cons_of_pos hunit, List.self_eq_append_right] at hchars
    cases hchars
  | @later text rest token hscan hrest ih =>
    rw [readChars_token hscan] at hread
    obtain ⟨rfl, hstop⟩ := Prod.mk.inj hread
    have hread : readChars rest = ((readChars rest).1, none) := Prod.ext rfl hstop
    obtain ⟨before, n, m, later, stop, htokens, hjoined, hne⟩ := ih hread
    have hfirst := scan_append_gap hstart hscan fun hnil => absurd hnil hrest.ne_nil
    refine ⟨token :: before, n, m, later, stop, ?_, ?_, hne⟩
    · rw [htokens, List.cons_append]
    · rw [readChars_token hfirst, hjoined, List.cons_append]

end EndsInNumber

/-! ### Joined texts -/

section Joined

variable {a b blanks : List Char} {c : Char} {xs ys : List Token}

/-- Blanks separate two texts, if the first of them does not continue a number. -/
theorem readChars_append_blanks (ha : readChars a = (xs, none)) (hb : readChars b = (ys, none))
    (hblanks : ∀ d ∈ c :: blanks, isBlank d = true)
    (hunit : EndsInNumber a → isUnitChar c = false) :
    readChars (a ++ (c :: blanks ++ b)) = (xs ++ ys, none) := by
  have hstart : StartsIn isGap (c :: blanks ++ b) :=
    startsIn_cons (isGap_of_isBlank c (hblanks c List.mem_cons_self)) _
  have hends : EndsInNumber a → StartsIn (fun c => !isUnitChar c) (c :: blanks ++ b) :=
    fun h => startsIn_cons (by rw [hunit h, Bool.not_false]) _
  rw [readChars_append_gap hstart ha hends,
    readChars_blanks_append (List.dropWhile_eq_nil_iff.mpr hblanks), hb]

/-- A blank that continues the number at the end of a text does not separate it from another. -/
theorem readChars_append_unit (ha : readChars a = (xs, none)) (hends : EndsInNumber a)
    (hblank : isBlank c = true) (hunit : isUnitChar c = true) (more : List Char) :
    readChars (a ++ c :: more) ≠ (xs ++ ys, none) := by
  intro hread
  obtain ⟨before, n, m, later, stop, rfl, hjoined, hne⟩ :=
    hends.exists_readChars_append ha (isGap_of_isBlank c hblank) hunit more
  rw [hjoined, List.append_assoc] at hread
  have htail := List.append_cancel_left (Prod.mk.inj hread).1
  cases htail
  exact hne rfl

end Joined

/-- With blanks between two texts, the tokens are those of the first and then those of the second,
exactly when the first does not end in a number in digits or the first blank is of ASCII. -/
theorem tokenize_append_blanks_iff {a b blanks : String} {xs ys : List Token}
    (ha : tokenize a = .ok xs) (hb : tokenize b = .ok ys) (hne : blanks ≠ "")
    (hblanks : ∀ c ∈ blanks.toList, isBlank c = true) :
    tokenize (a ++ blanks ++ b) = .ok (xs ++ ys) ↔
      ¬ EndsInNumber a.toList ∨ ∃ c rest, blanks.toList = c :: rest ∧ c.toNat < 128 := by
  rw [tokenize_eq_ok_iff] at ha hb ⊢
  rw [String.toList_append, String.toList_append, List.append_assoc]
  cases hlist : blanks.toList with
  | nil => exact absurd (String.toList_eq_nil_iff.mp hlist) hne
  | cons c rest =>
    rw [hlist] at hblanks
    have hblank : isBlank c = true := hblanks c List.mem_cons_self
    have hunit := isUnitChar_iff_of_isBlank hblank
    constructor
    · intro hread
      by_cases hcode : c.toNat < 128
      · exact Or.inr ⟨c, rest, rfl, hcode⟩
      · refine Or.inl fun hends => ?_
        exact readChars_append_unit ha hends hblank (hunit.mpr (Nat.not_lt.mp hcode)) _ hread
    · intro hcases
      refine readChars_append_blanks ha hb hblanks fun hends => ?_
      obtain hnot | ⟨d, tail, heq, hcode⟩ := hcases
      · exact absurd hends hnot
      · obtain ⟨rfl, rfl⟩ := List.cons.inj heq
        exact Bool.eq_false_iff.mpr fun h => Nat.not_le.mpr hcode (hunit.mp h)

/-- Any blanks end the word for minus infinity, and those that begin with a tab end a number in
digits. -/
theorem tokenize_append_blanks_site :
    tokenize ("-INF" ++ "\u3000\t" ++ "site") =
      .ok ([.value (.number ⟨.infinite true, none⟩)] ++ [.name "site"]) ∧
    tokenize ("1" ++ "\t\u3000" ++ "site") =
      .ok ([.value (.number ⟨.ofDecimal ⟨false, 1, 0⟩, none⟩)] ++ [.name "site"]) := by
  have hsite : tokenize "site" = .ok [.name "site"] :=
    tokenize_name (show IsPlainName "site" by decide)
  have hwide : ∀ c ∈ "\u3000\t".toList, isBlank c = true := List.all_eq_true.mp rfl
  have htab : ∀ c ∈ "\t\u3000".toList, isBlank c = true := List.all_eq_true.mp rfl
  constructor
  · refine (tokenize_append_blanks_iff (tokenize_of_scan rfl) hsite (by decide) hwide).mpr ?_
    exact Or.inl (EndsInNumber.not_of_scan rfl rfl)
  · refine (tokenize_append_blanks_iff (tokenize_of_scan rfl) hsite (by decide) htab).mpr ?_
    exact Or.inr ⟨'\t', ['\u3000'], rfl, by decide⟩

/-- An ideographic space behind a number is the beginning of its unit, and so is the name behind the
space a part of it. -/
theorem tokenize_one_ideographicSpace :
    tokenize "1" = .ok [.value (.number ⟨.ofDecimal ⟨false, 1, 0⟩, none⟩)] ∧
      tokenize "a" = .ok [.name "a"] ∧ isBlank '\u3000' = true ∧
      tokenize ("1" ++ "\u3000" ++ "a") =
        .ok [.value (.number ⟨.ofDecimal ⟨false, 1, 0⟩, some "\u3000a"⟩)] ∧
      tokenize ("1" ++ "\u3000" ++ "a") ≠
        .ok ([.value (.number ⟨.ofDecimal ⟨false, 1, 0⟩, none⟩)] ++ [.name "a"]) := by
  have hjoined : tokenize ("1" ++ "\u3000" ++ "a") =
      .ok [.value (.number ⟨.ofDecimal ⟨false, 1, 0⟩, some "\u3000a"⟩)] := tokenize_of_scan rfl
  have hname : tokenize "a" = .ok [.name "a"] := tokenize_name (show IsPlainName "a" by decide)
  refine ⟨tokenize_of_scan rfl, hname, rfl, hjoined, fun h => ?_⟩
  cases hjoined.symm.trans h

end TagFilter
