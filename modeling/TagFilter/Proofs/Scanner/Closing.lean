import TagFilter.Proofs.Scanner.Words

/-!
# Texts in front of a parenthesis

A separator at the very end completes nothing that the text before it leaves open: where no token
can be read without it, none can be read with it.  A text that can be read as tokens with a
parenthesis behind it can therefore be read without it (`readChars_of_append_mark`).

Most readers do not care what follows a separator.  Quoted literals do, since a later quote would
close them, so for these the separator has to be the last character.
-/

namespace TagFilter

/-- No token can be read. -/
def Scan.Stops : Scan → Prop
  | .stopped _ => True
  | _ => False

theorem Scan.Stops.exists_stop {s : Scan} (h : s.Stops) : ∃ stop, s = .stopped stop := by
  cases s with
  | stopped stop => exact ⟨stop, rfl⟩
  | finished | token => exact h.elim

/-- The sign of an order is an operator, whatever follows it. -/
theorem readOperator?_order_ne_none {c : Char} (hc : c = '<' ∨ c = '>') (text : List Char) :
    readOperator? (c :: text) ≠ none := by
  rcases hc with rfl | rfl
  · unfold readOperator?
    split <;> simp_all
  · unfold readOperator?
    split <;> simp_all

section Readers

variable {rest : List Char} (h : StartsIn isGap rest)

include h

/-! ### Readers that stop in front of a gap -/

theorem scanWord_stops_append {text : List Char} (hscan : (scanWord text).Stops) :
    (scanWord (text ++ rest)).Stops := by
  unfold scanWord at hscan ⊢
  simp only [h.takeWhile_append isNameChar_of_isGap,
    h.dropWhile_append isNameChar_of_isGap, readMark?_append h, readSegments_append h]
    at hscan ⊢
  split at hscan
  · exact hscan.elim
  · split at hscan
    · exact hscan.elim
    · next hmark =>
      rw [hmark]
      split at hscan
      · exact hscan.elim
      · next hsegments =>
        rw [hsegments]
        trivial

theorem scanDigits_stops_append {text : List Char} (hscan : (scanDigits text).Stops) :
    (scanDigits (text ++ rest)).Stops := by
  have fields {text after text' after' : List Char} {value? : Option Value}
      (hscan : (scanFields text after value?).Stops) : (scanFields text' after' value?).Stops := by
    cases value? with
    | none => trivial
    | some value => exact hscan.elim
  unfold scanDigits at hscan ⊢
  rw [readDate?_append h, readTime?_append h]
  cases hdate : readDate? text with
  | some pair =>
    rw [hdate] at hscan
    exact fields hscan
  | none =>
    cases htime : readTime? text with
    | some pair =>
      rw [hdate, htime] at hscan
      exact fields hscan
    | none =>
      rw [hdate, htime] at hscan
      exact hscan.elim

theorem scanMarked_stops_append {value : String → Value} {mark : Char} {text : List Char}
    (hscan : (scanMarked value mark text).Stops) :
    (scanMarked value mark (text ++ rest)).Stops := by
  simp only [scanMarked, h.takeWhile_append isIdChar_of_isGap] at hscan ⊢
  split at hscan
  · next hempty =>
    rw [if_pos hempty]
    trivial
  · exact hscan.elim

/-- Characters that are no gaps stand in front of the boundary. -/
theorem exists_eq_append_of_append_eq {text after : List Char} (front : List Char)
    (heq : text ++ rest = front ++ after) (hne : front.any isGap = false) :
    ∃ middle, text = front ++ middle := by
  obtain ⟨middle, htext, -⟩ := h.append_eq_append front heq fun c hc =>
    Bool.eq_false_iff.mpr (List.any_eq_false.mp hne c hc)
  exact ⟨middle, htext⟩

/-- No operator reaches over a boundary. -/
theorem readOperator?_append_eq_none {text : List Char} (hread : readOperator? text = none) :
    readOperator? (text ++ rest) = none := by
  cases hjoined : readOperator? (text ++ rest) with
  | none => rfl
  | some found =>
    unfold readOperator? at hjoined
    split at hjoined
    · next heq =>
      obtain ⟨middle, rfl⟩ := exists_eq_append_of_append_eq h ['*', '=', '='] heq rfl
      cases hread
    · next heq =>
      obtain ⟨middle, rfl⟩ := exists_eq_append_of_append_eq h ['=', '='] heq rfl
      cases hread
    · next heq =>
      obtain ⟨middle, rfl⟩ := exists_eq_append_of_append_eq h ['!', '='] heq rfl
      cases hread
    · next heq =>
      obtain ⟨middle, rfl⟩ := exists_eq_append_of_append_eq h ['<', '='] heq rfl
      cases hread
    · next heq =>
      obtain ⟨middle, rfl⟩ := exists_eq_append_of_append_eq h ['>', '='] heq rfl
      cases hread
    · next heq =>
      obtain ⟨middle, rfl⟩ := exists_eq_append_of_append_eq h ['<'] heq rfl
      exact absurd hread (readOperator?_order_ne_none (Or.inl rfl) middle)
    · next heq =>
      obtain ⟨middle, rfl⟩ := exists_eq_append_of_append_eq h ['>'] heq rfl
      exact absurd hread (readOperator?_order_ne_none (Or.inr rfl) middle)
    · cases hjoined

theorem scanOther_stops_append {c : Char} {text : List Char} (hscan : (scanOther c text).Stops) :
    (scanOther c (text ++ rest)).Stops := by
  unfold scanOther at hscan ⊢
  split at hscan
  · exact hscan.elim
  · next hread =>
    rw [← List.cons_append, readOperator?_append_eq_none h hread]
    trivial

theorem scanNegative_stops_append {text : List Char} (hscan : (scanNegative text).Stops) :
    (scanNegative (text ++ rest)).Stops := by
  fun_cases scanNegative text with
  | case1 tail => exact hscan.elim
  | case2 _ hdigit hne =>
    rw [scanNegative.eq_2 _ hne, if_pos hdigit] at hscan
    exact hscan.elim
  | case3 _ hdigit hne =>
    rw [scanNegative.eq_2, startsWithDigit_append h, if_neg hdigit]
    · trivial
    · intro tail heq
      obtain ⟨middle, rfl⟩ := exists_eq_append_of_append_eq h ['I', 'N', 'F'] heq rfl
      exact hne middle rfl

end Readers

/-! ### Quoted literals -/

section Quoted

variable {literal text : List Char} {stop : Stop}

theorem withChar_eq_error {c : Char} {read : Except Stop (List Char × List Char)}
    (h : withChar c read = .error stop) : read = .error stop := by
  cases read with
  | error other => exact h
  | ok pair => cases h

theorem scanQuoted_stops_append {value : String → Value}
    {read read' : Except Stop (List Char × List Char)}
    (hread : ∀ stop, read = .error stop → ∃ stop', read' = .error stop')
    (hscan : (scanQuoted value read).Stops) : (scanQuoted value read').Stops := by
  cases hcase : read with
  | ok pair =>
    rw [hcase] at hscan
    exact hscan.elim
  | error stop =>
    obtain ⟨stop', hstop⟩ := hread stop hcase
    rw [hstop]
    trivial

variable {mark : Char} (hmark : isSeparator mark = true)

include hmark

/-- A separator is no hexadecimal digit. -/
theorem codePoint?_of_isSeparator (a b c : Char) : codePoint? a b c mark = none := by
  have hdigit : isHexDigit mark = false :=
    isSeparator_rec (P := fun mark => isHexDigit mark = false) hmark (by decide)
  simp only [codePoint?, hdigit, Bool.and_false, Bool.false_eq_true, if_false]

/-- Separators are no quotes and no backslashes, and they stand for nothing after a backslash. -/
theorem ne_quote_of_isSeparator :
    mark ≠ doubleQuote ∧ mark ≠ backQuote ∧ mark ≠ backslash ∧ mark ≠ 'u' ∧
      escaped? mark = none :=
  isSeparator_rec (P := fun mark => mark ≠ doubleQuote ∧ mark ≠ backQuote ∧ mark ≠ backslash ∧
    mark ≠ 'u' ∧ escaped? mark = none) hmark (by decide)

/-- A string literal that is faulty is so in front of a separator. -/
theorem readString_append_mark (hread : readString literal text = .error stop)
    (other : List Char) : ∃ stop', readString other (text ++ [mark]) = .error stop' := by
  obtain ⟨hquote, -, hslash, hu, hescaped⟩ := ne_quote_of_isSeparator hmark
  fun_induction readString literal text with
  | case1 => exact ⟨_, readString_plain hquote hslash⟩
  | case2 => cases hread
  | case3 => exact ⟨_, readString_badEscape hu hescaped⟩
  | case4 h₁ h₂ h₃ h₄ tail c hc _ ih =>
    obtain ⟨stop', htail⟩ := ih (withChar_eq_error hread)
    refine ⟨stop', ?_⟩
    rw [List.cons_append, List.cons_append, List.cons_append, List.cons_append, List.cons_append,
      List.cons_append, readString_codePoint hc, htail]
    rfl
  | case5 h₁ h₂ h₃ h₄ tail hc => exact ⟨_, readString_badCodePoint hc⟩
  | case6 tail hshort =>
    -- fewer than four characters follow, and the separator is no digit of a code point
    obtain _ | ⟨a, _ | ⟨b, _ | ⟨c, _ | ⟨d, rest⟩⟩⟩⟩ := tail
    · exact ⟨_, rfl⟩
    · exact ⟨_, rfl⟩
    · exact ⟨_, rfl⟩
    · exact ⟨_, readString_badCodePoint (codePoint?_of_isSeparator hmark a b c)⟩
    · exact absurd rfl (hshort a b c d rest)
  | case7 e tail hu c hc _ ih =>
    obtain ⟨stop', htail⟩ := ih (withChar_eq_error hread)
    refine ⟨stop', ?_⟩
    rw [List.cons_append, List.cons_append, readString_escaped hu hc, htail]
    rfl
  | case8 e tail hu hc => exact ⟨_, readString_badEscape hu hc⟩
  | case9 c tail hquote hslash ih =>
    obtain ⟨stop', htail⟩ := ih (withChar_eq_error hread)
    refine ⟨stop', ?_⟩
    rw [List.cons_append, readString_plain hquote hslash, htail]
    rfl

/-- A uri literal that is faulty is so in front of a separator. -/
theorem readUri_append_mark (hread : readUri literal text = .error stop) (other : List Char) :
    ∃ stop', readUri other (text ++ [mark]) = .error stop' := by
  obtain ⟨-, hquote, hslash, -, -⟩ := ne_quote_of_isSeparator hmark
  fun_induction readUri literal text with
  | case1 => exact ⟨_, readUri_plain hquote hslash⟩
  | case2 => cases hread
  | case3 =>
    have hplain : ¬ (mark = backQuote ∨ mark = backslash) := not_or.mpr ⟨hquote, hslash⟩
    have hjoined : readUri other [backslash, mark] =
        withChar backslash (readUri other [mark]) := readUri_backslash hplain
    rw [readUri_plain hquote hslash] at hjoined
    exact ⟨_, hjoined⟩
  | case4 e tail hc _ ih =>
    obtain ⟨stop', htail⟩ := ih (withChar_eq_error hread)
    refine ⟨stop', ?_⟩
    rw [List.cons_append, List.cons_append, readUri_escaped hc, htail]
    rfl
  | case5 e tail hc _ ih =>
    obtain ⟨stop', htail⟩ := ih (withChar_eq_error hread)
    refine ⟨stop', ?_⟩
    rw [List.cons_append, List.cons_append, readUri_backslash hc, ← List.cons_append, htail]
    rfl
  | case6 c tail hquote hslash ih =>
    obtain ⟨stop', htail⟩ := ih (withChar_eq_error hread)
    refine ⟨stop', ?_⟩
    rw [List.cons_append, readUri_plain hquote hslash, htail]
    rfl

end Quoted

/-! ### Whole texts -/

section Mark

variable {mark : Char} (hmark : isSeparator mark = true) {text : List Char}

include hmark

/-- Where no token can be read, none can be read with a separator at the end. -/
theorem scanSolid_stops_append (hscan : (scanSolid text).Stops) :
    (scanSolid (text ++ [mark])).Stops := by
  have h : StartsIn isGap [mark] := startsIn_cons (isGap_of_isSeparator mark hmark) []
  cases text with
  | nil => exact hscan.elim
  | cons c text =>
    cases readerOf c with
    | opening hread | closing hread =>
      rw [hread] at hscan
      exact hscan.elim
    | string hread =>
      rw [hread] at hscan
      rw [List.cons_append, hread]
      exact scanQuoted_stops_append (fun _ hread => readString_append_mark hmark hread _) hscan
    | uri hread =>
      rw [hread] at hscan
      rw [List.cons_append, hread]
      exact scanQuoted_stops_append (fun _ hread => readUri_append_mark hmark hread _) hscan
    | ref hread | symbol hread =>
      rw [hread] at hscan
      rw [List.cons_append, hread]
      exact scanMarked_stops_append h hscan
    | negative _ hread =>
      rw [hread] at hscan
      rw [List.cons_append, hread]
      exact scanNegative_stops_append h hscan
    | digits _ hread =>
      rw [hread] at hscan
      rw [List.cons_append, hread, ← List.cons_append]
      exact scanDigits_stops_append h hscan
    | word _ hread =>
      rw [hread] at hscan
      rw [List.cons_append, hread, ← List.cons_append]
      exact scanWord_stops_append h hscan
    | other hread =>
      rw [hread] at hscan
      rw [List.cons_append, hread]
      exact scanOther_stops_append h hscan

theorem scan_stops_append (hscan : (scan text).Stops) : (scan (text ++ [mark])).Stops := by
  unfold scan at hscan ⊢
  cases hsolid : text.dropWhile isBlank with
  | nil =>
    rw [hsolid] at hscan
    exact hscan.elim
  | cons c tail =>
    have hdrop : (text ++ [mark]).dropWhile isBlank = text.dropWhile isBlank ++ [mark] := by
      rw [List.dropWhile_append, hsolid]
      rfl
    rw [hdrop]
    exact scanSolid_stops_append hmark hscan

/-- A text that can be read as tokens with a separator at its end that is a token can be read
without it. -/
theorem readChars_of_append_mark {token : Token} (htoken : scan [mark] = .token token [])
    {tokens : List Token} (hread : readChars (text ++ [mark]) = (tokens, none)) :
    ∃ inner, readChars text = (inner, none) ∧ tokens = inner ++ [token] := by
  have h : StartsIn isSeparator [mark] := startsIn_cons hmark []
  induction hn : text.length using Nat.strongRecOn generalizing text tokens with
  | ind n ih =>
    subst hn
    cases hscan : scan text with
    | finished =>
      rw [readChars_blanks_append (dropWhile_eq_nil_of_scan hscan), readChars_token htoken,
        readChars_finished rfl] at hread
      cases hread
      exact ⟨[], readChars_finished hscan, rfl⟩
    | token first after =>
      rw [readChars_token (scan_append h hscan)] at hread
      cases hafter : readChars (after ++ [mark]) with
      | mk found stop =>
        rw [hafter] at hread
        obtain ⟨rfl, rfl⟩ := Prod.mk.inj hread
        obtain ⟨inner, hinner, rfl⟩ := ih _ (scan_shorter hscan) hafter rfl
        refine ⟨first :: inner, ?_, rfl⟩
        rw [readChars_token hscan, hinner]
    | stopped stop =>
      have hstops : (scan text).Stops := by
        rw [hscan]
        trivial
      obtain ⟨stop', hjoined⟩ := (scan_stops_append hmark hstops).exists_stop
      rw [readChars_stopped hjoined] at hread
      cases hread

end Mark

end TagFilter
