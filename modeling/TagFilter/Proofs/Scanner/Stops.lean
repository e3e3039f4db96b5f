import TagFilter.Token.Progress

/-!
# Places of faults

Where the scanner stops, the fault speaks of the text at the place that it names: of a character
that stands there, of a literal that can be read there, or of a quote that opens there
(`Stop.IsWithin`).  Behind every fault but an unexpected character reading goes on further to the
right.

The escapes of a string need a statement of their own (`Stop.IsInside`), since a fault of an escape
is located at its backslash, whereas an open quote is located at the quote.
-/

namespace TagFilter

/-- The places at which the scanner may stop in a text that begins with no blank, with those from
which it goes on. -/
inductive Stop.IsWithin : List Char → Stop → Prop where
  | unexpectedCharacter (c : Char) (rest : List Char) :
    IsWithin (c :: rest) ⟨.unexpectedCharacter c, c :: rest, c :: rest⟩
  | unterminatedLiteral {quote : Char} {tail rest : List Char}
    (hquote : quote = doubleQuote ∨ quote = backQuote) (hrest : rest <:+ tail) :
    IsWithin (quote :: tail) ⟨.unterminatedLiteral, quote :: tail, rest⟩
  | invalidLiteral {c : Char} {tail literal start rest : List Char} (hne : literal ≠ [])
    (hfront : literal <+: start) (hstart : start <:+ c :: tail) (hrest : rest <:+ tail) :
    IsWithin (c :: tail) ⟨.invalidLiteral literal, start, rest⟩

/-! ### Words and numbers -/

theorem partBefore_opens (text rest : List Char) : partBefore text rest <+: text :=
  List.take_prefix _ _

theorem partBefore_ne_nil {c : Char} {tail rest : List Char} (h : rest <:+ tail) :
    partBefore (c :: tail) rest ≠ [] := by
  have hle := h.length_le
  refine List.ne_nil_of_length_pos ?_
  rw [partBefore, List.length_take, List.length_cons]
  omega

/-- A literal that reaches from the front of a text to what remains of it. -/
theorem Stop.isWithin_partBefore {c : Char} {tail rest : List Char} (h : rest <:+ tail) :
    Stop.IsWithin (c :: tail)
      ⟨.invalidLiteral (partBefore (c :: tail) rest), c :: tail, rest⟩ :=
  .invalidLiteral (partBefore_ne_nil h) (partBefore_opens _ _) (List.suffix_refl _) h

section Readers

variable {c : Char} {rest : List Char} {stop : Stop}

theorem isWithin_of_scanWord (hc : isNameStart c = true)
    (h : scanWord (c :: rest) = .stopped stop) : stop.IsWithin (c :: rest) := by
  have hafter := dropWhile_cons_suffix (isNameChar_of_isNameStart hc) rest
  unfold scanWord at h
  simp only at h
  split at h
  · cases h
  · split at h
    · cases h
    · split at h
      · cases h
      · next after hsegments =>
        cases h
        have hsuffix := readSegments_suffix ((c :: rest).dropWhile isNameChar)
        rw [hsegments] at hsuffix
        exact Stop.isWithin_partBefore (hsuffix.trans hafter)

theorem isWithin_of_scanFields {after : List Char} {value? : Option Value} (hafter : after <:+ rest)
    (h : scanFields (c :: rest) after value? = .stopped stop) : stop.IsWithin (c :: rest) := by
  cases value? with
  | none =>
    cases h
    exact Stop.isWithin_partBefore hafter
  | some value => cases h

theorem isWithin_of_scanDigits (h : scanDigits (c :: rest) = .stopped stop) :
    stop.IsWithin (c :: rest) := by
  unfold scanDigits at h
  split at h
  · next hdate => exact isWithin_of_scanFields (readDate?_suffix hdate) h
  · split at h
    · next htime => exact isWithin_of_scanFields (readTime?_suffix htime) h
    · cases h

/-! ### Marked names and operators -/

theorem isWithin_of_scanMarked {value : String → Value}
    (h : scanMarked value c rest = .stopped stop) : stop.IsWithin (c :: rest) := by
  unfold scanMarked at h
  simp only at h
  split at h
  · cases h
    exact .invalidLiteral (List.cons_ne_nil _ _) ⟨rest, rfl⟩ (List.suffix_refl _)
      (List.suffix_refl _)
  · cases h

theorem isWithin_of_scanNegative (h : scanNegative rest = .stopped stop) :
    stop.IsWithin ('-' :: rest) := by
  unfold scanNegative at h
  split at h
  · cases h
  · split at h
    · cases h
    · cases h
      exact .unexpectedCharacter '-' rest

theorem isWithin_of_scanOther (h : scanOther c rest = .stopped stop) :
    stop.IsWithin (c :: rest) := by
  unfold scanOther at h
  split at h
  · cases h
  · cases h
    exact .unexpectedCharacter c rest

end Readers

/-! ### Quoted literals -/

/-- The places at which the reading of a quoted literal may stop in the text behind its opening
quote, and those from which reading goes on. -/
inductive Stop.IsInside (literal text : List Char) : Stop → Prop where
  | unterminatedLiteral : IsInside literal text ⟨.unterminatedLiteral, literal, []⟩
  | invalidLiteral {escape start rest : List Char} (hne : escape ≠ []) (hfront : escape <+: start)
    (hstart : start <:+ text) (hrest : rest <:+ text) :
    IsInside literal text ⟨.invalidLiteral escape, start, rest⟩

theorem Stop.IsInside.mono {literal text more : List Char} {stop : Stop}
    (h : stop.IsInside literal text) (hmore : text <:+ more) : stop.IsInside literal more := by
  cases h with
  | unterminatedLiteral => exact .unterminatedLiteral
  | invalidLiteral hne hfront hstart hrest =>
    exact .invalidLiteral hne hfront (hstart.trans hmore) (hrest.trans hmore)

/-- Behind a quote, the reading of its literal stops at the quote or after it. -/
theorem Stop.IsInside.isWithin {quote : Char} {tail : List Char} {stop : Stop}
    (h : stop.IsInside (quote :: tail) tail) (hquote : quote = doubleQuote ∨ quote = backQuote) :
    stop.IsWithin (quote :: tail) := by
  cases h with
  | unterminatedLiteral => exact .unterminatedLiteral hquote (List.nil_suffix)
  | invalidLiteral hne hfront hstart hrest =>
    exact .invalidLiteral hne hfront (hstart.trans (List.suffix_cons _ _)) hrest

/-- The reading of a quoted literal stops only within a text. -/
def StopsInside (literal text : List Char) (read : Except Stop (List Char × List Char)) : Prop :=
  ∀ stop, read = .error stop → stop.IsInside literal text

section Quoted

variable {literal text more : List Char} {read : Except Stop (List Char × List Char)}

theorem stopsInside_ok (pair : List Char × List Char) : StopsInside literal text (.ok pair) :=
  fun _ h => nomatch h

theorem stopsInside_error {stop : Stop} (h : stop.IsInside literal text) :
    StopsInside literal text (.error stop) := by
  rintro _ ⟨⟩
  exact h

theorem StopsInside.map (h : StopsInside literal text read) (hmore : text <:+ more) (c : Char) :
    StopsInside literal more (read.map fun (inner, rest) => (c :: inner, rest)) := by
  intro stop heq
  cases read with
  | error other =>
    cases heq
    exact (h _ rfl).mono hmore
  | ok pair => cases heq

theorem firstBytes?_opens {n : Nat} {part : List Char} (h : firstBytes? n text = some part) :
    part <+: text := by
  fun_induction firstBytes? n text generalizing part with
  | case1 | case2 =>
    cases h
    exact List.nil_prefix
  | case3 n c rest hfits ih =>
    obtain ⟨inner, hinner, rfl⟩ := Option.map_eq_some_iff.mp h
    exact List.prefix_cons_inj c |>.mpr (ih hinner)
  | case4 => cases h

theorem firstBytes?_ne_nil {n : Nat} {c : Char} {rest part : List Char}
    (h : firstBytes? (n + 1) (c :: rest) = some part) : part ≠ [] := by
  rw [firstBytes?] at h
  split at h
  · obtain ⟨inner, -, rfl⟩ := Option.map_eq_some_iff.mp h
    exact List.cons_ne_nil _ _
  · cases h

/-- The fault of a code point escape quotes the escape as far as it goes, or its first two
characters. -/
theorem isInside_badCodePoint {inner rest : List Char}
    (hstart : backslash :: 'u' :: inner <:+ text) (hrest : rest <:+ text) :
    (badCodePoint (backslash :: 'u' :: inner) rest).IsInside literal text := by
  unfold badCodePoint
  cases hpart : firstBytes? 6 (backslash :: 'u' :: inner) with
  | none => exact .invalidLiteral (List.cons_ne_nil _ _) ⟨inner, rfl⟩ hstart hrest
  | some part =>
    exact .invalidLiteral (firstBytes?_ne_nil hpart) (firstBytes?_opens hpart) hstart hrest

theorem readString_stopsInside (literal text : List Char) :
    StopsInside literal text (readString literal text) := by
  fun_induction readString literal text with
  | case1 | case3 => exact stopsInside_error .unterminatedLiteral
  | case2 => exact stopsInside_ok _
  | case4 _ _ _ _ _ c _ _ ih => exact ih.map ⟨[_, _, _, _, _, _], rfl⟩ c
  | case5 => exact stopsInside_error (isInside_badCodePoint (List.suffix_refl _) ⟨[_, _], rfl⟩)
  | case6 => exact stopsInside_error (isInside_badCodePoint (List.suffix_refl _) ⟨[_, _], rfl⟩)
  | case7 _ _ _ c _ _ ih => exact ih.map ⟨[_, _], rfl⟩ c
  | case8 e rest =>
    refine stopsInside_error (.invalidLiteral (List.cons_ne_nil _ _) ⟨rest, rfl⟩
      (List.suffix_refl _) ⟨[_, _], rfl⟩)
  | case9 c _ _ _ ih => exact ih.map (List.suffix_cons _ _) c

theorem readUri_stopsInside (literal text : List Char) :
    StopsInside literal text (readUri literal text) := by
  fun_induction readUri literal text with
  | case1 | case3 => exact stopsInside_error .unterminatedLiteral
  | case2 => exact stopsInside_ok _
  | case4 e _ _ _ ih => exact ih.map ⟨[_, _], rfl⟩ e
  | case5 _ _ _ _ ih => exact ih.map (List.suffix_cons _ _) _
  | case6 c _ _ _ ih => exact ih.map (List.suffix_cons _ _) c

theorem isWithin_of_scanQuoted {value : String → Value} {quote : Char} {tail : List Char}
    {stop : Stop} (hquote : quote = doubleQuote ∨ quote = backQuote)
    (hread : StopsInside (quote :: tail) tail read) (h : scanQuoted value read = .stopped stop) :
    stop.IsWithin (quote :: tail) := by
  cases read with
  | ok pair => cases h
  | error other =>
    cases h
    exact (hread _ rfl).isWithin hquote

end Quoted

/-- Where the scanner stops, the text at the place of the fault is what the fault says. -/
theorem isWithin_of_scanSolid {text : List Char} {stop : Stop}
    (h : scanSolid text = .stopped stop) : stop.IsWithin text := by
  cases text with
  | nil => cases h
  | cons c rest =>
    rw [scanSolid] at h
    split at h
    · cases h
    split at h
    · cases h
    split at h
    · next hquote =>
      exact isWithin_of_scanQuoted (Or.inl hquote) (readString_stopsInside _ _) h
    split at h
    · next hquote => exact isWithin_of_scanQuoted (Or.inr hquote) (readUri_stopsInside _ _) h
    split at h
    · exact isWithin_of_scanMarked h
    split at h
    · exact isWithin_of_scanMarked h
    split at h
    · next hminus => exact hminus ▸ isWithin_of_scanNegative h
    split at h
    · exact isWithin_of_scanDigits h
    split at h
    · next hstart => exact isWithin_of_scanWord hstart h
    · exact isWithin_of_scanOther h

end TagFilter
