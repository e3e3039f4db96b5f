import TagFilter.Token.Scanner

/-!
# Progress of the scanner

What follows a token is a proper end of the text in which the token was read.  `scan_shorter` is
the form of this fact on which every loop over tokens rests.
-/

namespace TagFilter

/-- What follows a token that opens a text is an end of the text after its first character. -/
def Scan.Advances (text : List Char) : Scan → Prop
  | .finished => True
  | .token _ rest => rest <:+ text.tail
  | .stopped _ => True

theorem dropWhile_cons_suffix {p : Char → Bool} {c : Char} (h : p c = true) (rest : List Char) :
    (c :: rest).dropWhile p <:+ rest := by
  rw [List.dropWhile_cons_of_pos h]
  exact List.dropWhile_suffix p

theorem readSegments_suffix (text : List Char) : (readSegments text).2 <:+ text := by
  fun_induction readSegments text with
  | case1 rest _ names after heq ih =>
    rw [heq] at ih
    exact ih.trans ((List.dropWhile_suffix _).trans
      ((List.suffix_cons _ _).trans (List.suffix_cons _ _)))
  | case2 rest _ =>
    exact (List.dropWhile_suffix _).trans ((List.suffix_cons _ _).trans (List.suffix_cons _ _))
  | case3 text => exact List.suffix_refl _

theorem readMark?_suffix {text rest : List Char} {term : Option Symbol}
    (h : readMark? text = some (term, rest)) : rest <:+ text := by
  unfold readMark? at h
  split at h
  · obtain ⟨-, rfl⟩ := Prod.mk.inj (Option.some.inj h)
    exact List.suffix_cons _ _
  · cases h
  · next tail _ =>
    simp only at h
    split at h
    · next after hdrop =>
      split at h
      · cases h
      · obtain ⟨-, rfl⟩ := Prod.mk.inj (Option.some.inj h)
        have : '?' :: after <:+ tail := hdrop ▸ List.dropWhile_suffix isIdChar
        exact (List.suffix_cons _ _).trans (this.trans (List.suffix_cons _ _))
    · cases h
  · cases h

theorem scanWord_advances {c : Char} (h : isNameStart c = true) (rest : List Char) :
    (scanWord (c :: rest)).Advances (c :: rest) := by
  have hafter := dropWhile_cons_suffix (isNameChar_of_isNameStart h) rest
  unfold scanWord
  simp only
  split
  · exact hafter
  · split
    · next hmark => exact (readMark?_suffix hmark).trans hafter
    · split
      · next names after hsegments =>
        have := readSegments_suffix ((c :: rest).dropWhile isNameChar)
        rw [hsegments] at this
        exact this.trans hafter
      · trivial

theorem readFraction_suffix (text : List Char) : (Decimal.readFraction text).2 <:+ text := by
  unfold Decimal.readFraction
  split
  · split
    · exact (List.dropWhile_suffix _).trans (List.suffix_cons _ _)
    · exact List.suffix_refl _
  · exact List.suffix_refl _

theorem readPower_suffix (negative : Bool) (text : List Char) :
    (Decimal.readPower negative text).2 <:+ text :=
  List.dropWhile_suffix _

theorem readExponent_suffix (text : List Char) : (Decimal.readExponent text).2 <:+ text := by
  unfold Decimal.readExponent
  split
  · exact List.suffix_refl _
  · split
    · split <;> split
      · exact (readPower_suffix _ _).trans ((List.suffix_cons _ _).trans (List.suffix_cons _ _))
      · exact List.suffix_refl _
      · exact (readPower_suffix _ _).trans ((List.suffix_cons _ _).trans (List.suffix_cons _ _))
      · exact List.suffix_refl _
      · exact (readPower_suffix _ _).trans (List.suffix_cons _ _)
      · exact List.suffix_refl _
    · exact List.suffix_refl _

theorem readUnsigned_suffix (negative : Bool) (text : List Char) :
    (Decimal.readUnsigned negative text).2 <:+ text.dropWhile isDigitOrGroup :=
  (readExponent_suffix _).trans (readFraction_suffix _)

theorem scanNumber_advances {c : Char} (h : c.isDigit = true ∨ c = '-') (rest : List Char) :
    (scanNumber (c :: rest)).Advances (c :: rest) := by
  have hread : (Decimal.read (c :: rest)).2 <:+ rest := by
    unfold Decimal.read
    split
    · next heq =>
      obtain ⟨-, rfl⟩ := List.cons.inj heq
      exact (readUnsigned_suffix _ _).trans (List.dropWhile_suffix _)
    · next hne =>
      rcases h with h | rfl
      · exact (readUnsigned_suffix _ _).trans
          (dropWhile_cons_suffix (by simp [isDigitOrGroup, h]) rest)
      · exact absurd rfl (hne rest)
  exact (List.dropWhile_suffix _).trans hread

theorem readDate?_suffix {text rest : List Char} {fields : Nat × Nat × Nat}
    (h : readDate? text = some (fields, rest)) : rest <:+ text.tail := by
  unfold readDate? at h
  split at h
  · split at h
    · obtain ⟨-, rfl⟩ := Prod.mk.inj (Option.some.inj h)
      exact ⟨[_, _, _, _, _, _, _, _, _], rfl⟩
    · cases h
  · cases h

theorem readSecondFraction_suffix (text : List Char) : (readSecondFraction text).2 <:+ text := by
  unfold readSecondFraction
  split
  · split
    · exact (List.dropWhile_suffix _).trans (List.suffix_cons _ _)
    · exact List.suffix_refl _
  · exact List.suffix_refl _

theorem readSeconds_suffix (text : List Char) : (readSeconds text).2 <:+ text := by
  unfold readSeconds
  split
  · split
    · exact (readSecondFraction_suffix _).trans ⟨[_, _, _], rfl⟩
    · exact List.suffix_refl _
  · exact List.suffix_refl _

theorem readTime?_suffix {text rest : List Char} {fields : Nat × Nat × Nat × Nat}
    (h : readTime? text = some (fields, rest)) : rest <:+ text.tail := by
  unfold readTime? at h
  split at h
  · split at h
    · obtain ⟨-, rfl⟩ := Prod.mk.inj (Option.some.inj h)
      exact (readSeconds_suffix _).trans ⟨[_, _, _, _], rfl⟩
    · cases h
  · cases h

theorem scanFields_advances {text rest : List Char} (h : rest <:+ text.tail)
    (value? : Option Value) : (scanFields text rest value?).Advances text := by
  cases value? with
  | none => trivial
  | some value => exact h

theorem scanDigits_advances {c : Char} (h : c.isDigit = true) (rest : List Char) :
    (scanDigits (c :: rest)).Advances (c :: rest) := by
  unfold scanDigits
  split
  · next hdate => exact scanFields_advances (readDate?_suffix hdate) _
  · split
    · next htime => exact scanFields_advances (readTime?_suffix htime) _
    · exact scanNumber_advances (Or.inl h) rest

/-- What follows a quoted literal that was read from a text is an end of that text. -/
def Reads (text : List Char) (read : Except Stop (List Char × List Char)) : Prop :=
  ∀ inner rest, read = .ok (inner, rest) → rest <:+ text

theorem Reads.map {text more : List Char} {read : Except Stop (List Char × List Char)} {c : Char}
    (h : Reads text read) (hmore : text <:+ more) :
    Reads more (read.map fun (inner, rest) => (c :: inner, rest)) := by
  intro inner rest heq
  cases read with
  | error _ => cases heq
  | ok pair =>
    obtain ⟨-, rfl⟩ := Prod.mk.inj (Except.ok.inj heq)
    exact (h pair.1 pair.2 rfl).trans hmore

theorem readString_suffix (literal text : List Char) : Reads text (readString literal text) := by
  fun_induction readString literal text with
  | case1 => intro _ _ h; cases h
  | case2 rest =>
    intro _ _ h
    obtain ⟨-, rfl⟩ := Prod.mk.inj (Except.ok.inj h)
    exact List.suffix_cons _ _
  | case3 => intro _ _ h; cases h
  | case4 _ _ _ _ _ _ _ _ ih => exact ih.map ⟨[_, _, _, _, _, _], rfl⟩
  | case5 => intro _ _ h; cases h
  | case6 => intro _ _ h; cases h
  | case7 _ _ _ _ _ _ ih => exact ih.map ⟨[_, _], rfl⟩
  | case8 => intro _ _ h; cases h
  | case9 _ _ _ _ ih => exact ih.map (List.suffix_cons _ _)

theorem readUri_suffix (literal text : List Char) : Reads text (readUri literal text) := by
  fun_induction readUri literal text with
  | case1 => intro _ _ h; cases h
  | case2 rest =>
    intro _ _ h
    obtain ⟨-, rfl⟩ := Prod.mk.inj (Except.ok.inj h)
    exact List.suffix_cons _ _
  | case3 => intro _ _ h; cases h
  | case4 _ _ _ _ ih => exact ih.map ⟨[_, _], rfl⟩
  | case5 _ _ _ _ ih => exact ih.map (List.suffix_cons _ _)
  | case6 _ _ _ _ ih => exact ih.map (List.suffix_cons _ _)

theorem scanQuoted_advances {c : Char} {rest : List Char} (value : String → Value)
    {read : Except Stop (List Char × List Char)} (h : Reads rest read) :
    (scanQuoted value read).Advances (c :: rest) := by
  cases read with
  | error _ => trivial
  | ok pair => exact h pair.1 pair.2 rfl

theorem scanMarked_advances (value : String → Value) (mark : Char) (rest : List Char) :
    (scanMarked value mark rest).Advances (mark :: rest) := by
  unfold scanMarked
  simp only
  split
  · trivial
  · exact List.dropWhile_suffix _

theorem readOperator?_suffix {text rest : List Char} {token : Token}
    (h : readOperator? text = some (token, rest)) : rest <:+ text.tail := by
  unfold readOperator? at h
  split at h <;> try cases h
  · exact ⟨[_, _], rfl⟩
  all_goals first
    | exact ⟨[_], rfl⟩
    | exact List.suffix_refl _

theorem scanNegative_advances (rest : List Char) :
    (scanNegative rest).Advances ('-' :: rest) := by
  unfold scanNegative
  split
  · exact ⟨[_, _, _], rfl⟩
  · split
    · exact scanNumber_advances (Or.inr rfl) rest
    · trivial

theorem scanOther_advances (c : Char) (rest : List Char) :
    (scanOther c rest).Advances (c :: rest) := by
  unfold scanOther
  split
  · next h => exact readOperator?_suffix h
  · trivial

theorem scanSolid_advances (text : List Char) : (scanSolid text).Advances text := by
  cases text with
  | nil => trivial
  | cons c rest =>
    cases readerOf c with
    | opening h => exact h rest ▸ List.suffix_refl rest
    | closing h => exact h rest ▸ List.suffix_refl rest
    | string h => exact h rest ▸ scanQuoted_advances _ (readString_suffix _ _)
    | uri h => exact h rest ▸ scanQuoted_advances _ (readUri_suffix _ _)
    | ref h => exact h rest ▸ scanMarked_advances _ _ _
    | symbol h => exact h rest ▸ scanMarked_advances _ _ _
    | negative hc h => exact h rest ▸ hc ▸ scanNegative_advances rest
    | digits hc h => exact h rest ▸ scanDigits_advances hc rest
    | word hc h => exact h rest ▸ scanWord_advances hc rest
    | other h => exact h rest ▸ scanOther_advances c rest

/-- A token takes up at least one character. -/
theorem scan_shorter {text rest : List Char} {token : Token} (h : scan text = .token token rest) :
    rest.length < text.length := by
  have hadvances := scanSolid_advances (text.dropWhile isBlank)
  unfold scan at h
  rw [h] at hadvances
  have hle := hadvances.length_le
  have hdrop := (List.dropWhile_suffix isBlank (l := text)).length_le
  cases hsolid : text.dropWhile isBlank with
  | nil => rw [hsolid] at h; cases h
  | cons c tail =>
    rw [hsolid] at hle hdrop
    simp only [List.tail_cons, List.length_cons] at hle hdrop
    omega

end TagFilter
