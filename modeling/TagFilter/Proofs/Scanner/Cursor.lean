import Mathlib.Data.List.DropRight
import Mathlib.Logic.Function.Iterate
import TagFilter.Proofs.Grammar.Streaming
import TagFilter.Proofs.Scanner.Separation
import TagFilter.Proofs.Scanner.Stops

/-!
# Calls for the next token

A text may be read on after an error, by any number of calls for the next token.  Each call leaves
the cursor in the text, between two of its characters and no further to the left than before
(`Cursor.IsIn.next`).  Unless the call meets the end of the text or an unexpected character, it goes
past a character that is no blank; an unexpected character is met again by all later calls.  What an
error says of the text is found at its position (`SyntaxError.IsLocated`).

`Cursor.calls_ofText` puts these facts together for all calls of a text.
-/

namespace TagFilter

/-! ### Positions in bytes -/

theorem byteLength_append (front back : List Char) :
    byteLength (front ++ back) = byteLength front + byteLength back := by
  induction front with
  | nil => exact (Nat.zero_add _).symm
  | cons c front ih =>
    change c.utf8Size + byteLength (front ++ back) = c.utf8Size + byteLength front + byteLength back
    rw [ih, Nat.add_assoc]

theorem byteLength_eq_utf8ByteSize (text : List Char) :
    byteLength text = (String.ofList text).utf8ByteSize := by
  induction text with
  | nil => rfl
  | cons c text ih =>
    rw [String.ofList_cons, String.utf8ByteSize_append, String.utf8ByteSize_singleton, ← ih]
    rfl

/-- What remains of a text stands at the position behind the characters in front of it. -/
theorem positionOf_append (front back : List Char) :
    positionOf (front ++ back) back = byteLength front := by
  rw [positionOf, byteLength_append, Nat.add_sub_cancel]

/-- A part of a text stands at a position, in bytes. -/
def OccursAt (part text : String) (position : Nat) : Prop :=
  ∃ front back, text = front ++ (part ++ back) ∧ position = front.utf8ByteSize

section OccursAt

variable {part text : String} {position : Nat}

/-- The position of a part lies between two characters. -/
theorem OccursAt.isValid (h : OccursAt part text position) :
    (String.Pos.Raw.mk position).IsValid text := by
  obtain ⟨front, back, htext, rfl⟩ := h
  exact String.Pos.Raw.isValid_iff_exists_append.mpr ⟨front, part ++ back, htext, rfl⟩

/-- The position of a character or more lies in front of the end of the text. -/
theorem OccursAt.lt_size (h : OccursAt part text position) (hne : part ≠ "") :
    position < text.utf8ByteSize := by
  obtain ⟨front, back, rfl, rfl⟩ := h
  have hsize : part.utf8ByteSize ≠ 0 := fun hzero => hne (String.utf8ByteSize_eq_zero_iff.mp hzero)
  rw [String.utf8ByteSize_append, String.utf8ByteSize_append]
  omega

/-- An end of a text stands at its position, behind what is in front of it. -/
theorem exists_front_of_suffix {text : String} {start : List Char} (h : start <:+ text.toList) :
    ∃ front, text = front ++ String.ofList start ∧
      positionOf text.toList start = front.utf8ByteSize := by
  obtain ⟨front, htext⟩ := h
  refine ⟨String.ofList front, ?_, ?_⟩
  · rw [← String.ofList_append, htext, String.ofList_toList]
  · rw [← htext, positionOf_append, byteLength_eq_utf8ByteSize]

theorem occursAt_positionOf {part start : List Char} (hfront : part <+: start)
    (hstart : start <:+ text.toList) :
    OccursAt (String.ofList part) text (positionOf text.toList start) := by
  obtain ⟨front, htext, hposition⟩ := exists_front_of_suffix hstart
  obtain ⟨back, rfl⟩ := hfront
  rw [String.ofList_append] at htext
  exact ⟨front, String.ofList back, htext, hposition⟩

end OccursAt

/-! ### Errors -/

/-- An error says what is found in a text at its position: the character that is unexpected, the
quote that is not closed, or the literal that names nothing. -/
inductive SyntaxError.IsLocated (text : String) : SyntaxError → Prop where
  | unexpectedCharacter {c : Char} {position : Nat}
    (h : OccursAt (String.singleton c) text position) :
    IsLocated text (.unexpectedCharacter c position)
  | unterminatedLiteral {quote : Char} {position : Nat}
    (hquote : quote = doubleQuote ∨ quote = backQuote)
    (h : OccursAt (String.singleton quote) text position) :
    IsLocated text (.unterminatedLiteral position)
  | invalidLiteral {literal : String} {position : Nat} (hne : literal ≠ "")
    (h : OccursAt literal text position) : IsLocated text (.invalidLiteral literal position)

/-- The position of an error lies between two characters, in front of the end of the text. -/
theorem SyntaxError.IsLocated.exists_position {text : String} {error : SyntaxError}
    (h : error.IsLocated text) :
    ∃ position, error.position? = some position ∧
      (String.Pos.Raw.mk position).IsValid text ∧ position < text.utf8ByteSize := by
  cases h with
  | unexpectedCharacter h => exact ⟨_, rfl, h.isValid, h.lt_size String.singleton_ne_empty⟩
  | unterminatedLiteral _ h => exact ⟨_, rfl, h.isValid, h.lt_size String.singleton_ne_empty⟩
  | invalidLiteral hne h => exact ⟨_, rfl, h.isValid, h.lt_size hne⟩

theorem Stop.IsWithin.isLocated {text : String} {rest : List Char} {stop : Stop}
    (h : stop.IsWithin rest) (hrest : rest <:+ text.toList) :
    (stop.toError text.toList).IsLocated text := by
  cases h with
  | unexpectedCharacter c rest =>
    refine .unexpectedCharacter ?_
    rw [String.singleton_eq_ofList]
    exact occursAt_positionOf ⟨rest, rfl⟩ hrest
  | unterminatedLiteral hquote _ =>
    refine .unterminatedLiteral hquote ?_
    rw [String.singleton_eq_ofList]
    exact occursAt_positionOf ⟨_, rfl⟩ hrest
  | invalidLiteral hne hfront hstart _ =>
    refine .invalidLiteral (fun hempty => hne (String.ofList_eq_empty_iff.mp hempty)) ?_
    exact occursAt_positionOf hfront (hstart.trans hrest)

namespace Cursor

/-! ### Single calls -/

/-- A cursor is in a text: what remains at it is an end of the text. -/
structure IsIn (c : Cursor) (text : String) : Prop where
  /-- The text of the cursor is this one. -/
  text_eq : c.text = text.toList
  /-- What remains is an end of it. -/
  suffix : c.rest <:+ text.toList

/-- A call has gone past a character that is no blank. -/
def Consumes (c after : Cursor) : Prop :=
  ∃ passed, c.rest = passed ++ after.rest ∧ ∃ ch ∈ passed, isBlank ch = false

section Calls

variable {c : Cursor} {text : String}

theorem isIn_ofText (text : String) : (ofText text).IsIn text :=
  ⟨rfl, List.suffix_refl _⟩

/-- A cursor stands at the front of what remains of its text. -/
theorem IsIn.exists_front (h : c.IsIn text) :
    ∃ front, text = front ++ String.ofList c.rest ∧ c.position = front.utf8ByteSize := by
  rw [position, h.text_eq]
  exact exists_front_of_suffix h.suffix

/-- A call that goes on behind the first character that is no blank has gone past this one. -/
theorem consumes_of_suffix {ch : Char} {tail : List Char} {after : Cursor}
    (hsolid : c.rest.dropWhile isBlank = ch :: tail) (h : after.rest <:+ tail) :
    c.Consumes after := by
  obtain ⟨front, rfl⟩ := h
  have hsplit : c.rest.takeWhile isBlank ++ ch :: (front ++ after.rest) = c.rest := by
    rw [← hsolid, List.takeWhile_append_dropWhile]
  have hch : isBlank ch = false := by
    have hhead := List.head_dropWhile_not isBlank (hsolid ▸ List.cons_ne_nil _ _)
    simpa only [hsolid, List.head_cons] using hhead
  refine ⟨c.rest.takeWhile isBlank ++ ch :: front, ?_, ch, ?_, hch⟩
  · rw [List.append_assoc, List.cons_append, hsplit]
  · exact List.mem_append_right _ List.mem_cons_self

/-- What a call answers, and the cursor that it leaves. -/
inductive Outcome (text : String) (c : Cursor) : Except SyntaxError Token × Cursor → Prop where
  | finished (hblank : ∀ ch ∈ c.rest, isBlank ch = true) :
    Outcome text c (.ok .endOfInput, ⟨c.text, []⟩)
  | token {token : Token} {after : Cursor} (hne : token ≠ .endOfInput) (h : c.Consumes after) :
    Outcome text c (.ok token, after)
  | unexpectedCharacter {ch : Char} {position : Nat} {after : Cursor}
    (hlocated : (SyntaxError.unexpectedCharacter ch position).IsLocated text)
    (hsuffix : after.rest <:+ c.rest)
    (hagain : after.next = (.error (.unexpectedCharacter ch position), after)) :
    Outcome text c (.error (.unexpectedCharacter ch position), after)
  | error {error : SyntaxError} {after : Cursor} (hlocated : error.IsLocated text)
    (hne : ∀ ch position, error ≠ .unexpectedCharacter ch position) (h : c.Consumes after) :
    Outcome text c (.error error, after)

/-- A character that begins no token is met again. -/
theorem next_of_scanSolid_unexpected {ch : Char} {tail : List Char}
    (hsolid : c.rest.dropWhile isBlank = ch :: tail)
    (h : scanSolid (ch :: tail) = .stopped ⟨.unexpectedCharacter ch, ch :: tail, ch :: tail⟩) :
    next ⟨c.text, ch :: tail⟩ = (.error (.unexpectedCharacter ch (positionOf c.text (ch :: tail))),
      ⟨c.text, ch :: tail⟩) := by
  have hscan : scan (ch :: tail) = .stopped ⟨.unexpectedCharacter ch, ch :: tail, ch :: tail⟩ := by
    rw [scan, ← hsolid, List.dropWhile_idempotent, hsolid]
    exact h
  exact next_stopped (c := ⟨c.text, ch :: tail⟩) hscan

/-- A call that finds a token goes past the characters of the token. -/
theorem outcome_of_token {token : Token} {rest : List Char}
    (hscan : scan c.rest = .token token rest) : Outcome text c c.next := by
  rw [next_token hscan]
  have hend := scan_isInput c.rest
  rw [hscan] at hend
  have hadvances := scanSolid_advances (c.rest.dropWhile isBlank)
  rw [scan] at hscan
  rw [hscan] at hadvances
  cases hsolid : c.rest.dropWhile isBlank with
  | nil =>
    rw [hsolid] at hscan
    cases hscan
  | cons ch tail =>
    rw [hsolid] at hadvances
    refine .token (fun heq => ?_) (consumes_of_suffix hsolid hadvances)
    rw [heq] at hend
    cases hend

/-- A call that stops says where, and goes on unless the character there begins no token. -/
theorem IsIn.outcome_of_stopped (hc : c.IsIn text) {stop : Stop}
    (hscan : scan c.rest = .stopped stop) : Outcome text c c.next := by
  have hsuffix : c.rest.dropWhile isBlank <:+ text.toList :=
    (List.dropWhile_suffix isBlank).trans hc.suffix
  rw [next_stopped hscan, hc.text_eq]
  rw [scan] at hscan
  have hwithin := isWithin_of_scanSolid hscan
  have hlocated := hwithin.isLocated hsuffix
  generalize hsolid : c.rest.dropWhile isBlank = solid at hwithin hscan
  cases hwithin with
  | unexpectedCharacter ch tail =>
    refine .unexpectedCharacter hlocated (hsolid ▸ List.dropWhile_suffix isBlank) ?_
    rw [← hc.text_eq]
    exact next_of_scanSolid_unexpected hsolid hscan
  | unterminatedLiteral hquote hrest =>
    refine .error hlocated (fun _ _ h => ?_) (consumes_of_suffix hsolid hrest)
    cases h
  | invalidLiteral hne hfront hstart hrest =>
    refine .error hlocated (fun _ _ h => ?_) (consumes_of_suffix hsolid hrest)
    cases h

theorem IsIn.outcome (hc : c.IsIn text) : Outcome text c c.next := by
  cases hscan : scan c.rest with
  | finished =>
    rw [next_finished hscan]
    exact .finished (List.dropWhile_eq_nil_iff.mp (dropWhile_eq_nil_of_scan hscan))
  | token token rest => exact outcome_of_token hscan
  | stopped stop => exact hc.outcome_of_stopped hscan

theorem Consumes.suffix {after : Cursor} (h : c.Consumes after) : after.rest <:+ c.rest := by
  obtain ⟨passed, hrest, -⟩ := h
  exact ⟨passed, hrest.symm⟩

theorem Outcome.suffix {answer : Except SyntaxError Token × Cursor} (h : Outcome text c answer) :
    answer.2.rest <:+ c.rest := by
  cases h with
  | finished => exact List.nil_suffix
  | token _ h => exact h.suffix
  | unexpectedCharacter _ hsuffix _ => exact hsuffix
  | error _ _ h => exact h.suffix

theorem Outcome.blank_of_endOfInput {answer : Except SyntaxError Token × Cursor}
    (h : Outcome text c answer) (hend : answer.1 = .ok .endOfInput) :
    ∀ ch ∈ c.rest, isBlank ch = true := by
  cases h with
  | finished hblank => exact hblank
  | token hne _ => exact absurd (Except.ok.inj hend) hne
  | unexpectedCharacter => cases hend
  | error => cases hend

theorem Outcome.consumes_of_token {answer : Except SyntaxError Token × Cursor} {token : Token}
    (h : Outcome text c answer) (htoken : answer.1 = .ok token) (hne : token ≠ .endOfInput) :
    c.Consumes answer.2 := by
  cases h with
  | finished => exact absurd (Except.ok.inj htoken).symm hne
  | token _ h => exact h
  | unexpectedCharacter => cases htoken
  | error => cases htoken

theorem Outcome.located {answer : Except SyntaxError Token × Cursor} {error : SyntaxError}
    (h : Outcome text c answer) (herror : answer.1 = .error error) : error.IsLocated text := by
  cases h with
  | finished => cases herror
  | token => cases herror
  | unexpectedCharacter hlocated => exact Except.error.inj herror ▸ hlocated
  | error hlocated => exact Except.error.inj herror ▸ hlocated

/-- Behind an error the next call has the same one if it is an unexpected character; behind any
other error the cursor has gone on. -/
theorem Outcome.again_or_consumes {answer : Except SyntaxError Token × Cursor} {error : SyntaxError}
    (h : Outcome text c answer) (herror : answer.1 = .error error) :
    ((∃ ch position, error = .unexpectedCharacter ch position) ∧
        answer.2.next = (.error error, answer.2)) ∨
      ((∀ ch position, error ≠ .unexpectedCharacter ch position) ∧ c.Consumes answer.2) := by
  cases h with
  | finished => cases herror
  | token => cases herror
  | unexpectedCharacter _ _ hagain =>
    cases herror
    exact Or.inl ⟨⟨_, _, rfl⟩, hagain⟩
  | error _ hne h =>
    cases herror
    exact Or.inr ⟨hne, h⟩

theorem next_of_blank (h : ∀ ch ∈ c.rest, isBlank ch = true) :
    c.next = (.ok .endOfInput, ⟨c.text, []⟩) := by
  refine next_finished ?_
  rw [scan, List.dropWhile_eq_nil_iff.mpr h, scanSolid]

theorem next_text (c : Cursor) : c.next.2.text = c.text := by
  unfold next
  split <;> rfl

/-- A call leaves a cursor in its text. -/
theorem IsIn.next (hc : c.IsIn text) : c.next.2.IsIn text :=
  ⟨(next_text c).trans hc.text_eq, hc.outcome.suffix.trans hc.suffix⟩

/-- A call does not move a cursor back. -/
theorem IsIn.position_le_next (hc : c.IsIn text) : c.position ≤ c.next.2.position := by
  have hlength : byteLength c.next.2.rest ≤ byteLength c.rest := by
    obtain ⟨front, hrest⟩ := hc.outcome.suffix
    rw [← hrest, byteLength_append]
    omega
  unfold position positionOf
  rw [next_text]
  omega

end Calls

/-! ### Calls in a row -/

/-- The cursor in a text after a number of calls. -/
def reached (text : String) (n : Nat) : Cursor :=
  (fun c => c.next.2)^[n] (ofText text)

section Reached

variable {c : Cursor} {text : String}

theorem reached_succ (text : String) (n : Nat) : reached text (n + 1) = (reached text n).next.2 :=
  Function.iterate_succ_apply' _ n _

theorem calls_succ (c : Cursor) (n : Nat) :
    c.calls (n + 1) = c.calls n ++ [((fun c => c.next.2)^[n] c).next.1] := by
  induction n generalizing c with
  | zero => rfl
  | succ n ih =>
    change c.next.1 :: c.next.2.calls (n + 1) = _
    rw [ih c.next.2]
    rfl

theorem isIn_reached (text : String) (n : Nat) : (reached text n).IsIn text := by
  induction n with
  | zero => exact isIn_ofText text
  | succ n ih => exact reached_succ text n ▸ ih.next

/-- An answer that the next call would repeat is the answer to all later calls. -/
theorem next_reached_add {n : Nat} {answer : Except SyntaxError Token}
    (h : (reached text n).next.1 = answer)
    (hagain : (reached text (n + 1)).next = (answer, reached text (n + 1))) (m : Nat) :
    (reached text (n + m)).next.1 = answer := by
  have hstays (k : Nat) : reached text (n + 1 + k) = reached text (n + 1) := by
    induction k with
    | zero => rfl
    | succ k ih => rw [← Nat.add_assoc, reached_succ, ih, hagain]
  cases m with
  | zero => exact h
  | succ k => rw [show n + (k + 1) = n + 1 + k by omega, hstays, hagain]

/-- After any number of calls for the tokens of a text, the cursor stands between two characters, at
the front of what remains, and the next call does not move it back.  The next call answers with the
end of the input exactly when no more than blanks remain.  With any other token, and with any error
but an unexpected character, it goes past a character that is no blank; an unexpected character is
the answer to all later calls.  What an error says is found in the text at its position, which lies
between two characters and in front of the end. -/
theorem calls_ofText (text : String) (n : Nat) :
    (ofText text).calls (n + 1) = (ofText text).calls n ++ [(reached text n).next.1] ∧
    (∃ front, text = front ++ String.ofList (reached text n).rest ∧
      (reached text n).position = front.utf8ByteSize) ∧
    (String.Pos.Raw.mk (reached text n).position).IsValid text ∧
    (reached text n).position ≤ (reached text (n + 1)).position ∧
    ((reached text n).next.1 = .ok .endOfInput ↔
      ∀ ch ∈ (reached text n).rest, isBlank ch = true) ∧
    (∀ token, (reached text n).next.1 = .ok token → token ≠ .endOfInput →
      (reached text n).Consumes (reached text (n + 1))) ∧
    ∀ error, (reached text n).next.1 = .error error →
      error.IsLocated text ∧
      (∃ position, error.position? = some position ∧
        (String.Pos.Raw.mk position).IsValid text ∧ position < text.utf8ByteSize) ∧
      (((∃ ch position, error = .unexpectedCharacter ch position) ∧
          ∀ m, (reached text (n + m)).next.1 = .error error) ∨
        ((∀ ch position, error ≠ .unexpectedCharacter ch position) ∧
          (reached text n).Consumes (reached text (n + 1)))) := by
  have hin := isIn_reached text n
  obtain ⟨front, htext, hposition⟩ := hin.exists_front
  refine ⟨calls_succ _ n, ⟨front, htext, hposition⟩, ?_, ?_, ⟨fun hend => ?_, fun hblank => ?_⟩,
    fun token htoken hne => ?_, fun error herror => ?_⟩
  · exact String.Pos.Raw.isValid_iff_exists_append.mpr ⟨front, _, htext, hposition ▸ rfl⟩
  · exact reached_succ text n ▸ hin.position_le_next
  · exact hin.outcome.blank_of_endOfInput hend
  · rw [next_of_blank hblank]
  · exact reached_succ text n ▸ hin.outcome.consumes_of_token htoken hne
  · have hlocated := hin.outcome.located herror
    refine ⟨hlocated, hlocated.exists_position, ?_⟩
    rcases hin.outcome.again_or_consumes herror with ⟨hunexpected, hagain⟩ | hconsumes
    · exact Or.inl ⟨hunexpected, next_reached_add herror (reached_succ text n ▸ hagain)⟩
    · exact Or.inr (reached_succ text n ▸ hconsumes)

-- behind the mark of a ref without an id reading goes on, behind an unexpected character it stays
example : (ofText "@ # site").calls 3 = [.error (.invalidLiteral "@" 0),
    .error (.unexpectedCharacter '#' 2), .error (.unexpectedCharacter '#' 2)] :=
  rfl

end Reached

end Cursor

end TagFilter
