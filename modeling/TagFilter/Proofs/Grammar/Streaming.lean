import TagFilter.Proofs.Grammar.Continuation
import TagFilter.Proofs.Scanner.Scanned

/-!
# Filters read token by token

A filter is read from a cursor, which is asked for a token only when one is needed; reading gives up
at the first refusal or the first fault of the text, whichever it meets first.  This comes to the
same filters and the same errors as reading the list of all tokens in front of the first fault
(`PartialFilter.readFrom_eq_readAll`, `Filter.ofText?_eq_readAll`).

So a text that is made of tokens is read as these tokens are, and a text with a fault has that
fault or an error that its tokens have by themselves, whatever follows them
(`ofText?_reads_tokens_in_turn`).
-/

namespace TagFilter

/-! ### Calls -/

section Calls

variable {c : Cursor}

/-- The tokens in front of a fault are the answers to the first calls, and the fault is the answer
to the next one. -/
theorem Cursor.calls_of_readChars {tokens : List Token} {stop : Stop}
    (h : readChars c.rest = (tokens, some stop)) :
    c.calls (tokens.length + 1) = tokens.map .ok ++ [.error (stop.toError c.text)] := by
  induction tokens generalizing c with
  | nil =>
    rw [List.length_nil, calls, next_stopped (scan_of_readChars_nil h)]
    rfl
  | cons token tokens ih =>
    obtain ⟨rest, hscan, hrest⟩ := scan_of_readChars_cons h
    rw [List.length_cons, calls, next_token hscan]
    exact congrArg (.ok token :: ·) (ih (c := ⟨c.text, rest⟩) hrest)

end Calls

/-! ### Reading from a cursor -/

namespace PartialFilter

variable {s : PartialFilter} {c : Cursor}

theorem readFrom_finished (h : scan c.rest = .finished) : s.readFrom c = s.finish := by
  rw [readFrom]
  split
  · next hnext =>
    rw [Cursor.next_finished h] at hnext
    cases hnext
  · next hnext =>
    rw [Cursor.next_finished h] at hnext
    cases hnext
    rfl

theorem readFrom_stopped {stop : Stop} (h : scan c.rest = .stopped stop) :
    s.readFrom c = .error (stop.toError c.text) := by
  rw [readFrom]
  split
  · next hnext =>
    rw [Cursor.next_stopped h] at hnext
    cases hnext
    rfl
  · next hnext =>
    rw [Cursor.next_stopped h] at hnext
    cases hnext

theorem readFrom_token {token : Token} {rest : List Char} (h : scan c.rest = .token token rest) :
    s.readFrom c = match s.step token with
      | .ok next => next.readFrom ⟨c.text, rest⟩
      | .error refusal => .error (if refusal.late then
          (Cursor.fault? ⟨c.text, rest⟩).getD refusal.error else refusal.error) := by
  have hend : ¬ token.isEnd = true := by
    have hinput := scan_isInput c.rest
    rw [h] at hinput
    exact Bool.eq_false_iff.mp hinput
  rw [readFrom]
  split
  · next hnext =>
    rw [Cursor.next_token h] at hnext
    cases hnext
  · next hnext =>
    rw [Cursor.next_token h] at hnext
    cases hnext
    exact dif_neg hend

/-- A filter is read from a cursor as it is read from all tokens in front of the first fault. -/
theorem readFrom_eq_readAll (s : PartialFilter) (text rest : List Char) :
    s.readFrom ⟨text, rest⟩ =
      s.readAll ((readChars rest).2.map (Stop.toError text)) (readChars rest).1 := by
  fun_induction readChars rest generalizing s with
  | case1 rest hscan => exact readFrom_finished hscan
  | case2 rest token after hscan tokens stop heq ih =>
    rw [heq] at ih
    rw [readFrom_token hscan, readAll]
    cases hstep : s.step token with
    | ok next => exact ih next
    | error refusal =>
      simp only [Cursor.fault?_eq, heq]
      cases refusal.late <;> cases tokens <;> rfl
  | case3 rest stop hscan => exact readFrom_stopped hscan

end PartialFilter

/-- A text writes what its tokens write, up to its end or its first fault. -/
theorem Filter.ofText?_eq_readAll (text : String) :
    Filter.ofText? text = PartialFilter.start.readAll (readTokens text).2 (readTokens text).1 :=
  PartialFilter.start.readFrom_eq_readAll text.toList text.toList

/-! ### Faults -/

/-- Tokens in front of a fault end with the fault, or with an error that they have by themselves,
whatever follows them. -/
theorem exists_error_of_readAll (s : PartialFilter) (tokens : List Token) (fault : SyntaxError) :
    ∃ first, s.readAll (some fault) tokens = .error first ∧
      (first = fault ∨ ∀ more, s.readAll none (tokens ++ more) = .error first) := by
  induction tokens generalizing s with
  | nil => exact ⟨fault, rfl, Or.inl rfl⟩
  | cons token tokens ih =>
    simp only [PartialFilter.readAll, List.cons_append]
    cases s.step token with
    | ok next => exact ih next
    | error refusal =>
      simp only [Option.getD_some, Option.getD_none, ite_self]
      split
      · exact ⟨fault, rfl, Or.inl rfl⟩
      · exact ⟨refusal.error, rfl, Or.inr fun _ => rfl⟩

-- a tag too many is refused at once, an operator without a path only after what is behind it
example (fault : SyntaxError) : PartialFilter.start.readAll (some fault)
    [.name "site", .name "equip"] = .error (.unexpectedToken "equip") := rfl

example (fault : SyntaxError) : PartialFilter.start.readAll (some fault)
    [.comparison .equal] = .error fault := rfl

theorem tokenize_eq_error_iff {text : String} {fault : SyntaxError} :
    tokenize text = .error fault ↔ ∃ tokens stop,
      readChars text.toList = (tokens, some stop) ∧ stop.toError text.toList = fault := by
  unfold tokenize readTokens
  cases readChars text.toList with
  | mk tokens stop =>
    cases stop with
    | none => simp
    | some stop => simp [and_assoc]

/-- A text is read token by token, with the filter or error of all its tokens up to the first fault.
If it is made of tokens, the filter or the error is that of its tokens; if tokens are followed by a
fault, the error is that fault, or one that these tokens have by themselves, whatever follows
them. -/
theorem ofText?_reads_tokens_in_turn (text : String) :
    (Filter.ofText? text = PartialFilter.start.readFrom (Cursor.ofText text) ∧
      Filter.ofText? text =
        PartialFilter.start.readAll (readTokens text).2 (readTokens text).1) ∧
    (∀ tokens, tokenize text = .ok tokens → Filter.ofText? text = Filter.ofTokens? tokens) ∧
    ∀ fault, tokenize text = .error fault →
      ∃ tokens, (Cursor.ofText text).calls (tokens.length + 1) =
          tokens.map .ok ++ [.error fault] ∧
        ∃ first, Filter.ofText? text = .error first ∧
          (first = fault ∨ ∀ more, Filter.ofTokens? (tokens ++ more) = .error first) := by
  have hread : Filter.ofText? text = PartialFilter.start.readAll
      ((readChars text.toList).2.map (Stop.toError text.toList)) (readChars text.toList).1 :=
    Filter.ofText?_eq_readAll text
  have hend := readChars_isEnd text.toList
  refine ⟨⟨rfl, Filter.ofText?_eq_readAll text⟩, fun tokens htokens => ?_, fun fault hfault => ?_⟩
  · rw [tokenize_eq_ok_iff.mp htokens] at hread hend
    exact hread.trans (ofTokens?_eq_readAll hend).symm
  · obtain ⟨tokens, stop, htokens, rfl⟩ := tokenize_eq_error_iff.mp hfault
    rw [htokens] at hread hend
    obtain ⟨first, hfirst, hcause⟩ :=
      exists_error_of_readAll PartialFilter.start tokens (stop.toError text.toList)
    refine ⟨tokens, Cursor.calls_of_readChars htokens, first, hread.trans hfirst, ?_⟩
    exact hcause.imp_right fun hall more => (ofTokens?_append hend more).trans (hall _)

/-- An open group is read as its tokens are, and of a symbol too many in front of an open quote
there is an error. -/
theorem ofText?_reads_tokens_in_turn_symbols :
    (tokenize "(^site" = .ok [.opening, .value (.symbol ⟨"site"⟩)] ∧
      Filter.ofText? "(^site" = Filter.ofTokens? [.opening, .value (.symbol ⟨"site"⟩)]) ∧
    tokenize "^site ^equip \"" = .error (.unterminatedLiteral 13) ∧
      ∃ tokens, (Cursor.ofText "^site ^equip \"").calls (tokens.length + 1) =
          tokens.map .ok ++ [.error (.unterminatedLiteral 13)] ∧
        ∃ first, Filter.ofText? "^site ^equip \"" = .error first ∧
          (first = .unterminatedLiteral 13 ∨
            ∀ more, Filter.ofTokens? (tokens ++ more) = .error first) := by
  have hopening : scan "(^site".toList = .token .opening "^site".toList := rfl
  have hsite : scan "^site".toList = .token (.value (.symbol ⟨"site"⟩)) [] := rfl
  have htokens : tokenize "(^site" = .ok [.opening, .value (.symbol ⟨"site"⟩)] := by
    rw [tokenize_eq_ok_iff, readChars_token hopening, readChars_token hsite, readChars_finished rfl]
  have hfirst : scan "^site ^equip \"".toList =
      .token (.value (.symbol ⟨"site"⟩)) " ^equip \"".toList := rfl
  have hsecond : scan " ^equip \"".toList =
      .token (.value (.symbol ⟨"equip"⟩)) " \"".toList := rfl
  have hquote : scan " \"".toList = .stopped ⟨.unterminatedLiteral, ['"'], []⟩ := rfl
  have hread : readChars "^site ^equip \"".toList =
      ([.value (.symbol ⟨"site"⟩), .value (.symbol ⟨"equip"⟩)],
        some ⟨.unterminatedLiteral, ['"'], []⟩) := by
    rw [readChars_token hfirst, readChars_token hsecond, readChars_stopped hquote]
  have hfault : tokenize "^site ^equip \"" = .error (.unterminatedLiteral 13) :=
    tokenize_eq_error_iff.mpr ⟨_, _, hread, by decide⟩
  exact ⟨⟨htokens, (ofText?_reads_tokens_in_turn _).2.1 _ htokens⟩, hfault,
    (ofText?_reads_tokens_in_turn _).2.2 _ hfault⟩

end TagFilter
