import TagFilter.Proofs.Filter.Unreadable
import TagFilter.Proofs.Lowering.Types

/-!
# Names that are no tags

The names of defs are made of id characters, and not every such name is a tag name: it may begin
with a digit, hold a dash, a colon, a point or a tilde, be empty where a dash has cut it, or be a
reserved word.  None of these can stand in the place of a term, so that a name is read as a term
exactly when it is plain (`settled_name`).
-/

namespace TagFilter

/-- No token is found, or a literal that is no symbol. -/
def Scan.IsStray : Scan → Prop
  | .stopped _ => True
  | .token (.value v) _ => v.symbol? = none
  | _ => False

/-! ### Stray literals -/

theorem scanFields_isStray {text rest : List Char} {value? : Option Value}
    (h : ∀ v ∈ value?, v.symbol? = none) : (scanFields text rest value?).IsStray := by
  cases value? with
  | none => trivial
  | some v => exact h v rfl

theorem scanDigits_isStray (text : List Char) : (scanDigits text).IsStray := by
  unfold scanDigits
  split
  · refine scanFields_isStray fun v hv => ?_
    obtain ⟨d, -, rfl⟩ := Option.map_eq_some_iff.mp hv
    rfl
  · split
    · refine scanFields_isStray fun v hv => ?_
      obtain ⟨t, -, rfl⟩ := Option.map_eq_some_iff.mp hv
      rfl
    · exact rfl

theorem scanNegative_isStray (rest : List Char) : (scanNegative rest).IsStray := by
  unfold scanNegative
  split
  · exact rfl
  · split
    · exact rfl
    · trivial

/-- The id characters that are not characters of names. -/
def idMarks : List Char :=
  [':', '-', '.', '~']

theorem mem_idMarks {c : Char} (hid : isIdChar c = true) (hname : isNameChar c = false) :
    c ∈ idMarks := by
  obtain ⟨halphanum, hunderscore⟩ := Bool.or_eq_false_iff.mp hname
  simp only [isIdChar, halphanum, hunderscore, Bool.false_or, Bool.or_eq_true, beq_iff_eq] at hid
  rcases hid with ((rfl | rfl) | rfl) | rfl <;> decide

theorem scan_isStray_of_mem_idMarks {c : Char} (h : c ∈ idMarks) (rest : List Char) :
    (scan (c :: rest)).IsStray := by
  simp only [idMarks, List.mem_cons, List.not_mem_nil, or_false] at h
  rcases h with rfl | rfl | rfl | rfl
  · trivial
  · exact scanNegative_isStray rest
  · trivial
  · trivial

theorem scan_isStray_of_isDigit {c : Char} (h : c.isDigit = true) (rest : List Char) :
    (scan (c :: rest)).IsStray := by
  rw [scan_of_isDigit h]
  exact scanDigits_isStray (c :: rest)

namespace PartialFilter

variable {outer : List Level} {level : Level} {rest text : List Char} {f : Filter}

/-- A stray literal is refused in the place of a term, of a negated path, and after a path. -/
theorem Reads.not_isStray {pending : Pending} (h : Reads ⟨outer, level, pending⟩ text f)
    (hpending : pending = .start ∨ pending = .negation ∨ ∃ p, pending = .path p) :
    ¬ (scan text).IsStray := by
  intro hstray
  cases hscan : scan text with
  | finished =>
    rw [hscan] at hstray
    exact hstray
  | stopped stop => exact h.not_stopped stop hscan
  | token token after =>
    rw [hscan] at hstray
    obtain ⟨s, hstep, -⟩ := h.after hscan
    cases token with
    | value v =>
      have hvalue : v.symbol? = none := hstray
      rcases hpending with rfl | rfl | ⟨p, rfl⟩
      · cases v with
        | symbol type => cases hvalue
        | _ => cases hstep
      · cases hstep
      · cases hstep
    | _ => exact hstray

/-- What may stand behind a term does not begin one. -/
theorem Reads.not_followsTerm {pending : Pending} (h : Reads ⟨outer, level, pending⟩ rest f)
    (hpending : pending = .start ∨ pending = .negation) : ¬ FollowsTerm rest := by
  intro hrest
  cases hrest with
  | nil =>
    have hfinish := h.finish_eq
    rcases hpending with rfl | rfl <;> cases hfinish
  | closing tail =>
    obtain ⟨s, hstep, -⟩ := h.after (show scan (')' :: tail) = .token .closing tail from rfl)
    rcases hpending with rfl | rfl <;> cases hstep
  | and tail =>
    obtain ⟨s, hstep, -⟩ := h.after (show scan (" and ".toList ++ tail) =
      .token .and (' ' :: tail) from rfl)
    rcases hpending with rfl | rfl <;> cases hstep
  | or tail =>
    obtain ⟨s, hstep, -⟩ := h.after (show scan (" or ".toList ++ tail) =
      .token .or (' ' :: tail) from rfl)
    rcases hpending with rfl | rfl <;> cases hstep

end PartialFilter

open PartialFilter

/-! ### Names -/

section Names

variable {text : List Char} {c : Char}

/-- Id characters make no relationship of the word before them. -/
theorem readMark?_of_isIdChar (h : ∀ c ∈ text, isIdChar c = true) : readMark? text = none := by
  unfold readMark?
  split
  · exact absurd (h '?' List.mem_cons_self) (by decide)
  · rfl
  · next tail _ =>
    have hdrop := (span_of_forall fun c hc => h c (List.mem_cons_of_mem _ hc)).2
    simp only [hdrop]
  · rfl

/-- Id characters hold no arrow. -/
theorem readSegments_of_isIdChar (h : ∀ c ∈ text, isIdChar c = true) :
    readSegments text = (some [], text) := by
  refine readSegments.eq_2 text ?_
  rintro tail rfl
  exact absurd (h '>' (List.mem_cons_of_mem _ List.mem_cons_self)) (by decide)

/-- A word of id characters is read up to the first that is not of a name. -/
theorem scan_of_isIdChar (hstart : isNameStart c = true) (h : ∀ d ∈ text, isIdChar d = true) :
    scan (c :: text) = .token
      ((reservedToken? (String.ofList (c :: text.takeWhile isNameChar))).getD
        (.name (String.ofList (c :: text.takeWhile isNameChar))))
      (text.dropWhile isNameChar) := by
  have hname := isNameChar_of_isNameStart hstart
  have hafter : ∀ d ∈ text.dropWhile isNameChar, isIdChar d = true := fun d hd =>
    h d ((List.dropWhile_suffix _).mem hd)
  rw [scan_of_isNameStart hstart]
  unfold scanWord
  simp only [List.takeWhile_cons_of_pos hname, List.dropWhile_cons_of_pos hname,
    readMark?_of_isIdChar hafter, readSegments_of_isIdChar hafter]
  cases reservedToken? (String.ofList (c :: text.takeWhile isNameChar)) <;> rfl

/-- Where a word of id characters ends, nothing but a stray literal is found. -/
theorem scan_isStray_of_dropWhile {tail : List Char} (h : ∀ d ∈ text, isIdChar d = true)
    (hdrop : text.dropWhile isNameChar = c :: tail) (rest : List Char) :
    (scan (c :: rest)).IsStray := by
  have hnot := List.head?_dropWhile_not isNameChar text
  rw [hdrop] at hnot
  have hmem : c ∈ text.dropWhile isNameChar := by
    rw [hdrop]
    exact List.mem_cons_self
  exact scan_isStray_of_mem_idMarks (mem_idMarks (h c ((List.dropWhile_suffix _).mem hmem)) hnot) _

/-- An id character that does not open a name opens a stray literal. -/
theorem scan_isStray_of_isIdChar (hid : isIdChar c = true) (hstart : ¬ isNameStart c = true)
    (rest : List Char) : (scan (c :: rest)).IsStray := by
  by_cases hdigit : c.isDigit = true
  · exact scan_isStray_of_isDigit hdigit _
  · refine scan_isStray_of_mem_idMarks (mem_idMarks hid ?_) _
    rw [Bool.eq_false_iff]
    intro hchar
    simp only [isNameStart, isNameChar, Char.isAlphanum, Bool.or_eq_true] at hstart hchar
    rcases hchar with (halpha | hchar) | hunderscore
    · exact hstart (Or.inl halpha)
    · exact hdigit hchar
    · exact hstart (Or.inr hunderscore)

/-- A name that is a word of its own, and no reserved one, is plain. -/
theorem isPlainName_of_word {name : String} (hname : name.toList = c :: text)
    (hstart : isNameStart c = true) (hdrop : text.dropWhile isNameChar = [])
    (hreserved : reservedToken? (String.ofList (c :: text.takeWhile isNameChar)) = none) :
    IsPlainName name := by
  have htake : text.takeWhile isNameChar = text := by
    have hall : text.takeWhile isNameChar ++ text.dropWhile isNameChar = text :=
      List.takeWhile_append_dropWhile
    rwa [hdrop, List.append_nil] at hall
  have hword : String.ofList (c :: text.takeWhile isNameChar) = name := by
    rw [htake, ← hname, String.ofList_toList]
  rw [hword] at hreserved
  refine ⟨isTagName_iff.mpr ⟨c, text, hname, hstart, ?_⟩, not_mem_reservedWords hreserved⟩
  rw [← htake]
  exact List.all_takeWhile

end Names

/-- A name that is no plain tag name cannot stand in the place of a term. -/
theorem unreadable_name {name : String} (h : ∀ c ∈ name.toList, isIdChar c = true)
    (hplain : ¬ IsPlainName name) : Unreadable name := by
  intro outer level rest f hrest hreads
  cases hname : name.toList with
  | nil =>
    rw [hname] at hreads
    exact hreads.not_followsTerm (Or.inl rfl) hrest
  | cons c text =>
    rw [hname] at h hreads
    have htext : ∀ d ∈ text, isIdChar d = true := fun d hd => h d (List.mem_cons_of_mem _ hd)
    by_cases hstart : isNameStart c = true
    · obtain ⟨s, hstep, hafter⟩ :=
        hreads.after (scan_append hrest.startsIn (scan_of_isIdChar hstart htext))
      cases hreserved : reservedToken? (String.ofList (c :: text.takeWhile isNameChar)) with
      | none =>
        rw [hreserved] at hstep
        cases hstep
        cases hdrop : text.dropWhile isNameChar with
        | nil => exact hplain (isPlainName_of_word hname hstart hdrop hreserved)
        | cons d tail =>
          rw [hdrop] at hafter
          have hstray := scan_isStray_of_dropWhile htext hdrop (tail ++ rest)
          exact hafter.not_isStray (Or.inr (Or.inr ⟨_, rfl⟩)) hstray
      | some token =>
        rw [hreserved] at hstep
        -- of the reserved words only `not` can stand where a term begins
        rcases reservedToken?_cases hreserved with rfl | rfl | rfl | ⟨v, rfl, hv⟩
        · cases hstep
        · cases hstep
        · cases hstep
          cases hdrop : text.dropWhile isNameChar with
          | nil =>
            rw [hdrop] at hafter
            exact hafter.not_followsTerm (Or.inr rfl) hrest
          | cons d tail =>
            rw [hdrop] at hafter
            have hstray := scan_isStray_of_dropWhile htext hdrop (tail ++ rest)
            exact hafter.not_isStray (Or.inr (Or.inl rfl)) hstray
        · cases v with
          | symbol type => cases hv
          | _ => cases hstep
    · have hstray := scan_isStray_of_isIdChar (h c List.mem_cons_self) hstart (text ++ rest)
      exact hreads.not_isStray (Or.inl rfl) hstray

/-- A name over the id characters is read as a term exactly when it is a plain tag name. -/
theorem settled_name {name : String} (h : ∀ c ∈ name.toList, isIdChar c = true) :
    Settled name ∧ ((∃ t, SpellsTerm name t) ↔ IsPlainName name) := by
  by_cases hplain : IsPlainName name
  · have hspells : ∃ t, SpellsTerm name t := ⟨_, spells_hasTag hplain⟩
    exact ⟨Or.inl hspells, fun _ => hplain, fun _ => hspells⟩
  · have hunreadable := unreadable_name h hplain
    refine ⟨Or.inr hunreadable, fun ⟨t, ht⟩ => ?_, fun hname => absurd hname hplain⟩
    exact absurd hunreadable ht.not_unreadable

end TagFilter
