import TagFilter.Proofs.Scanner.Literals

/-!
# What the scanner produces

Every token of a text is one that can be written: names are tag names, words that open a path are
not reserved, ids are made of id characters and literals are values of their kinds.  Only the unit
of a number can be one that its written form does not keep, since an exponent may stand between the
digits and a unit that begins with an underscore.

A token is found where a word begins, or it is a literal, an operator or a parenthesis
(`scanSolid_cases`).  The end of the input is none of these tokens.
-/

namespace TagFilter

/-- The unit of the number, if it has one, is made of unit characters. -/
def Number.HasUnitChars (n : Number) : Prop :=
  ∀ unit ∈ n.unit, unit ≠ "" ∧ ∀ c ∈ unit.toList, isUnitChar c = true

/-- The unit of the number, if it is finite, does not begin with an underscore. -/
def Number.HasPlainUnit (n : Number) : Prop :=
  n.magnitude.isFinite = true → ∀ unit ∈ n.unit, unit.toList.head? ≠ some '_'

/-- The value is one that a literal can be read as. -/
def Value.IsScanned : Value → Prop
  | .number n => n.HasUnitChars
  | v => v.IsLiteral

/-- The token is one that a text can be read as. -/
def Token.IsScanned : Token → Prop
  | .name text => IsPlainName text
  | .path p => p.IsPlain
  | .value v => v.IsScanned
  | .relationship r => IsPlainName r.name ∧ ∀ term ∈ r.term, isId term.name = true
  | _ => True

/-- The token that is found, if one is, is one that a text can be read as. -/
def Scan.IsScanned : Scan → Prop
  | .token t _ => t.IsScanned
  | _ => True

theorem Number.isLiteral_of_hasPlainUnit {n : Number} (h : n.HasUnitChars)
    (hplain : n.HasPlainUnit) :
    n.IsLiteral := fun hfinite unit hunit =>
  ⟨(h unit hunit).1, (h unit hunit).2, hplain hfinite unit hunit⟩

/-! ### Words -/

theorem forall_mem_takeWhile {p : Char → Bool} {text : List Char} :
    ∀ c ∈ text.takeWhile p, p c = true :=
  List.all_eq_true.mp List.all_takeWhile

/-- The characters of a name that opens a text are a tag name. -/
theorem isTagName_takeWhile {text : List Char} (h : startsName text = true) :
    isTagName (String.ofList (text.takeWhile isNameChar)) = true := by
  cases text with
  | nil => cases h
  | cons c rest =>
    have hstart : isNameStart c = true := h
    rw [isTagName_iff]
    refine ⟨c, rest.takeWhile isNameChar, ?_, hstart, List.all_takeWhile⟩
    rw [String.toList_ofList, List.takeWhile_cons_of_pos (isNameChar_of_isNameStart hstart)]

/-- A run of id characters is a valid id unless it is empty. -/
theorem isId_takeWhile {text : List Char} (h : (text.takeWhile isIdChar).isEmpty = false) :
    isId (String.ofList (text.takeWhile isIdChar)) = true := by
  rw [isId_iff]
  constructor
  · intro hempty
    rw [← String.toList_eq_nil_iff, String.toList_ofList, ← List.isEmpty_iff, h] at hempty
    cases hempty
  · rw [String.toList_ofList]
    exact forall_mem_takeWhile

theorem isScanned_of_reservedToken? {word : String} {token : Token}
    (h : reservedToken? word = some token) : token.IsScanned := by
  unfold reservedToken? at h
  repeat' split at h
  all_goals first
    | cases h; trivial
    | cases h; exact fun unit hunit => absurd hunit (Option.not_mem_none unit)
    | cases h

/-- A reserved word is a connective, or a literal that is no symbol. -/
theorem reservedToken?_cases {word : String} {token : Token}
    (h : reservedToken? word = some token) :
    token = .and ∨ token = .or ∨ token = .not ∨ ∃ v, token = .value v ∧ v.symbol? = none := by
  unfold reservedToken? at h
  repeat' split at h
  all_goals cases h
  all_goals simp [Value.symbol?]

theorem not_mem_reservedWords {word : String} (h : reservedToken? word = none) :
    word ∉ reservedWords := by
  intro hmem
  simp only [reservedWords, List.mem_cons, List.not_mem_nil, or_false] at hmem
  rcases hmem with rfl | rfl | rfl | rfl | rfl | rfl | rfl <;> cases h

theorem isId_of_readMark? {text rest : List Char} {term : Option Symbol}
    (h : readMark? text = some (term, rest)) : ∀ t ∈ term, isId t.name = true := by
  unfold readMark? at h
  split at h
  · cases h
    intro t ht
    cases ht
  · cases h
  · simp only at h
    split at h
    · split at h
      · cases h
      · next hempty =>
        cases h
        intro t ht
        cases ht
        exact isId_takeWhile (Bool.eq_false_iff.mpr hempty)
    · cases h
  · cases h

theorem isTagName_of_readSegments {text rest : List Char} {names : List String}
    (h : readSegments text = (some names, rest)) : ∀ name ∈ names, isTagName name = true := by
  fun_induction readSegments text generalizing names with
  | case1 tail hstarts found after heq ih =>
    cases found with
    | none => cases h
    | some found =>
      cases h
      intro name hname
      rcases List.mem_cons.mp hname with rfl | hname
      · exact isTagName_takeWhile hstarts
      · exact ih heq name hname
  | case2 => cases h
  | case3 =>
    cases h
    intro name hname
    cases hname

theorem Token.isScanned_ofPath {p : Path} (h : p.IsPlain) : (Token.ofPath p).IsScanned := by
  unfold Token.ofPath
  split
  · exact h.head
  · exact h

theorem scanWord_isScanned {text : List Char} (h : startsName text = true) :
    (scanWord text).IsScanned := by
  have hname := isTagName_takeWhile h
  unfold scanWord
  simp only
  split
  · next token htoken => exact isScanned_of_reservedToken? htoken
  · next hreserved =>
    have hplain : IsPlainName (String.ofList (text.takeWhile isNameChar)) :=
      ⟨hname, not_mem_reservedWords hreserved⟩
    split
    · next term rest hmark => exact ⟨hplain, isId_of_readMark? hmark⟩
    · split
      · next names rest hsegments =>
        exact Token.isScanned_ofPath ⟨hplain, isTagName_of_readSegments hsegments⟩
      · trivial

/-! ### Numbers, dates and times -/

theorem scanNumber_isScanned (text : List Char) : (scanNumber text).IsScanned := by
  unfold scanNumber
  simp only
  intro unit hunit
  split at hunit
  · cases hunit
  · next hempty =>
    cases hunit
    rw [String.toList_ofList]
    refine ⟨fun hnil => hempty ?_, forall_mem_takeWhile⟩
    rw [← String.toList_eq_nil_iff, String.toList_ofList] at hnil
    exact List.isEmpty_iff.mpr hnil

/-- A number has no more digits than its text. -/
theorem wholeNumber_lt (text : List Char) : wholeNumber text < Nat.pow 10 text.length := by
  have hfold : ∀ start bound, start < bound →
      text.foldl (fun n c => if c.isDigit then 10 * n + (c.toNat - '0'.toNat) else n) start <
        bound * 10 ^ text.length := by
    induction text with
    | nil =>
      intro start bound h
      rwa [List.foldl_nil, List.length_nil, Nat.pow_zero, Nat.mul_one]
    | cons c rest ih =>
      intro start bound h
      rw [List.foldl_cons, List.length_cons, Nat.pow_succ, Nat.mul_comm (10 ^ rest.length),
        ← Nat.mul_assoc]
      refine ih _ (bound * 10) ?_
      split
      · next hdigit =>
        have hle := (Char.isDigit_iff_toNat.mp hdigit).2
        change c.toNat ≤ 57 at hle
        change 10 * start + (c.toNat - 48) < bound * 10
        omega
      · omega
  have hlt := hfold 0 1 (by decide)
  rwa [Nat.one_mul] at hlt

theorem scanFields_isScanned {text rest : List Char} {value? : Option Value}
    (h : ∀ v ∈ value?, v.IsScanned) : (scanFields text rest value?).IsScanned := by
  cases value? with
  | none => trivial
  | some v => exact h v rfl

/-- The year of a date that opens a text has four digits. -/
theorem year_lt_of_readDate? {text rest : List Char} {year month day : Nat}
    (h : readDate? text = some ((year, month, day), rest)) : year < 10000 := by
  unfold readDate? at h
  split at h
  · next y₁ y₂ y₃ y₄ _ _ _ _ _ =>
    split at h
    · cases h
      have hlt := wholeNumber_lt [y₁, y₂, y₃, y₄]
      have hten : Nat.pow 10 4 ≤ 10000 := by decide
      exact Nat.lt_of_lt_of_le hlt hten
    · cases h
  · cases h

theorem year_of_ofFields? {year : Int} {month day : Nat} {d : Date}
    (h : Date.ofFields? year month day = some d) : d.year = year := by
  unfold Date.ofFields? at h
  split at h
  · cases h
    rfl
  · cases h

theorem scanDigits_isScanned (text : List Char) : (scanDigits text).IsScanned := by
  unfold scanDigits
  split
  · next year month day rest hdate =>
    have hyear := year_lt_of_readDate? hdate
    refine scanFields_isScanned fun v hv => ?_
    obtain ⟨d, hd, rfl⟩ := Option.map_eq_some_iff.mp hv
    have hsame := year_of_ofFields? hd
    change 0 ≤ d.year ∧ d.year ≤ 9999
    omega
  · split
    · refine scanFields_isScanned fun v hv => ?_
      obtain ⟨t, -, rfl⟩ := Option.map_eq_some_iff.mp hv
      trivial
    · exact scanNumber_isScanned text

/-! ### Other tokens -/

theorem scanQuoted_isScanned {value : String → Value} (h : ∀ text, (value text).IsScanned)
    (read : Except Stop (List Char × List Char)) : (scanQuoted value read).IsScanned := by
  cases read with
  | error _ => trivial
  | ok pair => exact h _

theorem scanMarked_isScanned {value : String → Value}
    (h : ∀ id, isId id = true → (value id).IsScanned) (mark : Char) (rest : List Char) :
    (scanMarked value mark rest).IsScanned := by
  unfold scanMarked
  simp only
  split
  · trivial
  · next hempty => exact h _ (isId_takeWhile (Bool.eq_false_iff.mpr hempty))

theorem scanNegative_isScanned (rest : List Char) : (scanNegative rest).IsScanned := by
  unfold scanNegative
  split
  · intro unit hunit
    cases hunit
  · split
    · exact scanNumber_isScanned _
    · trivial

theorem scanOther_isScanned (c : Char) (rest : List Char) : (scanOther c rest).IsScanned := by
  unfold scanOther
  split
  · next token after hoperator =>
    unfold readOperator? at hoperator
    split at hoperator <;> cases hoperator <;> trivial
  · trivial

theorem scanSolid_isScanned (text : List Char) : (scanSolid text).IsScanned := by
  cases text with
  | nil => trivial
  | cons c rest =>
    cases readerOf c with
    | opening h => exact h rest ▸ trivial
    | closing h => exact h rest ▸ trivial
    | string h | uri h =>
      rw [h]
      refine scanQuoted_isScanned (fun text => ?_) _
      trivial
    | ref h =>
      rw [h]
      refine scanMarked_isScanned (fun id hid => ?_) _ _
      exact hid
    | symbol h =>
      rw [h]
      refine scanMarked_isScanned (fun name hname => ?_) _ _
      exact hname
    | negative _ h => exact h rest ▸ scanNegative_isScanned rest
    | digits _ h => exact h rest ▸ scanDigits_isScanned (c :: rest)
    | word hc h => exact h rest ▸ scanWord_isScanned hc
    | other h => exact h rest ▸ scanOther_isScanned c rest

/-- The tokens that open a text are tokens that a text can be read as. -/
theorem readChars_isScanned (text : List Char) : ∀ token ∈ (readChars text).1, token.IsScanned := by
  fun_induction readChars text with
  | case1 =>
    intro token h
    cases h
  | case2 text token rest hscan tokens stop heq ih =>
    have hscanned := scanSolid_isScanned (text.dropWhile isBlank)
    rw [← scan, hscan] at hscanned
    intro other hother
    rcases List.mem_cons.mp hother with rfl | hother
    · exact hscanned
    · rw [heq] at ih
      exact ih other hother
  | case3 =>
    intro token h
    cases h

theorem isScanned_of_tokenize {text : String} {tokens : List Token}
    (h : tokenize text = .ok tokens) :
    ∀ token ∈ tokens, token.IsScanned := by
  have hread := readChars_isScanned text.toList
  rw [tokenize_eq_ok_iff.mp h] at hread
  exact hread

/-! ### Tokens without names -/

/-- The token is a literal, an operator or a parenthesis. -/
def Token.IsNameless : Token → Prop
  | .value _ | .comparison _ | .wildcard | .opening | .closing => True
  | _ => False

/-- The token that is found, if one is, is a literal, an operator or a parenthesis. -/
def Scan.IsNameless : Scan → Prop
  | .token t _ => t.IsNameless
  | _ => True

theorem scanFields_isNameless (text rest : List Char) (value? : Option Value) :
    (scanFields text rest value?).IsNameless := by
  cases value? <;> trivial

theorem scanDigits_isNameless (text : List Char) : (scanDigits text).IsNameless := by
  unfold scanDigits
  split
  · exact scanFields_isNameless _ _ _
  · split
    · exact scanFields_isNameless _ _ _
    · trivial

theorem scanQuoted_isNameless (value : String → Value)
    (read : Except Stop (List Char × List Char)) : (scanQuoted value read).IsNameless := by
  cases read <;> trivial

theorem scanMarked_isNameless (value : String → Value) (mark : Char) (rest : List Char) :
    (scanMarked value mark rest).IsNameless := by
  unfold scanMarked
  simp only
  split <;> trivial

theorem scanNegative_isNameless (rest : List Char) : (scanNegative rest).IsNameless := by
  unfold scanNegative
  split
  · trivial
  · split <;> trivial

theorem scanOther_isNameless (c : Char) (rest : List Char) : (scanOther c rest).IsNameless := by
  unfold scanOther
  split
  · next token after hoperator =>
    unfold readOperator? at hoperator
    split at hoperator <;> cases hoperator <;> trivial
  · trivial

/-- Where a token is found that is no literal, operator or parenthesis, a word begins. -/
theorem scanSolid_cases (text : List Char) :
    (scanSolid text).IsNameless ∨ startsName text = true ∧ scanSolid text = scanWord text := by
  cases text with
  | nil => exact Or.inl trivial
  | cons c rest =>
    cases readerOf c with
    | opening h | closing h => exact Or.inl (h rest ▸ trivial)
    | string h | uri h => exact Or.inl (h rest ▸ scanQuoted_isNameless _ _)
    | ref h | symbol h => exact Or.inl (h rest ▸ scanMarked_isNameless _ _ _)
    | negative _ h => exact Or.inl (h rest ▸ scanNegative_isNameless rest)
    | digits _ h => exact Or.inl (h rest ▸ scanDigits_isNameless (c :: rest))
    | word hc h => exact Or.inr ⟨hc, h rest⟩
    | other h => exact Or.inl (h rest ▸ scanOther_isNameless c rest)

/-! ### The end of the input -/

/-- The token that is found, if one is, is not the end of the input. -/
def Scan.IsInput : Scan → Prop
  | .token t _ => t.isEnd = false
  | _ => True

theorem Scan.IsNameless.isInput {s : Scan} (h : s.IsNameless) : s.IsInput := by
  cases s with
  | finished | stopped => trivial
  | token t rest =>
    cases t with
    | value | comparison | wildcard | opening | closing => rfl
    | name | path | relationship | and | or | not | endOfInput => exact h.elim

theorem isEnd_of_reservedToken? {word : String} {token : Token}
    (h : reservedToken? word = some token) : token.isEnd = false := by
  rcases reservedToken?_cases h with rfl | rfl | rfl | ⟨v, rfl, -⟩
  all_goals rfl

theorem Token.isEnd_ofPath (p : Path) : (Token.ofPath p).isEnd = false := by
  unfold Token.ofPath
  split <;> rfl

theorem scanWord_isInput (text : List Char) : (scanWord text).IsInput := by
  unfold scanWord
  simp only
  split
  · next token htoken => exact isEnd_of_reservedToken? htoken
  · split
    · rfl
    · split
      · exact Token.isEnd_ofPath _
      · trivial

/-- A token that opens a text is not the end of the input. -/
theorem scanSolid_isInput (text : List Char) : (scanSolid text).IsInput := by
  rcases scanSolid_cases text with hnameless | ⟨-, hword⟩
  · exact hnameless.isInput
  · rw [hword]
    exact scanWord_isInput text

theorem scan_isInput (text : List Char) : (scan text).IsInput :=
  scanSolid_isInput _

/-- The end of the input is none of the tokens that open a text. -/
theorem readChars_isEnd (text : List Char) : ∀ token ∈ (readChars text).1, token.isEnd = false := by
  fun_induction readChars text with
  | case1 => exact List.forall_mem_nil _
  | case2 text token rest hscan tokens stop heq ih =>
    have hinput := scan_isInput text
    rw [hscan] at hinput
    rw [heq] at ih
    exact List.forall_mem_cons.mpr ⟨hinput, ih⟩
  | case3 => exact List.forall_mem_nil _

/-! ### Written forms -/

/-- A finite number is written with its unit, and read back with what follows the underscores at
the beginning of the unit. -/
theorem Number.exists_isUnitText_tokenize {n : Number} (h : n.HasUnitChars)
    (hfinite : n.magnitude.isFinite = true) :
    ∃ unit, IsUnitText unit ∧ tokenize n.toText =
      .ok [.value (.number ⟨if n.magnitude.key = 0 then .zero else n.magnitude,
        unitOfChars unit⟩)] := by
  have hall : ∀ c ∈ n.unitChars, isUnitChar c = true := by
    intro c hc
    unfold Number.unitChars at hc
    split at hc
    · next unit hunit => exact (h unit hunit).2 c hc
    · cases hc
  have hunit : IsUnitText (n.unitChars.dropWhile (· == '_')) := by
    refine ⟨fun c hc => hall c ((List.dropWhile_suffix _).mem hc), fun hhead => ?_⟩
    have hnot := List.head?_dropWhile_not (· == '_') n.unitChars
    rw [hhead] at hnot
    cases hnot
  have hmarks : ∀ c ∈ n.unitChars.takeWhile (· == '_'), c = '_' := fun c hc =>
    beq_iff_eq.mp (forall_mem_takeWhile c hc)
  exact ⟨_, hunit,
    n.tokenize_toText_of_marks hfinite List.takeWhile_append_dropWhile.symm hmarks hunit⟩

/-- A number that is scanned is written as one number. -/
theorem Number.exists_tokenize {n : Number} (h : n.HasUnitChars) :
    ∃ m : Number, tokenize n.toText = .ok [.value (.number m)] := by
  cases hfinite : n.magnitude.isFinite with
  | false => exact ⟨n.written, n.tokenize_toText_of_not_finite hfinite⟩
  | true =>
    obtain ⟨unit, -, htokens⟩ := Number.exists_isUnitText_tokenize h hfinite
    exact ⟨_, htokens⟩

/-- A value that is scanned is written as one literal, though the unit of a number may be cut. -/
theorem Value.IsScanned.exists_tokenize {v : Value} (h : v.IsScanned) :
    ∃ w, tokenize v.toText = .ok [.value w] := by
  cases v with
  | number n =>
    obtain ⟨m, htokens⟩ := n.exists_tokenize h
    exact ⟨.number m, htokens⟩
  | marker | bool | str | date | time | ref | symbol | uri | list | dict =>
    exact ⟨_, Value.tokenize_toText h⟩

end TagFilter
