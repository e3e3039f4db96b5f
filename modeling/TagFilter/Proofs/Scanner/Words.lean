import TagFilter.Filter.Text
import TagFilter.Proofs.CharClass
import TagFilter.Proofs.Scanner.Separation

/-!
# Words

The tokens of the words that filters are made of, and of texts that are joined from others by a
blank, by a connective or by parentheses.  Every statement is about `tokenize`, so that the tokens
of a text follow from those of its parts.
-/

namespace TagFilter

/-! ### Joined texts -/

theorem tokenize_eq_ok_iff {text : String} {tokens : List Token} :
    tokenize text = .ok tokens ↔ readChars text.toList = (tokens, none) := by
  unfold tokenize readTokens
  cases readChars text.toList with
  | mk read stop =>
    cases stop with
    | none =>
      simp only [Option.map_none, Except.ok.injEq, Prod.mk.injEq, and_true]
    | some stop =>
      simp only [Option.map_some, Prod.mk.injEq, reduceCtorEq, and_false]

/-- A text that is a token is read as that token alone. -/
theorem tokenize_of_scan {text : String} {token : Token} (h : scan text.toList = .token token []) :
    tokenize text = .ok [token] := by
  rw [tokenize_eq_ok_iff, readChars_token h, readChars_finished rfl]

section Joined

variable {a b : String} {xs ys : List Token}

/-- The tokens of two texts with a blank between them. -/
theorem tokenize_append_blank (ha : tokenize a = .ok xs) (hb : tokenize b = .ok ys) :
    tokenize (a ++ " " ++ b) = .ok (xs ++ ys) := by
  rw [tokenize_eq_ok_iff] at ha hb ⊢
  have hlist : (a ++ " " ++ b).toList = a.toList ++ ([' '] ++ b.toList) := by
    rw [String.toList_append, String.toList_append, List.append_assoc]
    rfl
  have hblank : readChars ([' '] ++ b.toList) = (ys, none) :=
    (readChars_blanks_append (by decide) b.toList).trans hb
  have hstart : StartsIn isSeparator ([' '] ++ b.toList) := startsIn_cons rfl _
  rw [hlist, readChars_append hstart ha, hblank]

/-- The tokens of a text in parentheses. -/
theorem tokenize_parenthesized (ha : tokenize a = .ok xs) :
    tokenize (parenthesized a) = .ok (.opening :: (xs ++ [.closing])) := by
  rw [tokenize_eq_ok_iff] at ha ⊢
  have hlist : (parenthesized a).toList = '(' :: (a.toList ++ [')']) := by
    rw [parenthesized, String.toList_append, String.toList_append]
    rfl
  have hopening (rest : List Char) : scan ('(' :: rest) = .token .opening rest := rfl
  have hclosing : scan [')'] = .token .closing [] := rfl
  rw [hlist, readChars_token (hopening _), readChars_append (startsIn_cons rfl _) ha,
    readChars_token hclosing, readChars_finished rfl]

end Joined

theorem tokenize_and : tokenize "and" = .ok [.and] := tokenize_of_scan rfl

theorem tokenize_or : tokenize "or" = .ok [.or] := tokenize_of_scan rfl

section Connectives

variable {a b : String} {xs ys : List Token}

/-- The tokens of two texts with a word between them. -/
theorem tokenize_append_word (ha : tokenize a = .ok xs) (hb : tokenize b = .ok ys) {word : String}
    {token : Token} (hword : tokenize word = .ok [token]) :
    tokenize (a ++ " " ++ word ++ " " ++ b) = .ok (xs ++ token :: ys) := by
  rw [tokenize_append_blank (tokenize_append_blank ha hword) hb, List.append_assoc]
  rfl

/-- The tokens of two texts that are joined by `and`. -/
theorem tokenize_append_and (ha : tokenize a = .ok xs) (hb : tokenize b = .ok ys) :
    tokenize (a ++ " and " ++ b) = .ok (xs ++ .and :: ys) := by
  have htext : a ++ " and " ++ b = a ++ " " ++ "and" ++ " " ++ b := by
    simp only [String.append_assoc]
    rfl
  rw [htext, tokenize_append_word ha hb tokenize_and]

/-- The tokens of two texts that are joined by `or`. -/
theorem tokenize_append_or (ha : tokenize a = .ok xs) (hb : tokenize b = .ok ys) :
    tokenize (a ++ " or " ++ b) = .ok (xs ++ .or :: ys) := by
  have htext : a ++ " or " ++ b = a ++ " " ++ "or" ++ " " ++ b := by
    simp only [String.append_assoc]
    rfl
  rw [htext, tokenize_append_word ha hb tokenize_or]

end Connectives

theorem tokenize_not : tokenize "not" = .ok [.not] := tokenize_of_scan rfl

theorem tokenize_wildcard : tokenize "*==" = .ok [.wildcard] := tokenize_of_scan rfl

theorem tokenize_comparison (op : Comparison) : tokenize op.toText = .ok [.comparison op] := by
  cases op <;> exact tokenize_of_scan rfl

/-! ### Names -/

/-- The words that are no names of tags. -/
def reservedWords : List String :=
  ["and", "or", "not", "true", "false", "INF", "NaN"]

/-- A tag name that can open a path: it is not reserved. -/
def IsPlainName (name : String) : Prop :=
  isTagName name = true ∧ name ∉ reservedWords

instance (name : String) : Decidable (IsPlainName name) :=
  inferInstanceAs (Decidable (_ ∧ _))

theorem reservedToken?_eq_none {name : String} (h : name ∉ reservedWords) :
    reservedToken? name = none := by
  simp only [reservedWords, List.mem_cons, List.not_mem_nil, or_false, not_or] at h
  obtain ⟨h₁, h₂, h₃, h₄, h₅, h₆, h₇⟩ := h
  simp only [reservedToken?, h₁, h₂, h₃, h₄, h₅, h₆, h₇, if_false]

/-- The characters of a tag name. -/
theorem isTagName_iff {name : String} :
    isTagName name = true ↔
      ∃ c rest, name.toList = c :: rest ∧ isNameStart c = true ∧ rest.all isNameChar = true := by
  unfold isTagName
  cases name.toList with
  | nil => simp
  | cons c rest =>
    simp only [Bool.and_eq_true, List.cons.injEq]
    constructor
    · rintro ⟨hc, hrest⟩
      exact ⟨c, rest, ⟨rfl, rfl⟩, hc, hrest⟩
    · rintro ⟨_, _, ⟨rfl, rfl⟩, hc, hrest⟩
      exact ⟨hc, hrest⟩

theorem all_isNameChar_of_isTagName {name : String} (h : isTagName name = true) :
    ∀ c ∈ name.toList, isNameChar c = true := by
  obtain ⟨c, rest, hlist, hc, hrest⟩ := isTagName_iff.mp h
  rw [hlist]
  intro d hd
  rcases List.mem_cons.mp hd with rfl | hd
  · exact isNameChar_of_isNameStart hc
  · exact List.all_eq_true.mp hrest d hd

/-- A text that begins as a name does is read as a word. -/
theorem scanSolid_of_isNameStart {c : Char} (h : isNameStart c = true) (rest : List Char) :
    scanSolid (c :: rest) = scanWord (c :: rest) := by
  have hne {d : Char} (hd : isNameStart d = false) : c ≠ d := by
    rintro rfl
    rw [hd] at h
    cases h
  have hdigit := isDigit_of_isNameStart h
  simp only [scanSolid, hne (show isNameStart '(' = false by decide),
    hne (show isNameStart ')' = false by decide),
    hne (show isNameStart doubleQuote = false by decide),
    hne (show isNameStart backQuote = false by decide),
    hne (show isNameStart '@' = false by decide), hne (show isNameStart '^' = false by decide),
    hne (show isNameStart '-' = false by decide), hdigit, h, if_false, if_true,
    Bool.false_eq_true]

/-- A text that begins as a name does is scanned as a word. -/
theorem scan_of_isNameStart {c : Char} (h : isNameStart c = true) (rest : List Char) :
    scan (c :: rest) = scanWord (c :: rest) := by
  have hblank : isBlank c = false := by
    cases hb : isBlank c with
    | false => rfl
    | true =>
      have hfalse := isNameChar_of_isBlank hb
      rw [isNameChar_of_isNameStart h] at hfalse
      cases hfalse
  rw [scan, List.dropWhile_cons_of_neg (by rw [hblank]; decide), scanSolid_of_isNameStart h]

theorem scanSolid_of_isDigit {c : Char} (h : c.isDigit = true) (rest : List Char) :
    scanSolid (c :: rest) = scanDigits (c :: rest) := by
  have hne {d : Char} (hd : d.isDigit = false) : c ≠ d := by
    rintro rfl
    rw [h] at hd
    cases hd
  simp only [scanSolid, hne (show Char.isDigit '(' = false by decide),
    hne (show Char.isDigit ')' = false by decide),
    hne (show Char.isDigit doubleQuote = false by decide),
    hne (show Char.isDigit backQuote = false by decide),
    hne (show Char.isDigit '@' = false by decide), hne (show Char.isDigit '^' = false by decide),
    hne (show Char.isDigit '-' = false by decide), h, if_false, if_true]

/-- A text that begins with a digit is a date, a time or a number. -/
theorem scan_of_isDigit {c : Char} (h : c.isDigit = true) (rest : List Char) :
    scan (c :: rest) = scanDigits (c :: rest) := by
  rw [scan, List.dropWhile_cons_of_neg (by rw [isBlank_of_isDigit h]; decide)]
  exact scanSolid_of_isDigit h rest

/-- What a plain name means is decided by the text after it. -/
theorem scan_name_append {name : String} (h : IsPlainName name) {rest : List Char}
    (hrest : StartsIn (fun c => !isNameChar c) rest) :
    scan (name.toList ++ rest) =
      match readMark? rest with
      | some (term, after) => .token (.relationship ⟨name, term⟩) after
      | none =>
        match readSegments rest with
        | (some names, after) => .token (Token.ofPath ⟨name, names⟩) after
        | (none, after) =>
          .stopped ⟨.invalidLiteral (partBefore (name.toList ++ rest) after),
            name.toList ++ rest, after⟩ := by
  obtain ⟨c, tail, hlist, hc, -⟩ := isTagName_iff.mp h.1
  obtain ⟨htake, hdrop⟩ := hrest.span_append (all_isNameChar_of_isTagName h.1)
  have hscan : scan (name.toList ++ rest) = scanWord (name.toList ++ rest) := by
    rw [hlist, List.cons_append, scan_of_isNameStart hc]
  unfold scanWord at hscan
  simp only [htake, hdrop, String.ofList_toList, reservedToken?_eq_none h.2] at hscan
  exact hscan

theorem readSegments_nil : readSegments [] = (some [], []) := by
  rw [readSegments]
  rintro rest ⟨⟩

/-- A plain name is a word of its own. -/
theorem tokenize_name {name : String} (h : IsPlainName name) :
    tokenize name = .ok [.name name] := by
  have hscan := scan_name_append h (startsIn_nil _)
  rw [List.append_nil] at hscan
  refine tokenize_of_scan (hscan.trans ?_)
  rw [readSegments_nil]
  rfl

/-- A plain name with the mark of relationships is a relationship without a term. -/
theorem tokenize_relationship {name : String} (h : IsPlainName name) :
    tokenize (name ++ "?") = .ok [.relationship ⟨name, none⟩] := by
  have hmark : StartsIn (fun c => !isNameChar c) ['?'] := startsIn_cons (by decide) _
  have hscan := scan_name_append h hmark
  have hlist : (name ++ "?").toList = name.toList ++ ['?'] := by
    rw [String.toList_append]
    rfl
  rw [← hlist] at hscan
  exact tokenize_of_scan hscan

/-! ### Marked names -/

theorem isId_iff {text : String} :
    isId text = true ↔ text ≠ "" ∧ ∀ c ∈ text.toList, isIdChar c = true := by
  simp only [isId, Bool.and_eq_true, Bool.not_eq_true', List.all_eq_true]
  rw [Bool.eq_false_iff, ne_eq, String.isEmpty_iff]

/-- A mark with a valid name after it is a single token. -/
theorem scanMarked_of_isId {id : String} (h : isId id = true) (value : String → Value)
    (mark : Char) : scanMarked value mark id.toList = .token (.value (value id)) [] := by
  obtain ⟨hne, hall⟩ := isId_iff.mp h
  obtain ⟨htake, hdrop⟩ := span_of_forall hall
  have hempty : id.toList.isEmpty = false := by
    cases hlist : id.toList with
    | nil => exact absurd (String.toList_eq_nil_iff.mp hlist) hne
    | cons c rest => rfl
  unfold scanMarked
  simp only [htake, hdrop, hempty, String.ofList_toList, Bool.false_eq_true, if_false]

/-- The text of a ref with a valid id is read as the ref without a display name. -/
theorem tokenize_ref {r : Ref} (h : isId r.id = true) :
    tokenize r.toText = .ok [.value (.ref ⟨r.id, none⟩)] := by
  have hlist : r.toText.toList = '@' :: r.id.toList := by
    rw [Ref.toText, String.toList_append]
    rfl
  refine tokenize_of_scan ?_
  rw [hlist]
  exact scanMarked_of_isId h (fun id => .ref ⟨id, none⟩) '@'

/-- The text of a symbol with a valid name is read as the symbol. -/
theorem tokenize_symbol {s : Symbol} (h : isId s.name = true) :
    tokenize s.toText = .ok [.value (.symbol s)] := by
  have hlist : s.toText.toList = '^' :: s.name.toList := by
    rw [Symbol.toText, String.toList_append]
    rfl
  refine tokenize_of_scan ?_
  rw [hlist]
  exact scanMarked_of_isId h (fun name => .symbol ⟨name⟩) '^'

/-! ### Paths -/

/-- A path that can be written: its names are tag names, and the first is not reserved. -/
structure Path.IsPlain (p : Path) : Prop where
  /-- The first name opens a path. -/
  head : IsPlainName p.head
  /-- The other names are tag names. -/
  tail : ∀ name ∈ p.tail, isTagName name = true

theorem Path.isPlain_iff {p : Path} :
    p.IsPlain ↔ (∀ name ∈ p.segments, isTagName name = true) ∧ p.head ∉ reservedWords := by
  constructor
  · intro h
    exact ⟨List.forall_mem_cons.mpr ⟨h.head.1, h.tail⟩, h.head.2⟩
  · rintro ⟨hnames, hreserved⟩
    obtain ⟨hhead, htail⟩ := List.forall_mem_cons.mp hnames
    exact ⟨⟨hhead, hreserved⟩, htail⟩

theorem Path.isPlain_single {name : String} (h : IsPlainName name) : (Path.single name).IsPlain :=
  ⟨h, List.forall_mem_nil _⟩

/-- The characters of the names after the first of a path. -/
def arrowChars (names : List String) : List Char :=
  names.flatMap fun name => '-' :: '>' :: name.toList

theorem toList_intercalate_arrow (head : String) (tail : List String) :
    (String.intercalate "->" (head :: tail)).toList = head.toList ++ arrowChars tail := by
  induction tail generalizing head with
  | nil => simp only [String.intercalate_singleton, arrowChars, List.flatMap_nil, List.append_nil]
  | cons name names ih =>
    have harrow : "->".toList = ['-', '>'] := rfl
    rw [String.intercalate_cons_cons, String.toList_append, String.toList_append, ih, harrow]
    simp only [arrowChars, List.flatMap_cons, List.append_assoc, List.cons_append, List.nil_append]

theorem Path.toList_toText (p : Path) : p.toText.toList = p.head.toList ++ arrowChars p.tail :=
  toList_intercalate_arrow p.head p.tail

/-- The names after the first are followed by no further character of a name. -/
theorem startsIn_arrowChars (names : List String) :
    StartsIn (fun c => !isNameChar c) (arrowChars names) := by
  cases names with
  | nil => exact startsIn_nil _
  | cons name names => exact startsIn_cons (by decide) _

theorem readSegments_arrowChars {names : List String} (h : ∀ name ∈ names, isTagName name = true) :
    readSegments (arrowChars names) = (some names, []) := by
  induction names with
  | nil => exact readSegments_nil
  | cons name names ih =>
    have hname := h name List.mem_cons_self
    obtain ⟨htake, hdrop⟩ :=
      (startsIn_arrowChars names).span_append (all_isNameChar_of_isTagName hname)
    have hstarts : startsName (name.toList ++ arrowChars names) = true := by
      obtain ⟨c, tail, hlist, hc, -⟩ := isTagName_iff.mp hname
      rw [hlist]
      exact hc
    have hlist : arrowChars (name :: names) = '-' :: '>' :: (name.toList ++ arrowChars names) := rfl
    rw [hlist, readSegments, if_pos hstarts, hdrop, htake,
      ih fun other hother => h other (List.mem_cons_of_mem _ hother)]
    simp only [Option.map_some, String.ofList_toList]

/-- The names after the first of a path are no mark of a relationship. -/
theorem readMark?_arrowChars (names : List String) : readMark? (arrowChars names) = none := by
  cases names with
  | nil => rfl
  | cons name names => rfl

/-- The text of a path is a single word. -/
theorem tokenize_path {p : Path} (h : p.IsPlain) : tokenize p.toText = .ok [Token.ofPath p] := by
  refine tokenize_of_scan ?_
  rw [p.toList_toText, scan_name_append h.head (startsIn_arrowChars p.tail), readMark?_arrowChars,
    readSegments_arrowChars h.tail]

end TagFilter
