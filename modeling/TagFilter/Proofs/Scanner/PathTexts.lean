import TagFilter.Proofs.Scanner.Scanned
import TagFilter.Proofs.Success

/-!
# Two readers of paths

A path that is a text of its own is cut at its arrows, and every piece has to be a tag name
(`Path.ofText?`).  In a filter the scanner takes one name after another from the front of the text,
and looks for the mark of a relationship before it looks for an arrow.  Of the texts without blanks
the first reader accepts those that paths of tag names are written as
(`Path.ofText?_eq_ok_iff_toText`), and the second reads the same texts as one word, unless they
begin with a reserved word (`tokenize_singleton_iff_toText`).  Other texts are paths to neither.
-/

namespace TagFilter

/-! ### Pieces between arrows -/

/-- Characters other than a dash continue no arrow, and are joined to the first piece. -/
theorem piecesAtArrow_append {chars rest piece : List Char} {pieces : List (List Char)}
    (h : '-' ∉ chars) (hrest : piecesAtArrow rest = piece :: pieces) :
    piecesAtArrow (chars ++ rest) = (chars ++ piece) :: pieces := by
  induction chars with
  | nil => exact hrest
  | cons c chars ih =>
    obtain ⟨hc, hchars⟩ := not_or.mp (mt List.mem_cons.mpr h)
    have hnone (tail : List Char) : c = '-' → chars ++ rest = '>' :: tail → False :=
      fun heq _ => hc heq.symm
    rw [List.cons_append, piecesAtArrow.eq_3 _ _ hnone, ih hchars]
    rfl

theorem piecesAtArrow_arrowChars {names : List String} (h : ∀ name ∈ names, '-' ∉ name.toList) :
    piecesAtArrow (arrowChars names) = [] :: names.map String.toList := by
  induction names with
  | nil => rfl
  | cons name names ih =>
    obtain ⟨hname, hnames⟩ := List.forall_mem_cons.mp h
    have hlist : arrowChars (name :: names) = '-' :: '>' :: (name.toList ++ arrowChars names) := rfl
    rw [hlist, piecesAtArrow, piecesAtArrow_append hname (ih hnames), List.append_nil,
      List.map_cons]

/-- The pieces of a text with arrows between them are the text again. -/
theorem eq_append_of_piecesAtArrow {text piece : List Char} {pieces : List (List Char)}
    (h : piecesAtArrow text = piece :: pieces) :
    text = piece ++ arrowChars (pieces.map String.ofList) := by
  fun_induction piecesAtArrow text generalizing piece pieces with
  | case1 =>
    cases h
    rfl
  | case2 rest ih =>
    obtain ⟨rfl, hrest⟩ := List.cons.inj h
    cases pieces with
    | nil => exact absurd hrest (piecesAtArrow_ne_nil rest)
    | cons first others =>
      rw [ih hrest]
      simp only [arrowChars, List.map_cons, List.flatMap_cons, String.toList_ofList,
        List.cons_append, List.nil_append]
  | case3 c rest _ ih =>
    cases hrest : piecesAtArrow rest with
    | nil => exact absurd hrest (piecesAtArrow_ne_nil rest)
    | cons first others =>
      rw [hrest] at h
      cases h
      rw [ih hrest, List.cons_append]

theorem mem_of_mem_piecesAtArrow {text piece : List Char} {c : Char}
    (hpiece : piece ∈ piecesAtArrow text) (hc : c ∈ piece) : c ∈ text := by
  cases hpieces : piecesAtArrow text with
  | nil => exact absurd hpieces (piecesAtArrow_ne_nil text)
  | cons first others =>
    rw [hpieces] at hpiece
    rw [eq_append_of_piecesAtArrow hpieces]
    rcases List.mem_cons.mp hpiece with rfl | hpiece
    · exact List.mem_append_left _ hc
    · have hname : String.ofList piece ∈ others.map String.ofList := List.mem_map_of_mem hpiece
      refine List.mem_append_right _ (List.mem_flatMap.mpr ⟨_, hname, ?_⟩)
      rw [String.toList_ofList]
      exact List.mem_cons_of_mem _ (List.mem_cons_of_mem _ hc)

/-! ### Texts without blanks -/

section Solid

variable {text : List Char} (h : ∀ c ∈ text, isBlank c = false)

include h

theorem dropWhile_isBlank_of_forall : text.dropWhile isBlank = text := by
  cases text with
  | nil => rfl
  | cons c rest =>
    have hc : ¬ isBlank c = true := Bool.eq_false_iff.mp (h c List.mem_cons_self)
    exact List.dropWhile_cons_of_neg hc

theorem trimBlanks_of_forall : trimBlanks text = text := by
  have hreverse : ∀ c ∈ text.reverse, isBlank c = false := fun c hc =>
    h c (List.mem_reverse.mp hc)
  rw [trimBlanks, dropWhile_isBlank_of_forall h, dropWhile_isBlank_of_forall hreverse,
    List.reverse_reverse]

end Solid

theorem trimBlanks_of_isTagName {name : String} (h : isTagName name = true) :
    trimBlanks name.toList = name.toList := by
  refine trimBlanks_of_forall fun c hc => Bool.eq_false_iff.mpr fun hblank => ?_
  have hname := all_isNameChar_of_isTagName h c hc
  rw [isNameChar_of_isBlank hblank] at hname
  cases hname

/-! ### Paths that are texts of their own -/

namespace Path

variable {text : String} {p : Path}

/-- The names of a path are the pieces of its text without the blanks around them. -/
theorem ofText?_eq_ok_iff :
    ofText? text = .ok p ↔
      p.segments = (piecesAtArrow text.toList).map (fun piece => String.ofList (trimBlanks piece)) ∧
        ∀ name ∈ p.segments, isTagName name = true := by
  unfold ofText?
  generalize (piecesAtArrow text.toList).map (fun piece => String.ofList (trimBlanks piece)) = names
  cases names with
  | nil =>
    constructor
    · intro h
      cases h
    · intro h
      exact absurd h.1 (List.cons_ne_nil _ _)
  | cons head tail =>
    dsimp only
    constructor
    · intro h
      split at h
      · next hnames =>
        cases h
        exact ⟨rfl, List.all_eq_true.mp hnames⟩
      · cases h
    · rintro ⟨hsegments, hnames⟩
      rw [hsegments] at hnames
      obtain ⟨rfl, rfl⟩ := List.cons.inj hsegments
      exact if_pos (List.all_eq_true.mpr hnames)

/-- The pieces of the text of a path are its names. -/
theorem piecesAtArrow_toText (h : ∀ name ∈ p.segments, isTagName name = true) :
    piecesAtArrow p.toText.toList = p.segments.map String.toList := by
  have hdash : ∀ name ∈ p.segments, '-' ∉ name.toList := fun name hname hmem =>
    absurd (all_isNameChar_of_isTagName (h name hname) '-' hmem) (by decide)
  obtain ⟨hhead, htail⟩ := List.forall_mem_cons.mp hdash
  rw [toList_toText, piecesAtArrow_append hhead (piecesAtArrow_arrowChars htail), List.append_nil]
  rfl

/-- The text of a path of tag names is read as the path. -/
theorem ofText?_toText_of_isTagName (h : ∀ name ∈ p.segments, isTagName name = true) :
    ofText? p.toText = .ok p := by
  have htrim : ∀ name ∈ p.segments, String.ofList (trimBlanks name.toList) = name := by
    intro name hname
    rw [trimBlanks_of_isTagName (h name hname), String.ofList_toList]
  refine ofText?_eq_ok_iff.mpr ⟨?_, h⟩
  rw [piecesAtArrow_toText h, List.map_map]
  exact ((List.map_congr_left htrim).trans p.segments.map_id').symm

variable (hsolid : ∀ c ∈ text.toList, isBlank c = false)

include hsolid

/-- A text without blanks that is read as a path is the text of the path. -/
theorem toText_of_ofText? (h : ofText? text = .ok p) : p.toText = text := by
  have htrim : ∀ piece ∈ piecesAtArrow text.toList,
      String.ofList (trimBlanks piece) = String.ofList piece := by
    intro piece hpiece
    rw [trimBlanks_of_forall fun c hc => hsolid c (mem_of_mem_piecesAtArrow hpiece hc)]
  obtain ⟨hsegments, -⟩ := ofText?_eq_ok_iff.mp h
  rw [List.map_congr_left htrim] at hsegments
  cases hpieces : piecesAtArrow text.toList with
  | nil => exact absurd hpieces (piecesAtArrow_ne_nil _)
  | cons piece pieces =>
    rw [hpieces] at hsegments
    obtain ⟨hhead, htail⟩ := List.cons.inj hsegments
    apply String.toList_inj.mp
    rw [toList_toText, hhead, htail, String.toList_ofList, ← eq_append_of_piecesAtArrow hpieces]

theorem ofText?_eq_ok_iff_toText :
    ofText? text = .ok p ↔ (∀ name ∈ p.segments, isTagName name = true) ∧ p.toText = text := by
  constructor
  · intro h
    exact ⟨(ofText?_eq_ok_iff.mp h).2, toText_of_ofText? hsolid h⟩
  · rintro ⟨hnames, rfl⟩
    exact ofText?_toText_of_isTagName hnames

end Path

/-! ### Paths that are words of a filter -/

/-- The names that the scanner takes from a text are those with which it begins. -/
theorem eq_append_of_readSegments {text rest : List Char} {names : List String}
    (h : readSegments text = (some names, rest)) : text = arrowChars names ++ rest := by
  fun_induction readSegments text generalizing names with
  | case1 tail hstarts found after heq ih =>
    cases found with
    | none => cases h
    | some found =>
      cases h
      have hspan : tail.takeWhile isNameChar ++ tail.dropWhile isNameChar = tail :=
        List.takeWhile_append_dropWhile
      rw [ih heq] at hspan
      calc
        '-' :: '>' :: tail =
            '-' :: '>' :: (tail.takeWhile isNameChar ++ (arrowChars found ++ rest)) := by rw [hspan]
        _ = arrowChars (String.ofList (tail.takeWhile isNameChar) :: found) ++ rest := by
          simp only [arrowChars, List.flatMap_cons, String.toList_ofList, List.cons_append,
            List.append_assoc]
  | case2 => cases h
  | case3 =>
    cases h
    rfl

theorem Token.path?_ofPath (p : Path) : (Token.ofPath p).path? = some p := by
  obtain ⟨head, tail⟩ := p
  cases tail <;> rfl

theorem Token.IsNameless.path? {t : Token} (h : t.IsNameless) : t.path? = none := by
  cases t with
  | value | comparison | wildcard | opening | closing => rfl
  | name | path | relationship | and | or | not | endOfInput => exact h.elim

section Words

variable {text rest : List Char} {token : Token} (hpath : token.path?.isSome = true)

include hpath

/-- A word that can be read as a path is the text of the path. -/
theorem exists_path_of_scanWord (hstart : startsName text = true)
    (h : scanWord text = .token token rest) :
    ∃ p : Path, p.IsPlain ∧ Token.ofPath p = token ∧ text = p.toText.toList ++ rest := by
  unfold scanWord at h
  simp only at h
  split at h
  · next hreserved =>
    cases h
    rcases reservedToken?_cases hreserved with rfl | rfl | rfl | ⟨v, rfl, -⟩
    all_goals cases hpath
  · next hreserved =>
    split at h
    · cases h
      cases hpath
    · split at h
      · next names after hsegments =>
        cases h
        let p : Path := ⟨String.ofList (text.takeWhile isNameChar), names⟩
        have hplain : p.IsPlain := ⟨⟨isTagName_takeWhile hstart, not_mem_reservedWords hreserved⟩,
          isTagName_of_readSegments hsegments⟩
        refine ⟨p, hplain, rfl, ?_⟩
        calc
          text = text.takeWhile isNameChar ++ text.dropWhile isNameChar :=
            List.takeWhile_append_dropWhile.symm
          _ = p.head.toList ++ (arrowChars p.tail ++ rest) := by
            rw [eq_append_of_readSegments hsegments, String.toList_ofList]
          _ = p.toText.toList ++ rest := by rw [p.toList_toText, List.append_assoc]
      · cases h

/-- A token that can be read as a path stands where the text of the path does. -/
theorem exists_path_of_scan (h : scan text = .token token rest) :
    ∃ p : Path, p.IsPlain ∧ Token.ofPath p = token ∧
      text.dropWhile isBlank = p.toText.toList ++ rest := by
  unfold scan at h
  rcases scanSolid_cases (text.dropWhile isBlank) with hnameless | ⟨hstart, hword⟩
  · rw [h] at hnameless
    rw [Token.IsNameless.path? hnameless] at hpath
    cases hpath
  · rw [hword] at h
    exact exists_path_of_scanWord hpath hstart h

end Words

/-- The texts without blanks that are one word, and that a path, are the texts of the paths that
do not begin with a reserved word. -/
theorem tokenize_singleton_iff_toText {text : String} {token : Token}
    (hsolid : ∀ c ∈ text.toList, isBlank c = false) :
    tokenize text = .ok [token] ∧ token.path?.isSome = true ↔
      ∃ p : Path, p.IsPlain ∧ Token.ofPath p = token ∧ p.toText = text := by
  constructor
  · rintro ⟨htokens, hpath⟩
    obtain ⟨rest, hscan, hread⟩ := scan_of_readChars_cons (tokenize_eq_ok_iff.mp htokens)
    obtain ⟨p, hplain, htoken, htext⟩ := exists_path_of_scan hpath hscan
    rw [dropWhile_isBlank_of_forall hsolid] at htext
    -- what is left behind the word is blank, and the text holds no blanks
    have hrest : ∀ c ∈ rest, isBlank c = false := fun c hc => by
      refine hsolid c ?_
      rw [htext]
      exact List.mem_append_right _ hc
    have hnil := dropWhile_eq_nil_of_scan (scan_of_readChars_nil hread)
    rw [dropWhile_isBlank_of_forall hrest] at hnil
    rw [hnil, List.append_nil] at htext
    exact ⟨p, hplain, htoken, String.toList_inj.mp htext.symm⟩
  · rintro ⟨p, hplain, rfl, rfl⟩
    refine ⟨tokenize_path hplain, ?_⟩
    rw [Token.path?_ofPath, Option.isSome_some]

/-! ### Agreement -/

/-- The text of a path begins with its first name. -/
theorem Path.takeWhile_toText {p : Path} (h : isTagName p.head = true) :
    String.ofList (p.toText.toList.takeWhile isNameChar) = p.head := by
  have hchars := all_isNameChar_of_isTagName h
  rw [p.toList_toText, ((startsIn_arrowChars p.tail).span_append hchars).1, String.ofList_toList]

/-- Of the texts without blanks that do not begin with a reserved word, the same are read as a path
and as a filter of one word that can be a path, and as the same token.  A path that was read, from
any text, is read again from its own. -/
theorem tokenize_singleton_iff_ofPathText? :
    (∀ text : String, (∀ c ∈ text.toList, isBlank c = false) →
      String.ofList (text.toList.takeWhile isNameChar) ∉ reservedWords →
        ∀ token : Token, tokenize text = .ok [token] ∧ token.path?.isSome = true ↔
          Token.ofPathText? text = .ok token) ∧
    ∀ (text : String) (p : Path), Path.ofText? text = .ok p → Path.ofText? p.toText = .ok p := by
  constructor
  · intro text hsolid hreserved token
    rw [tokenize_singleton_iff_toText hsolid, Token.ofPathText?, map_eq_ok_iff]
    constructor
    · rintro ⟨p, hplain, htoken, htext⟩
      have hnames := (Path.isPlain_iff.mp hplain).1
      exact ⟨p, (Path.ofText?_eq_ok_iff_toText hsolid).mpr ⟨hnames, htext⟩, htoken⟩
    · rintro ⟨p, hread, htoken⟩
      obtain ⟨hnames, rfl⟩ := (Path.ofText?_eq_ok_iff_toText hsolid).mp hread
      rw [Path.takeWhile_toText (hnames p.head List.mem_cons_self)] at hreserved
      exact ⟨p, Path.isPlain_iff.mpr ⟨hnames, hreserved⟩, htoken, rfl⟩
  · intro text p hread
    exact Path.ofText?_toText_of_isTagName (Path.ofText?_eq_ok_iff.mp hread).2

/-- A reserved word may follow an arrow.  Where the characters of a term end in an arrow and not in
the mark of a relationship, neither reader finds a path. -/
theorem tokenize_singleton_iff_ofPathText?_siteRef :
    ((∀ c ∈ "siteRef->not->area_2".toList, isBlank c = false) ∧
      String.ofList ("siteRef->not->area_2".toList.takeWhile isNameChar) ∉ reservedWords ∧
      tokenize "siteRef->not->area_2" = .ok [.path ⟨"siteRef", ["not", "area_2"]⟩]) ∧
    ((∀ c ∈ "inputs-elec->air".toList, isBlank c = false) ∧
      String.ofList ("inputs-elec->air".toList.takeWhile isNameChar) ∉ reservedWords ∧
      ∀ token : Token, ¬ (tokenize "inputs-elec->air" = .ok [token] ∧ token.path?.isSome = true)) ∧
    Path.ofText? " not -> air" = .ok ⟨"not", ["air"]⟩ ∧
      Path.ofText? (Path.toText ⟨"not", ["air"]⟩) = .ok ⟨"not", ["air"]⟩ := by
  obtain ⟨hagree, hagain⟩ := tokenize_singleton_iff_ofPathText?
  have hsite : ∀ c ∈ "siteRef->not->area_2".toList, isBlank c = false := fun c hc =>
    Bool.eq_false_iff.mpr (List.any_eq_false.mp rfl c hc)
  have hinputs : ∀ c ∈ "inputs-elec->air".toList, isBlank c = false := fun c hc =>
    Bool.eq_false_iff.mpr (List.any_eq_false.mp rfl c hc)
  refine ⟨⟨hsite, by decide, ?_⟩, ⟨hinputs, by decide, ?_⟩, rfl, hagain " not -> air" _ rfl⟩
  · exact ((hagree _ hsite (by decide) _).mpr rfl).1
  · intro token hread
    cases (hagree _ hinputs (by decide) token).mp hread

end TagFilter
