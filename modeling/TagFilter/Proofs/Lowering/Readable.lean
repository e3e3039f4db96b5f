import TagFilter.Proofs.Lowering.StrayNames
import TagFilter.Proofs.Lowering.Tests

/-!
# When lowered texts can be read

The lowered text of a filter holds names that the filter itself does not: the tags that the names of
types and of their subtypes join, and the ref tags of relationships.  When the defs have valid
names, the lowered text is a filter exactly when all of these are plain tag names
(`exists_ofText?_lower_iff`).
-/

namespace TagFilter

/-- The names that the lowered text of a test brings in as tags. -/
def Test.loweredNames (ns : Namespace) : Test → List String
  | .isA type => (ns.typesOf type).flatMap fun name => (Symbol.mk name).parts
  | .related r _ => ns.refTags r
  | _ => []

/-- The defs have valid names. -/
def Namespace.HasValidNames (ns : Namespace) : Prop :=
  ∀ name ∈ ns.names, isId name = true

/-! ### Pieces of names -/

theorem mem_of_mem_piecesAt {separator c : Char} {text piece : List Char}
    (hpiece : piece ∈ piecesAt separator text) (hc : c ∈ piece) : c ∈ text := by
  induction text generalizing piece with
  | nil =>
    rw [List.mem_singleton.mp hpiece] at hc
    exact hc
  | cons d rest ih =>
    rw [piecesAt] at hpiece
    split at hpiece
    · rcases List.mem_cons.mp hpiece with rfl | hpiece
      · cases hc
      · exact List.mem_cons_of_mem d (ih hpiece hc)
    · cases hpieces : piecesAt separator rest with
      | nil => exact absurd hpieces (piecesAt_ne_nil separator rest)
      | cons first others =>
        rw [hpieces] at hpiece ih
        rcases List.mem_cons.mp hpiece with rfl | hpiece
        · rcases List.mem_cons.mp hc with rfl | hc
          · exact List.mem_cons_self
          · exact List.mem_cons_of_mem d (ih List.mem_cons_self hc)
        · exact List.mem_cons_of_mem d (ih (List.mem_cons_of_mem first hpiece) hc)

/-- The parts of a valid name are made of id characters, though they may be empty. -/
theorem isIdChar_of_mem_parts {name part : String} (h : isId name = true)
    (hpart : part ∈ (Symbol.mk name).parts) : ∀ c ∈ part.toList, isIdChar c = true := by
  obtain ⟨piece, hpiece, rfl⟩ := List.mem_map.mp hpart
  intro c hc
  rw [String.toList_ofList] at hc
  exact (isId_iff.mp h).2 c (mem_of_mem_piecesAt hpiece hc)

/-- Every character of a text is a separator or in one of the pieces. -/
theorem exists_piece_of_mem {separator c : Char} {text : List Char} (hc : c ∈ text)
    (hne : c ≠ separator) : ∃ piece ∈ piecesAt separator text, c ∈ piece := by
  induction text with
  | nil => cases hc
  | cons d rest ih =>
    rw [piecesAt]
    split
    · next heq =>
      have hrest : c ∈ rest := (List.mem_cons.mp hc).resolve_left fun h => hne (h.trans heq)
      obtain ⟨piece, hpiece, hmem⟩ := ih hrest
      exact ⟨piece, List.mem_cons_of_mem _ hpiece, hmem⟩
    · cases hpieces : piecesAt separator rest with
      | nil => exact absurd hpieces (piecesAt_ne_nil separator rest)
      | cons first others =>
        rw [hpieces] at ih
        rcases List.mem_cons.mp hc with rfl | hrest
        · exact ⟨c :: first, List.mem_cons_self, List.mem_cons_self⟩
        · obtain ⟨piece, hpiece, hmem⟩ := ih hrest
          rcases List.mem_cons.mp hpiece with rfl | hpiece
          · exact ⟨d :: piece, List.mem_cons_self, List.mem_cons_of_mem d hmem⟩
          · exact ⟨piece, List.mem_cons_of_mem _ hpiece, hmem⟩

/-- A name whose parts are plain is the name of a symbol. -/
theorem isId_of_isPlainName_parts {name : String}
    (h : ∀ part ∈ (Symbol.mk name).parts, IsPlainName part) : isId name = true := by
  refine isId_iff.mpr ⟨?_, fun c hc => ?_⟩
  · rintro rfl
    have hempty : IsPlainName "" := h "" List.mem_cons_self
    exact absurd hempty (by decide)
  · by_cases hdash : c = '-'
    · rw [hdash]
      rfl
    · obtain ⟨piece, hpiece, hmem⟩ := exists_piece_of_mem hc hdash
      have hplain : IsPlainName (String.ofList piece) := h _ (List.mem_map_of_mem hpiece)
      have hname : isNameChar c = true := by
        refine all_isNameChar_of_isTagName hplain.1 c ?_
        rwa [String.toList_ofList]
      exact isIdChar_of_isNameChar hname

/-! ### Tests -/

section Tests

variable {ns : Namespace} {test : Test}

/-- The text of a test that has been read can be read again, as this test or one with another
number. -/
theorem Test.exists_spells_of_isScanned (h : test.IsScanned) : ∃ t, SpellsTerm test.toText t := by
  have hread : ∀ v ∈ test.operand?.toList, ∃ w, tokenize v.toText = .ok [.value w] := fun v hv =>
    (h.2 v (Option.mem_toList.mp hv)).exists_tokenize
  have : Nonempty Value := ⟨.marker⟩
  obtain ⟨read, hread⟩ := exists_forall_mem hread
  exact ⟨_, Test.spells h.1 fun v hv => hread v (Option.mem_toList.mpr hv)⟩

/-- The lowered text of a test that has been read can be read again when the names that it brings in
are plain. -/
theorem Test.exists_spells_lower (hscanned : test.IsScanned)
    (h : ∀ name ∈ test.loweredNames ns, IsPlainName name) :
    ∃ t, SpellsTerm (test.lower ns) t := by
  cases test with
  | has p | missing p | compare p op operand => exact Test.exists_spells_of_isScanned hscanned
  | reaches p target => exact ⟨_, spells_lowerReaches hscanned.1.1 hscanned.1.2⟩
  | related r target => exact ⟨_, Namespace.spells_lowerRelated hscanned.1.1 h⟩
  | isA type => exact ⟨_, Namespace.spells_lowerType (List.forall_mem_flatMap.mp h)⟩

/-- The text of a type is read as a term exactly when its parts are plain. -/
theorem settled_typeText {name : String} (h : isId name = true) :
    Settled (typeText name) ∧ ((∃ t, SpellsTerm (typeText name) t) ↔
      ∀ part ∈ (Symbol.mk name).parts, IsPlainName part) := by
  have hparts : ∀ part ∈ (Symbol.mk name).parts,
      Settled part ∧ ((∃ t, SpellsTerm part t) ↔ IsPlainName part) := fun part hpart =>
    settled_name (isIdChar_of_mem_parts h hpart)
  have hgrouped := settled_grouped_and (Symbol.parts_ne_nil ⟨name⟩) fun part hpart =>
    (hparts part hpart).1
  rw [List.map_id'] at hgrouped
  rw [typeText_eq_grouped]
  exact ⟨hgrouped.1, hgrouped.2.trans (forall₂_congr fun part hpart => (hparts part hpart).2)⟩

/-- The lowered text of a test that has been read is settled, and it is read as a term exactly when
the names that it brings in are plain. -/
theorem Test.settled_lower (hscanned : test.IsScanned) (hnames : ns.HasValidNames) :
    Settled (test.lower ns) ∧
      ((∃ t, SpellsTerm (test.lower ns) t) ↔ ∀ name ∈ test.loweredNames ns, IsPlainName name) := by
  have hspells (hall : ∀ name ∈ test.loweredNames ns, IsPlainName name) :
      Settled (test.lower ns) ∧ ((∃ t, SpellsTerm (test.lower ns) t) ↔
        ∀ name ∈ test.loweredNames ns, IsPlainName name) := by
    have hread := Test.exists_spells_lower hscanned hall
    exact ⟨Or.inl hread, fun _ => hall, fun _ => hread⟩
  cases test with
  | has p | missing p | compare p op operand | reaches p target =>
    exact hspells (List.forall_mem_nil _)
  | isA type =>
    have htypes : ∀ name ∈ ns.typesOf type, isId name = true := by
      intro name hname
      rcases Namespace.mem_typesOf hname with rfl | hname
      · exact hscanned.1
      · exact hnames name hname
    have htexts := fun name hname => settled_typeText (htypes name hname)
    have hgrouped := settled_grouped_or Namespace.typesOf_ne_nil fun name hname =>
      (htexts name hname).1
    have hlower : (Test.isA type).lower ns = grouped " or " ((ns.typesOf type).map typeText) :=
      anyOf_eq_grouped _
    rw [hlower]
    refine ⟨hgrouped.1, hgrouped.2.trans ?_⟩
    unfold loweredNames
    rw [List.forall_mem_flatMap]
    exact forall₂_congr fun name hname => (htexts name hname).2
  | related r target =>
    cases htags : ns.refTags r with
    | nil =>
      refine hspells fun name hname => ?_
      change name ∈ ns.refTags r at hname
      rw [htags] at hname
      cases hname
    | cons tag tags =>
      have hvalid : ∀ other ∈ tag :: tags, isId other = true := by
        intro other hother
        rw [← htags] at hother
        exact hnames other (Namespace.mem_names_of_mem_refTags hother)
      have htexts := fun other hother => settled_name (isId_iff.mp (hvalid other hother)).2
      have hgrouped := settled_grouped_or (List.cons_ne_nil tag tags) fun other hother =>
        (htexts other hother).1
      rw [List.map_id'] at hgrouped
      have hlower : (Test.related r target).lower ns = grouped " or " (tag :: tags) := by
        change lowerRelated ns r = _
        unfold lowerRelated
        rw [Namespace.refTags_taxonomy, htags]
        exact anyOf_eq_grouped _
      have hloweredNames : (Test.related r target).loweredNames ns = tag :: tags := htags
      rw [hlower, hloweredNames]
      exact ⟨hgrouped.1,
        hgrouped.2.trans (forall₂_congr fun other hother => (htexts other hother).2)⟩

end Tests

/-- The lowered text of a filter that is read from a text is a filter exactly when the names that
it brings in are plain. -/
theorem exists_ofText?_lower_iff {ns : Namespace} {text : String} {f : Filter}
    (hread : Filter.ofText? text = .ok f) (hnames : ns.HasValidNames) :
    (∃ g, Filter.ofText? ((Node.filter f).lower ns).text = .ok g) ↔
      ∀ test ∈ Filter.tests f, ∀ name ∈ test.loweredNames ns, IsPlainName name := by
  have hspells := ofText?_eq_ok_iff.mp hread
  have hsettled := fun test htest =>
    Test.settled_lower (hspells.isScanned test htest) hnames
  have hiff := Filter.exists_ofText?_textWith_iff hspells.isProper fun test htest =>
    (hsettled test htest).1
  exact hiff.trans (forall₂_congr fun test htest => (hsettled test htest).2)

end TagFilter
