import TagFilter.Proofs.Filter.SameTests

/-!
# Literals that lex back

A value lexes back when its text is one literal of the same value.  A test whose path can be written
and whose literals lex back is read, from its text, as a test that holds of the same records, and
that has the same answer on whatever it is evaluated (`Test.exists_spells_answer`).
-/

namespace TagFilter

/-- The text of the value is read as one literal, of the same value. -/
def Value.LexesBack (v : Value) : Prop :=
  ∃ w, tokenize v.toText = .ok [.value w] ∧ w.same v = true

/-- A ref without a display name is read back as it is. -/
theorem Ref.written_eq_self {r : Ref} (h : r.display = none) : r.written = r := by
  obtain ⟨id, display⟩ := r
  cases h
  rfl

/-- The literals that a test compares values to or looks for. -/
def Test.literals : Test → List Value
  | .compare _ _ operand => [operand]
  | .related r target => (r.term.map Value.symbol).toList ++ (target.map Value.ref).toList
  | .reaches _ target => [.ref target]
  | _ => []

/-- The path of a test, its relationship or its type can be written. -/
def Test.HasPlainPath : Test → Prop
  | .has p | .missing p | .compare p _ _ | .reaches p _ => p.IsPlain
  | .isA type => isId type.name = true
  | .related r _ => IsPlainName r.name

section LexesBack

variable {v : Value}

/-- What a value that lexes back is read as. -/
theorem Value.LexesBack.exists_isScanned (h : v.LexesBack) : ∃ w : Value,
    w.IsScanned ∧ w.same v = true := by
  obtain ⟨w, htokens, hsame⟩ := h
  exact ⟨w, isScanned_of_tokenize htokens _ List.mem_cons_self, hsame⟩

theorem isId_of_lexesBack_symbol {s : Symbol} (h : (Value.symbol s).LexesBack) :
    isId s.name = true := by
  obtain ⟨w, hscanned, hsame⟩ := h.exists_isScanned
  cases w with
  | symbol other =>
    have heq : other = s := beq_iff_eq.mp hsame
    rw [← heq]
    exact hscanned
  | _ => cases hsame

theorem isId_of_lexesBack_ref {r : Ref} (h : (Value.ref r).LexesBack) : isId r.id = true := by
  obtain ⟨w, hscanned, hsame⟩ := h.exists_isScanned
  cases w with
  | ref other =>
    have heq : other.id = r.id := beq_iff_eq.mp hsame
    rw [← heq]
    exact hscanned
  | _ => cases hsame

end LexesBack

section Tests

variable {test : Test}

/-- The symbols and refs of a test can be written when they lex back. -/
theorem Test.hasPlainNames (hpath : test.HasPlainPath)
    (hliterals : ∀ v ∈ test.literals, v.LexesBack) : test.HasPlainNames := by
  cases test with
  | has p | missing p | compare p op operand | isA type => exact hpath
  | related r target =>
    refine ⟨hpath, fun term hterm => ?_, fun t ht => ?_⟩
    · have hmem : Value.symbol term ∈ (r.term.map Value.symbol).toList := by
        rw [hterm]
        exact List.mem_cons_self
      exact isId_of_lexesBack_symbol (hliterals _ (List.mem_append_left _ hmem))
    · have hmem : Value.ref t ∈ (target.map Value.ref).toList := by
        rw [ht]
        exact List.mem_cons_self
      exact isId_of_lexesBack_ref (hliterals _ (List.mem_append_right _ hmem))
  | reaches p target => exact ⟨hpath, isId_of_lexesBack_ref (hliterals _ List.mem_cons_self)⟩

/-- The operand of a test is one of its literals. -/
theorem Test.operand_mem_literals {v : Value} (h : v ∈ test.operand?) : v ∈ test.literals := by
  cases test with
  | compare p op operand =>
    cases h
    exact List.mem_cons_self
  | _ => cases h

/-- A test whose operand lexes back is read as the same test, with its literals read back. -/
theorem Test.exists_reread (hnames : test.HasPlainNames)
    (hoperand : ∀ v ∈ test.operand?, v.LexesBack) :
    ∃ read : Value → Value, SpellsTerm test.toText (.test (test.reread read)) ∧
      (test.reread read).same test = true := by
  have hread : ∃ read : Value → Value, ∀ v ∈ test.operand?,
      tokenize v.toText = .ok [.value (read v)] ∧ (read v).same v = true := by
    cases hcase : test.operand? with
    | none => exact ⟨id, fun v hv => absurd hv (Option.not_mem_none v)⟩
    | some v =>
      obtain ⟨w, htokens, hsame⟩ := hoperand v hcase
      refine ⟨fun _ => w, ?_⟩
      rintro _ ⟨⟩
      exact ⟨htokens, hsame⟩
  obtain ⟨read, hread⟩ := hread
  refine ⟨read, Test.spells hnames fun v hv => (hread v hv).1, Test.same_reread ?_ fun _ => rfl⟩
  rintro p op v rfl
  exact ⟨v, rfl, (hread v rfl).2⟩

/-- A test whose operand lexes back is read as the same test. -/
theorem Test.exists_spells_same (hnames : test.HasPlainNames)
    (hoperand : ∀ v ∈ test.operand?, v.LexesBack) :
    ∃ other : Test, SpellsTerm test.toText (.test other) ∧ other.same test = true := by
  obtain ⟨read, hspells, hsame⟩ := Test.exists_reread hnames hoperand
  exact ⟨test.reread read, hspells, hsame⟩

/-- The text of a relationship test leaves out the display name of the ref that it looks for.  There
is none, or the namespace tells refs apart by their ids. -/
def Test.IsFullyWritten (s : Setting) (test : Test) : Prop :=
  s.IgnoresDisplays ∨ ∀ target ∈ test.target?, target.display = none

/-- A test whose operand lexes back is read as a test with the same answer. -/
theorem Test.exists_spells_answer (hnames : test.HasPlainNames)
    (hoperand : ∀ v ∈ test.operand?, v.LexesBack) :
    ∃ other : Test, SpellsTerm test.toText (.test other) ∧
      ∀ s, test.IsFullyWritten s → other.answer s = test.answer s := by
  obtain ⟨read, hspells, hsame⟩ := Test.exists_reread hnames hoperand
  refine ⟨test.reread read, hspells, fun s hs => Test.answer_of_same hsame (hs.imp_right ?_)⟩
  intro hbare
  cases test with
  | related r target =>
    cases target with
    | none => rfl
    | some target => exact congrArg some (Ref.written_eq_self (hbare target rfl))
  | _ => rfl

/-- A test whose operand lexes back is read as a test that holds of the same records. -/
theorem Test.exists_spells (hnames : test.HasPlainNames)
    (hoperand : ∀ v ∈ test.operand?, v.LexesBack) :
    ∃ other : Test, SpellsTerm test.toText (.test other) ∧
      ∀ cx, other.holds cx = test.holds cx := by
  obtain ⟨other, hspells, hsame⟩ := Test.exists_spells_same hnames hoperand
  exact ⟨other, hspells, Test.holds_of_same hsame⟩

end Tests

end TagFilter
