import TagFilter.Evaluation
import TagFilter.Implied
import TagFilter.Proofs.Value.Sameness

/-!
# The same tests

Tests that are the same differ in the display names of refs and in their operands, up to sameness
(`Test.SameForm`).  Neither shows in a text, in the lowered or in the expanded text, for whatever
namespace.  Neither changes the answer of a test, as long as the namespace tells refs apart by their
ids alone; this is what a set of defs does (`Namespace.ignoresDisplays`).
-/

namespace TagFilter

/-- Two tests of one form, with the same operands, and with refs to the same records. -/
inductive Test.SameForm : Test → Test → Prop where
  | has (p : Path) : SameForm (.has p) (.has p)
  | missing (p : Path) : SameForm (.missing p) (.missing p)
  | compare (p : Path) (op : Comparison) {v w : Value} (h : v.same w = true) :
    SameForm (.compare p op v) (.compare p op w)
  | isA (type : Symbol) : SameForm (.isA type) (.isA type)
  | related (r : Relationship) {s t : Option Ref} (h : s.map Ref.id = t.map Ref.id) :
    SameForm (.related r s) (.related r t)
  | reaches (p : Path) {s t : Ref} (h : s.id = t.id) : SameForm (.reaches p s) (.reaches p t)

section Same

variable {a b : Test}

/-- Tests that are the same have the same form. -/
theorem Test.sameForm_of_same (h : a.same b = true) : a.SameForm b := by
  cases a <;> cases b <;> first | exact absurd h Bool.false_ne_true | skip
  case has p q =>
    obtain rfl : p = q := beq_iff_eq.mp h
    exact .has p
  case missing p q =>
    obtain rfl : p = q := beq_iff_eq.mp h
    exact .missing p
  case compare p op v q op' w =>
    simp only [Test.same, Bool.and_eq_true, beq_iff_eq] at h
    obtain ⟨⟨rfl, rfl⟩, hsame⟩ := h
    exact .compare p op hsame
  case isA type other =>
    obtain rfl : type = other := beq_iff_eq.mp h
    exact .isA type
  case related r target q target' =>
    simp only [Test.same, Bool.and_eq_true, beq_iff_eq] at h
    obtain ⟨rfl, htarget⟩ := h
    exact .related r (sameTarget_iff.mp htarget)
  case reaches p target q target' =>
    simp only [Test.same, Bool.and_eq_true, beq_iff_eq] at h
    obtain ⟨rfl, hid⟩ := h
    exact .reaches p hid

/-! ### Texts -/

theorem Ref.toText_congr {s t : Ref} (h : s.id = t.id) : s.toText = t.toText :=
  congrArg ("@" ++ ·) h

theorem relatedText_congr {s t : Option Ref} (h : s.map Ref.id = t.map Ref.id) (r : Relationship) :
    relatedText r s = relatedText r t := by
  cases s with
  | none =>
    cases t with
    | none => rfl
    | some t => cases h
  | some s =>
    cases t with
    | none => cases h
    | some t =>
      unfold relatedText
      simp only [Ref.toText_congr (Option.some.inj h)]

/-- Tests that are the same have the same text. -/
theorem Test.toText_of_same (h : a.same b = true) : a.toText = b.toText := by
  cases sameForm_of_same h with
  | has | missing | isA => rfl
  | compare p op hsame =>
    unfold toText
    simp only [Value.toText_of_same hsame]
  | related r htarget => exact relatedText_congr htarget r
  | reaches p hid =>
    unfold toText
    simp only [Ref.toText_congr hid]

/-- Tests that are the same have the same expanded text, or none both. -/
theorem Test.expand_of_same (h : a.same b = true) (ns : Taxonomy) :
    a.expand ns = b.expand ns := by
  cases sameForm_of_same h with
  | has | missing | isA => rfl
  | compare p op hsame =>
    simp only [Test.expand, toText, Value.toText_of_same hsame]
  | related r htarget =>
    simp only [Test.expand, relatedText_congr htarget]
  | reaches p hid =>
    simp only [Test.expand, toText, Ref.toText_congr hid]

/-! ### Answers -/

/-- A set of defs tells refs apart by their ids alone. -/
theorem Namespace.ignoresDisplays (ns : Namespace) : (ns : Taxonomy).IgnoresDisplays := by
  intro subject r resolver s t h
  change ns.isRelated? _ = ns.isRelated? _
  cases s with
  | none =>
    cases t with
    | none => rfl
    | some t => cases h
  | some s =>
    cases t with
    | none => cases h
    | some t =>
      unfold Namespace.isRelated?
      simp only [Option.some.inj h]

theorem Context.ignoresDisplays (cx : Context) : cx.setting.IgnoresDisplays := by
  intro ns hns
  obtain ⟨types, -, rfl⟩ := Option.map_eq_some_iff.mp hns
  exact types.ignoresDisplays

/-- The ref that a relationship test looks for. -/
def Test.target? : Test → Option Ref
  | .related _ target => target
  | _ => none

/-- Tests that are the same have the same answer, or none both. -/
theorem Test.answer_of_same (h : a.same b = true) {s : Setting}
    (hs : s.IgnoresDisplays ∨ a.target? = b.target?) : a.answer s = b.answer s := by
  cases sameForm_of_same h with
  | has | missing | isA => rfl
  | compare p op hsame =>
    unfold answer
    simp only [Value.kind_of_same hsame, Comparison.holds_of_same hsame]
  | related r htarget =>
    rcases hs with hs | rfl
    · unfold answer
      cases htypes : s.types with
      | none => rfl
      | some ns => exact hs ns htypes s.record r s.resolver htarget
    · rfl
  | reaches p hid =>
    unfold answer
    simp only [hid]

/-- Tests that are the same hold of the same records. -/
theorem Test.holds_of_same (h : a.same b = true) (cx : Context) : a.holds cx = b.holds cx := by
  have hanswer := Test.answer_of_same h (Or.inl cx.ignoresDisplays)
  rw [a.answer_eq_some, b.answer_eq_some] at hanswer
  exact Option.some.inj hanswer

end Same

end TagFilter
