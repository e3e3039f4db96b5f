import TagFilter.Proofs.Filter.Equivalence
import TagFilter.Proofs.Filter.Groups
import TagFilter.Proofs.Filter.LexesBack

/-!
# Canonical texts determine filters

A filter need not come from a text: it may be put together from any terms.  When no group and no
conjunction in it is empty, its names can be written and its operands lex back, its canonical text
is read as the same filter.  Two such filters therefore have the same canonical text only when they
are the same.
-/

namespace TagFilter

/-- Everything in the filter can be written. -/
structure Filter.IsWritable (f : Filter) : Prop where
  /-- No group and no conjunction is without parts. -/
  proper : Filter.IsProper f
  /-- The names, symbols and refs can be written. -/
  names : ∀ test ∈ Filter.tests f, test.HasPlainNames
  /-- The operands of comparisons lex back. -/
  operands : ∀ test ∈ Filter.tests f, ∀ v ∈ test.operand?, v.LexesBack

namespace Filter.IsWritable

variable {f : Filter}

/-- The canonical text of a writable filter spells the same filter. -/
theorem exists_spells_same (h : IsWritable f) :
    ∃ g, SpellsFilter (Filter.toText f) g ∧ sameFilter g f = true := by
  have hread : ∀ test ∈ Filter.tests f, ∃ t, SpellsTerm test.toText t ∧
      ∃ other : Test, t = .test other ∧ other.same test = true := by
    intro test htest
    obtain ⟨other, hspells, hsame⟩ :=
      Test.exists_spells_same (h.names test htest) (h.operands test htest)
    exact ⟨.test other, hspells, other, rfl, hsame⟩
  obtain ⟨read, hspells, hsame⟩ := Filter.exists_spells h.proper hread
  refine ⟨Filter.bind read f, hspells, Filter.same_bind_self fun test htest => ?_⟩
  obtain ⟨other, heq, hother⟩ := hsame test htest
  rw [heq]
  exact hother

/-- The canonical text of a writable filter is read as the same filter, and no other writable filter
has that text. -/
theorem ofText?_toText_same (h : IsWritable f) :
    (∃ g, Filter.ofText? (Filter.toText f) = .ok g ∧ sameFilter g f = true) ∧
      ∀ other, IsWritable other → Filter.toText other = Filter.toText f →
        sameFilter other f = true := by
  obtain ⟨g, hspells, hsame⟩ := h.exists_spells_same
  have hread := ofText?_eq_ok_iff.mpr hspells
  refine ⟨⟨g, hread, hsame⟩, fun other hother htext => ?_⟩
  obtain ⟨g', hspells', hsame'⟩ := hother.exists_spells_same
  have hread' := ofText?_eq_ok_iff.mpr hspells'
  rw [htext, hread] at hread'
  cases hread'
  exact sameFilter_trans (sameFilter_symm hsame') hsame

end Filter.IsWritable

/-- A text with parentheses in it, next to a group of a negated path and a relationship. -/
def quotedParentheses : Filter :=
  [[.test (.compare (.single "dis") .equal (.str "a) or (b")),
    .group [[.test (.missing ⟨"siteRef", ["occupied"]⟩)],
      [.test (.related ⟨"inputs", some ⟨"elec"⟩⟩ (some ⟨"m1", some "Meter"⟩))]]]]

theorem ofText?_toText_quotedParentheses :
    ∃ g, Filter.ofText? (Filter.toText quotedParentheses) = .ok g ∧
      sameFilter g quotedParentheses = true := by
  have hproper : Filter.IsProper quotedParentheses := by
    simp [quotedParentheses, Filter.IsProper, Term.IsProper]
  have hnames : ∀ test ∈ Filter.tests quotedParentheses, test.HasPlainNames := by
    rintro test (_ | ⟨_, _ | ⟨_, _ | ⟨_, h⟩⟩⟩)
    · exact Path.isPlain_single (by decide)
    · exact ⟨by decide, by decide⟩
    · exact ⟨by decide, by decide, by decide⟩
    · cases h
  have hoperands : ∀ test ∈ Filter.tests quotedParentheses, ∀ v ∈ test.operand?,
      v.LexesBack := by
    rintro test (_ | ⟨_, _ | ⟨_, _ | ⟨_, h⟩⟩⟩) v hv
    · cases hv
      exact ⟨_, tokenize_quoteString "a) or (b", by decide⟩
    · cases hv
    · cases hv
    · cases h
  exact (Filter.IsWritable.ofText?_toText_same ⟨hproper, hnames, hoperands⟩).1

end TagFilter
