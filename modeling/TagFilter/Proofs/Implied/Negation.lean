import TagFilter.Proofs.Implied.Expansion

/-!
# Expansion of negated paths

The expansion of a negated path swaps the connectives of the expansion of the path, at every level.
Both are read as filters, and whatever these are evaluated on, the one holds and the other does not
(`holds_expand_missing`), however the tags imply each other.  Both always have an answer, since they
follow paths and do not search.

No comparison of the two texts is needed for this.  Each expansion cuts the same branches, and says
that a name is derivable or that it is not (`Test.impliedHolds_iff`).
-/

namespace TagFilter

section LoneTest

variable {ns : Namespace}

/-- The expanded text of a lone test whose expansion asks only for what always has an answer.  It is
read as a filter that always answers what the test says when tags are implied by others. -/
theorem Test.exists_ofText?_expand_lone {test : Test} (h : test.IsExpandable ns)
    (htarget : test.target? = none) (hsettled : ∀ s, test.IsSettled ns s) :
    ∃ text g, (Node.filter [[.test test]]).expand ns = some text ∧ Filter.ofText? text = .ok g ∧
      ∀ s, ∃ answer, Filter.answer s g = some answer ∧
        (answer = true ↔ test.ImpliedHolds ns s) := by
  obtain ⟨text, g, hexpand, hread, hall⟩ := @exists_ofText?_expand_of_settings ns
    (.filter [[.test test]]) (Filter.isProper_lone test) (List.forall_mem_singleton.mpr h)
  refine ⟨text, g, hexpand, hread, fun s => ?_⟩
  have hwritten : test.IsFullyWritten s := by
    refine Or.inr fun target hmem => ?_
    rw [htarget] at hmem
    exact absurd hmem (Option.not_mem_none target)
  obtain ⟨hright, hthere⟩ := hall s (List.forall_mem_singleton.mpr hwritten)
  obtain ⟨answer, hanswer⟩ := Option.isSome_iff_exists.mp
    (hthere (List.forall_mem_singleton.mpr (hsettled s)))
  exact ⟨answer, hanswer, (hright answer hanswer).trans Filter.means_lone⟩

variable {p : Path} (hnames : ∀ name, ns.MetFrom p.head name → IsPlainName name)
  (htail : ∀ name ∈ p.tail, isTagName name = true)

include hnames htail

theorem Test.isExpandable_has : (Test.has p).IsExpandable ns :=
  ⟨List.forall_mem_singleton.mpr hnames, htail, List.forall_mem_nil _⟩

theorem Test.isExpandable_missing : (Test.missing p).IsExpandable ns :=
  ⟨List.forall_mem_singleton.mpr hnames, htail, List.forall_mem_nil _⟩

end LoneTest

/-- A path and its negation are read from their texts, and have expanded texts that are read as
filters.  Whatever these are evaluated on, with any namespace and any resolver, both have an answer,
and the one answer is the opposite of the other. -/
theorem holds_expand_missing {ns : Namespace} {p : Path}
    (hnames : ∀ name, ns.MetFrom p.head name → IsPlainName name)
    (htail : ∀ name ∈ p.tail, isTagName name = true) :
    Filter.ofText? p.toText = .ok [[.test (.has p)]] ∧
    Filter.ofText? ("not " ++ p.toText) = .ok [[.test (.missing p)]] ∧
    ∃ text text' g g', (Node.filter [[.test (.has p)]]).expand ns = some text ∧
      (Node.filter [[.test (.missing p)]]).expand ns = some text' ∧
      Filter.ofText? text = .ok g ∧ Filter.ofText? text' = .ok g' ∧
      ∀ s : Setting, ∃ answer, Filter.answer s g = some answer ∧
        Filter.answer s g' = some (!answer) := by
  have hplain : p.IsPlain := ⟨hnames p.head Relation.ReflTransGen.refl, htail⟩
  obtain ⟨text, g, hexpand, hread, hanswer⟩ := Test.exists_ofText?_expand_lone
    (Test.isExpandable_has hnames htail) rfl fun _ _ _ _ _ => rfl
  obtain ⟨text', g', hexpand', hread', hanswer'⟩ := Test.exists_ofText?_expand_lone
    (Test.isExpandable_missing hnames htail) rfl fun _ _ _ _ _ => rfl
  refine ⟨ofText?_eq_ok_iff.mpr (spells_has hplain).conjunction.filter,
    ofText?_eq_ok_iff.mpr (spells_missing hplain).conjunction.filter, text, text', g, g', hexpand,
    hexpand', hread, hread', fun s => ?_⟩
  obtain ⟨answer, hsome, hiff⟩ := hanswer s
  obtain ⟨answer', hsome', hiff'⟩ := hanswer' s
  have hdual : (Test.missing p).ImpliedHolds ns s ↔ ¬ (Test.has p).ImpliedHolds ns s := Iff.rfl
  rw [hdual, ← hiff, Bool.not_eq_true] at hiff'
  obtain rfl : answer' = !answer := by
    cases answer <;> simpa using hiff'
  exact ⟨answer, hsome, hsome'⟩

/-- Heating is implied by steam and warm water, and warm water by heating and steam. -/
def heatingTags : Namespace where
  defs := ⟨[("heating", ⟨[("def", .symbol ⟨"heating"⟩),
      ("impliedBy", .list [.symbol ⟨"steam"⟩, .symbol ⟨"warmWater"⟩])]⟩),
    ("warmWater", ⟨[("def", .symbol ⟨"warmWater"⟩),
      ("impliedBy", .list [.symbol ⟨"heating"⟩, .symbol ⟨"steam"⟩])]⟩)]⟩

theorem holds_expand_missing_heating :
    ∃ text text' g g', (Node.filter [[.test (.has (.single "heating"))]]).expand heatingTags =
        some text ∧
      (Node.filter [[.test (.missing (.single "heating"))]]).expand heatingTags = some text' ∧
      Filter.ofText? text = .ok g ∧ Filter.ofText? text' = .ok g' ∧
      ∀ resolver : Option Resolver,
        Filter.answer ⟨⟨[("steam", .marker), ("warmWater", .marker)]⟩, none, resolver⟩ g =
          some true ∧
        Filter.answer ⟨⟨[("steam", .marker), ("warmWater", .marker)]⟩, none, resolver⟩ g' =
          some false := by
  have hplain : ∀ name ∈ ["heating", "steam", "warmWater"], IsPlainName name := by decide
  have hnames : ∀ name, heatingTags.MetFrom "heating" name → IsPlainName name := fun name hname =>
    hplain name (hname.mem_of_closed List.mem_cons_self (by decide))
  obtain ⟨text, g, hexpand, hread, hanswer⟩ := Test.exists_ofText?_expand_lone
    (@Test.isExpandable_has _ (.single "heating") hnames (List.forall_mem_nil _)) rfl
    fun _ _ _ _ _ => rfl
  obtain ⟨-, -, other, text', f, g', hexpand', hmissing, hother, hread', hdual⟩ :=
    @holds_expand_missing heatingTags (.single "heating") hnames (List.forall_mem_nil _)
  obtain rfl : text = other := Option.some.inj (hexpand.symm.trans hexpand')
  obtain rfl : g = f := Except.ok.inj (hread.symm.trans hother)
  refine ⟨text, text', g, g', hexpand, hmissing, hread, hread', fun resolver => ?_⟩
  obtain ⟨answer, hsome, hiff⟩ :=
    hanswer ⟨⟨[("steam", .marker), ("warmWater", .marker)]⟩, none, resolver⟩
  obtain ⟨same, hsame, hnegated⟩ :=
    hdual ⟨⟨[("steam", .marker), ("warmWater", .marker)]⟩, none, resolver⟩
  obtain rfl : answer = same := Option.some.inj (hsome.symm.trans hsame)
  have htrue : answer = true := by
    refine hiff.mpr (.implied (List.cons_ne_nil "steam" ["warmWater"]) ?_)
    exact List.forall_mem_cons.mpr ⟨.test rfl, List.forall_mem_singleton.mpr (.test rfl)⟩
  rw [htrue] at hsome hnegated
  exact ⟨hsome, hnegated⟩

end TagFilter
