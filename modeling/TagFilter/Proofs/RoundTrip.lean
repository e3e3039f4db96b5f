import TagFilter.Proofs.Filter.Sameness

/-!
# Reading canonical texts

The canonical text of a filter that was read from a text is read as the same filter, up to the units
of numbers that are not finite: such a unit has no written form.  The canonical text of what is read
is the canonical text again.
-/

namespace TagFilter

/-! ### What is written of a value -/

/-- The number without a unit that is not written. -/
def Number.withWrittenUnit (n : Number) : Number where
  magnitude := n.magnitude
  unit := if n.magnitude.isFinite then n.unit else none

/-- The value without a unit that is not written. -/
def Value.withWrittenUnit : Value → Value
  | .number n => .number n.withWrittenUnit
  | v => v

/-- The test without a unit that is not written. -/
def Test.withWrittenUnit : Test → Test
  | .compare p op operand => .compare p op operand.withWrittenUnit
  | test => test

/-- The unit of the number, if it has one, is written. -/
def Number.WritesUnit (n : Number) : Prop :=
  n.magnitude.isFinite = true ∨ n.unit = none

/-- The number of which a test compares values to, if its operand is one. -/
def Test.number? (test : Test) : Option Number :=
  match test.operand? with
  | some (.number n) => some n
  | _ => none

theorem Number.withWrittenUnit_eq_self {n : Number} (h : n.WritesUnit) : n.withWrittenUnit = n := by
  obtain ⟨magnitude, unit⟩ := n
  unfold withWrittenUnit
  rcases h with hfinite | hunit
  · simp only at hfinite ⊢
    rw [if_pos hfinite]
  · simp only at hunit ⊢
    rw [hunit, ite_self]

theorem Test.withWrittenUnit_eq_self {test : Test} (h : ∀ n ∈ test.number?, n.WritesUnit) :
    test.withWrittenUnit = test := by
  cases test with
  | compare p op operand =>
    cases operand with
    | number n =>
      have hnumber := Number.withWrittenUnit_eq_self (h n rfl)
      simp only [withWrittenUnit, Value.withWrittenUnit, hnumber]
    | _ => rfl
  | _ => rfl

/-- The number that is read back is the same as the one that was written. -/
theorem Number.same_written (n : Number) : n.written.same n.withWrittenUnit = true := by
  rw [Number.same_iff]
  refine ⟨?_, rfl⟩
  unfold Number.written Number.withWrittenUnit
  simp only
  split
  · next hkey =>
    rw [hkey]
    rfl
  · rfl

/-- The written form of the number that is read back is the written form of the number. -/
theorem Number.toText_written (n : Number) : n.written.toText = n.toText := by
  obtain ⟨magnitude, unit⟩ := n
  have hfinite : (if magnitude.key = 0 then Magnitude.zero else magnitude).isFinite =
      magnitude.isFinite := by
    split
    · next hkey =>
      cases magnitude with
      | finite negative rank => rfl
      | infinite negative => cases negative <;> cases hkey
      | nan => cases hkey
    · rfl
  have hdigits : magnitudeText (if magnitude.key = 0 then Magnitude.zero else magnitude) =
      magnitudeText magnitude := by
    split
    · next hkey =>
      unfold magnitudeText
      rw [if_pos hkey]
      rfl
    · rfl
  unfold Number.written Number.toText
  simp only [hfinite, hdigits]
  cases unit with
  | none =>
    rw [ite_self]
  | some unit =>
    split
    · next hsome =>
      split at hsome
      · next h =>
        cases hsome
        rfl
      · cases hsome
    · next hnone =>
      split at hnone
      · cases hnone
      · next h => rw [if_neg h]

theorem Value.toText_written (v : Value) : v.written.toText = v.toText := by
  cases v with
  | number n => exact n.toText_written
  | _ => rfl

/-- The value that is read back is the same as the one that was written. -/
theorem Value.same_written {v : Value} (h : v.IsLiteral) :
    v.written.same v.withWrittenUnit = true := by
  cases v with
  | number n => exact n.same_written
  | marker | list | dict => exact h.elim
  | _ => exact beq_self_eq_true _

/-- The text of the test that is read back is the text of the test. -/
theorem Test.toText_reread (test : Test) : (test.reread Value.written).toText = test.toText := by
  cases test with
  | compare p op operand =>
    simp only [reread, toText, Value.toText_written]
  | related r target =>
    cases target with
    | none => rfl
    | some target => rfl
  | _ => rfl

/-! ### Filters -/

/-- A literal that was scanned has a literal unless its unit begins with an underscore. -/
theorem Test.isLiteral_of_isScanned {test : Test} (h : test.IsScanned)
    (hplain : ∀ n ∈ test.number?, n.HasPlainUnit) : ∀ v ∈ test.operand?, v.IsLiteral := by
  intro v hv
  have hscanned := h.2 v hv
  cases v with
  | number n =>
    have hnumber : test.number? = some n := by
      unfold Test.number?
      rw [Option.mem_def.mp hv]
    exact Number.isLiteral_of_hasPlainUnit hscanned (hplain n hnumber)
  | _ => exact hscanned

theorem Test.same_reread_written {test : Test} (h : ∀ v ∈ test.operand?, v.IsLiteral) :
    (test.reread Value.written).same test.withWrittenUnit = true := by
  refine Test.same_reread ?_ ?_
  · rintro p op v rfl
    exact ⟨v.withWrittenUnit, rfl, Value.same_written (h v rfl)⟩
  · intro hnone
    cases test with
    | compare => cases hnone
    | _ => rfl

/-- The text of a filter depends on the texts of its tests only. -/
theorem Filter.toText_mapTests {change : Test → Test} {f : Filter}
    (h : ∀ test ∈ Filter.tests f, (change test).toText = test.toText) :
    Filter.toText (Filter.mapTests change f) = Filter.toText f := by
  unfold Filter.toText Filter.mapTests
  rw [Filter.textWith_bind]
  exact Filter.textWith_congr h

/-- The canonical text of a filter that is read from a text is read as the same filter, but for the
units of numbers that are not finite, and has itself as its canonical text. -/
theorem ofText?_toText {text : String} {f : Filter} (h : Filter.ofText? text = .ok f)
    (hplain : ∀ test ∈ Filter.tests f, ∀ n ∈ test.number?, n.HasPlainUnit) :
    ∃ g, Filter.ofText? (Filter.toText f) = .ok g ∧
      sameFilter g (Filter.mapTests Test.withWrittenUnit f) = true ∧
      Filter.toText g = Filter.toText f ∧
      ((∀ test ∈ Filter.tests f, ∀ n ∈ test.number?, n.WritesUnit) → sameFilter g f = true) := by
  have hspells := ofText?_eq_ok_iff.mp h
  have hliteral : ∀ test ∈ Filter.tests f, ∀ v ∈ test.operand?, v.IsLiteral := fun test htest =>
    Test.isLiteral_of_isScanned (hspells.isScanned test htest) (hplain test htest)
  have hreread : SpellsFilter (Filter.toText f)
      (Filter.mapTests (Test.reread Value.written) f) := by
    refine Filter.spells_textWith hspells.isProper fun test htest => ?_
    exact Test.spells (hspells.isScanned test htest).1 fun v hv =>
      Value.tokenize_toText (hliteral test htest v hv)
  have hsame : sameFilter (Filter.mapTests (Test.reread Value.written) f)
      (Filter.mapTests Test.withWrittenUnit f) = true :=
    Filter.same_mapTests fun test htest => Test.same_reread_written (hliteral test htest)
  refine ⟨_, ofText?_eq_ok_iff.mpr hreread, hsame, ?_, ?_⟩
  · exact Filter.toText_mapTests fun test _ => test.toText_reread
  · intro hunits
    have hself : Filter.mapTests Test.withWrittenUnit f = f :=
      Filter.mapTests_eq_self fun test htest => Test.withWrittenUnit_eq_self (hunits test htest)
    rwa [hself] at hsame

theorem ofText?_toText_kilowatts :
    ∃ f g, Filter.ofText? "power > 5kW" = .ok f ∧ Filter.ofText? (Filter.toText f) = .ok g ∧
      sameFilter g f = true := by
  have htext : "power > 5kW" = "power" ++ " " ++ Comparison.greater.toText ++ " " ++ "5kW" := rfl
  obtain ⟨five, hnumber, hfinite⟩ : ∃ five : Magnitude,
      tokenize "5kW" = .ok [.value (.number ⟨five, some "kW"⟩)] ∧ five.isFinite = true :=
    ⟨.ofDecimal ⟨false, 5, 0⟩, tokenize_of_scan rfl, by decide +kernel⟩
  have htokens := tokenize_append_blank
    (tokenize_append_blank (tokenize_name (show IsPlainName "power" by decide))
      (tokenize_comparison .greater)) hnumber
  have hfilter : Filter.ofText? "power > 5kW" = .ok [[.test (.compare (.single "power") .greater
      (.number ⟨five, some "kW"⟩))]] := by
    rw [ofText?_eq_ok_iff, htext]
    exact ⟨.single (.single (.compare (.name "power") _ _)), htokens, rfl⟩
  obtain ⟨g, hg, -, -, hsame⟩ := ofText?_toText hfilter (by
    intro test htest n hn _ unit hunit
    cases List.mem_singleton.mp htest
    cases hn
    cases hunit
    decide)
  refine ⟨_, g, hfilter, hg, hsame ?_⟩
  intro test htest n hn
  cases List.mem_singleton.mp htest
  cases hn
  exact Or.inl hfinite

/-- A number beyond all finite ones is read without the unit that it was given. -/
theorem toText_infinite_kilowatts :
    ∃ f g, Filter.ofText? "x == 1e400kW" = .ok f ∧ Filter.ofText? (Filter.toText f) = .ok g ∧
      sameFilter g f = false := by
  have hx : tokenize "x" = .ok [.name "x"] := tokenize_name (by decide)
  have hequal := tokenize_append_blank hx (tokenize_comparison .equal)
  have hlarge : tokenize "1e400kW" = .ok [.value (.number ⟨.infinite false, some "kW"⟩)] :=
    tokenize_of_scan rfl
  have hinfinite : tokenize "INF" = .ok [.value (.number ⟨.infinite false, none⟩)] :=
    tokenize_of_scan rfl
  refine ⟨[[.test (.compare (.single "x") .equal (.number ⟨.infinite false, some "kW"⟩))]],
    [[.test (.compare (.single "x") .equal (.number ⟨.infinite false, none⟩))]], ?_, ?_, rfl⟩
  · have htext : "x == 1e400kW" = "x" ++ " " ++ Comparison.equal.toText ++ " " ++ "1e400kW" := rfl
    rw [ofText?_eq_ok_iff, htext]
    exact ⟨.single (.single (.compare (.name "x") _ _)), tokenize_append_blank hequal hlarge, rfl⟩
  · have htext : Filter.toText
        [[.test (.compare (.single "x") .equal (.number ⟨.infinite false, some "kW"⟩))]] =
        "x" ++ " " ++ Comparison.equal.toText ++ " " ++ "INF" := rfl
    rw [ofText?_eq_ok_iff, htext]
    have htokens := tokenize_append_blank hequal hinfinite
    exact ⟨.single (.single (.compare (.name "x") _ _)), htokens, rfl⟩

end TagFilter
