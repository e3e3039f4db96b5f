import Mathlib.Order.Defs.LinearOrder
import TagFilter.Proofs.Filter.Equivalence

/-!
# The order of values

Values are totally preordered, across kinds too, and sameness is an equivalence.  On values of one
kind that are neither lists nor records both agree: such values are the same exactly when neither
comes before the other, so that one of `<`, `==` and `>` holds between them and the other operators
follow from these (`Value.compare_coherent`).

The order is that of several keys, one after the other: the place of the kind, and then what a value
of the kind holds (`Value.compare_eq_compareLex`).  A key is missing from values of another kind,
but two such values differ in the first key already, or the key is missing from both.
-/

namespace TagFilter

/-! ### Orders of single kinds -/

instance : Ord Number := ⟨Number.compare⟩

instance : Ord Date := ⟨Date.compare⟩

instance : Ord TimeOfDay := ⟨TimeOfDay.compare⟩

instance : Std.TransOrd Number := by
  have hkeys : (compare : Number → Number → Ordering) =
      compareLex (compareOn fun n => n.magnitude.key) (compareOn Number.unit) := by
    funext a b
    change (a.magnitude.compare b.magnitude).then (compareText? a.unit b.unit) = _
    rw [compareText?_eq_compare]
    rfl
  unfold Std.TransOrd
  rw [hkeys]
  infer_instance

instance : Std.TransOrd Date :=
  inferInstanceAs (Std.TransCmp (compareLex (compareOn Date.year)
    (compareLex (compareOn Date.month) (compareOn Date.day))))

instance : Std.TransOrd TimeOfDay :=
  inferInstanceAs (Std.TransCmp (compareLex (compareOn TimeOfDay.hour)
    (compareLex (compareOn TimeOfDay.minute)
      (compareLex (compareOn TimeOfDay.second) (compareOn TimeOfDay.nanosecond)))))

theorem Date.compare_eq_eq_iff {a b : Date} : a.compare b = .eq ↔ a = b := by
  obtain ⟨year, month, day⟩ := a
  obtain ⟨year', month', day'⟩ := b
  unfold Date.compare
  simp only [Ordering.then_eq_eq, Std.compare_eq_eq_iff_eq, Date.mk.injEq]

theorem TimeOfDay.compare_eq_eq_iff {a b : TimeOfDay} : a.compare b = .eq ↔ a = b := by
  obtain ⟨hour, minute, second, nanosecond⟩ := a
  obtain ⟨hour', minute', second', nanosecond'⟩ := b
  unfold TimeOfDay.compare
  simp only [Ordering.then_eq_eq, Std.compare_eq_eq_iff_eq, TimeOfDay.mk.injEq]

/-! ### The order of all values -/

namespace Value

/-- The truth value that a value is, as a number. -/
def bit? : Value → Option Nat
  | .bool b => some b.toNat
  | _ => none

/-- The number that a value is. -/
def number? : Value → Option Number
  | .number n => some n
  | _ => none

/-- The text by which a text or a name is ordered. -/
def orderText? : Value → Option String
  | .str text => some text
  | .ref r => some r.id
  | .symbol s => some s.name
  | .uri u => some u.text
  | _ => none

/-- The day that a value is. -/
def date? : Value → Option Date
  | .date d => some d
  | _ => none

/-- The time of day that a value is. -/
def time? : Value → Option TimeOfDay
  | .time t => some t
  | _ => none

/-- Values are ordered by kind, and within a kind by what they hold. -/
theorem compare_eq_compareLex :
    Value.compare = compareLex (compareOn fun v => v.kind.place)
      (compareLex (compareOn bit?) (compareLex (compareOn number?)
        (compareLex (compareOn orderText?) (compareLex (compareOn date?) (compareOn time?))))) := by
  funext a b
  cases a <;> cases b
  -- of one kind that holds something, only the key of this kind counts
  case bool.bool | number.number | str.str | date.date | ref.ref | symbol.symbol | uri.uri =>
    exact Ordering.then_eq.symm
  all_goals rfl

instance : Std.TransCmp Value.compare := by
  rw [compare_eq_compareLex]
  infer_instance

/-! ### Order and sameness -/

/-- Sameness of values is an equivalence. -/
theorem equivalence_same : Equivalence fun a b : Value => a.same b = true where
  refl := same_refl
  symm := same_symm
  trans := same_trans

/-- Of one kind, values that are no lists and no records are the same when neither comes before the
other. -/
theorem same_iff_compare_eq {a b : Value} (hkind : a.kind = b.kind) (ha : a.IsAtom) :
    a.same b = true ↔ a.compare b = .eq := by
  cases a <;> cases b <;> cases hkind
  case list.list | dict.dict => exact ha.elim
  case marker.marker => exact iff_of_true rfl rfl
  case bool.bool a b => cases a <;> cases b <;> decide
  case number.number => exact beq_iff_eq
  case date.date => exact beq_iff_eq.trans Date.compare_eq_eq_iff.symm
  case time.time => exact beq_iff_eq.trans TimeOfDay.compare_eq_eq_iff.symm
  case str.str | ref.ref => exact beq_iff_eq.trans compareText_eq_iff.symm
  case symbol.symbol a b =>
    obtain ⟨m⟩ := a
    obtain ⟨n⟩ := b
    exact beq_iff_eq.trans ((Symbol.mk.injEq m n).to_iff.trans compareText_eq_iff.symm)
  case uri.uri a b =>
    obtain ⟨m⟩ := a
    obtain ⟨n⟩ := b
    exact beq_iff_eq.trans ((Uri.mk.injEq m n).to_iff.trans compareText_eq_iff.symm)

end Value

namespace Comparison

/-- The operators of which one holds between any two values that can be compared. -/
def exclusive : List Comparison :=
  [.less, .equal, .greater]

/-- The operator of an order. -/
def ofOrdering : Ordering → Comparison
  | .lt => .less
  | .eq => .equal
  | .gt => .greater

variable {a b : Value}

theorem ofOrdering_mem_exclusive (o : Ordering) : ofOrdering o ∈ exclusive := by
  cases o <;> decide

/-- Where sameness agrees with the order, the operator of the order is the only one of the three
that holds. -/
theorem holds_iff_eq_ofOrdering (hsame : a.same b = (a.compare b == .eq)) {op : Comparison}
    (hop : op ∈ exclusive) : op.holds a b = true ↔ op = ofOrdering (a.compare b) := by
  simp only [exclusive, List.mem_cons, List.not_mem_nil, or_false] at hop
  rcases hop with rfl | rfl | rfl
  all_goals
    simp only [holds, hsame]
    cases a.compare b <;> decide

theorem atMost_holds (hsame : a.same b = (a.compare b == .eq)) :
    atMost.holds a b = (less.holds a b || equal.holds a b) := by
  simp only [holds, hsame]
  cases a.compare b <;> rfl

theorem atLeast_holds (hsame : a.same b = (a.compare b == .eq)) :
    atLeast.holds a b = (greater.holds a b || equal.holds a b) := by
  simp only [holds, hsame]
  cases a.compare b <;> rfl

end Comparison

/-- The order of values is a total preorder and sameness is an equivalence, of which `!=` is the
negation.  Values of one kind that are no lists and no records are the same exactly when their order
is that of equals; one of `<`, `==` and `>` holds between them and no other one of these, `<=` is
`<` or `==`, and `>=` is `>` or `==`. -/
theorem Value.compare_coherent :
    (∀ a b : Value, b.compare a = (a.compare b).swap) ∧
    (∀ a b c : Value, (a.compare b).isLE = true → (b.compare c).isLE = true →
      (a.compare c).isLE = true) ∧
    (Equivalence fun a b : Value => a.same b = true) ∧
    (∀ a b : Value, Comparison.notEqual.holds a b = !Comparison.equal.holds a b) ∧
    ∀ a b : Value, a.kind = b.kind → a.IsAtom →
      (Comparison.equal.holds a b = true ↔ a.compare b = .eq) ∧
      (∃! op, op ∈ Comparison.exclusive ∧ op.holds a b = true) ∧
      Comparison.atMost.holds a b =
        (Comparison.less.holds a b || Comparison.equal.holds a b) ∧
      Comparison.atLeast.holds a b =
        (Comparison.greater.holds a b || Comparison.equal.holds a b) := by
  refine ⟨fun a b => Std.OrientedCmp.eq_swap, fun a b c => Std.TransCmp.isLE_trans,
    equivalence_same, fun a b => rfl, fun a b hkind ha => ?_⟩
  have hequal : a.same b = true ↔ a.compare b = .eq := same_iff_compare_eq hkind ha
  have hsame : a.same b = (a.compare b == .eq) := by
    rw [Bool.eq_iff_iff, beq_iff_eq, hequal]
  refine ⟨hequal, ⟨Comparison.ofOrdering (a.compare b), ⟨?_, ?_⟩, ?_⟩,
    Comparison.atMost_holds hsame, Comparison.atLeast_holds hsame⟩
  · exact Comparison.ofOrdering_mem_exclusive _
  · exact (Comparison.holds_iff_eq_ofOrdering hsame
      (Comparison.ofOrdering_mem_exclusive _)).mpr rfl
  · rintro op ⟨hop, hholds⟩
    exact (Comparison.holds_iff_eq_ofOrdering hsame hop).mp hholds

/-- A power in kilowatts. -/
def kilowatts (magnitude : Magnitude) : Value := .number ⟨magnitude, some "kW"⟩

theorem Value.compare_coherent_kilowatts :
    (kilowatts .zero).compare (kilowatts .nan) =
      ((kilowatts .nan).compare (kilowatts .zero)).swap ∧
    ((kilowatts (.infinite false)).compare (kilowatts .nan)).isLE = true ∧
    ((kilowatts .nan).compare (.str "NaN")).isLE = true ∧
    ((kilowatts (.infinite false)).compare (.str "NaN")).isLE = true ∧
    (kilowatts .zero).kind = (kilowatts (.ofRank true 0)).kind ∧ (kilowatts .zero).IsAtom ∧
    Comparison.equal.holds (kilowatts .zero) (kilowatts (.ofRank true 0)) = true ∧
    Comparison.atMost.holds (kilowatts .zero) (kilowatts (.ofRank true 0)) = true := by
  obtain ⟨hswap, htrans, -, -, hkind⟩ := Value.compare_coherent
  have hnan : ((kilowatts (.infinite false)).compare (kilowatts .nan)).isLE = true := by decide
  have hstr : ((kilowatts .nan).compare (.str "NaN")).isLE = true := by decide
  obtain ⟨hequal, -, hatMost, -⟩ :=
    hkind (kilowatts .zero) (kilowatts (.ofRank true 0)) rfl trivial
  have hzero : (kilowatts .zero).compare (kilowatts (.ofRank true 0)) = .eq := by decide
  refine ⟨hswap _ _, hnan, hstr, htrans _ _ _ hnan hstr, rfl, trivial, hequal.mpr hzero, ?_⟩
  rw [hatMost, hequal.mpr hzero, Bool.or_true]

end TagFilter
