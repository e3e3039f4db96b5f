import TagFilter.Proofs.Value.Order

/-!
# The same values

Values that are the same have the same kind and the same text, stand at the same place in the order
of values and are the same as the same values, so that a comparison cannot tell them apart
(`Comparison.holds_of_same`).
-/

namespace TagFilter

/-! ### Texts -/

namespace Magnitude

theorem natAbs_key_lt_iff (m : Magnitude) : m.key.natAbs < rankLimit ↔ m.isFinite = true := by
  cases m with
  | nan => exact ⟨fun h => absurd h (by decide), fun h => nomatch h⟩
  | infinite negative =>
    cases negative <;> exact ⟨fun h => absurd h (by decide), fun h => nomatch h⟩
  | finite negative rank =>
    have hrank := rank.isLt
    cases negative <;> simp only [key, isFinite, Int.natAbs_neg, Int.natAbs_natCast, hrank]

theorem isFinite_of_key_eq {a b : Magnitude} (h : a.key = b.key) : a.isFinite = b.isFinite := by
  rw [Bool.eq_iff_iff, ← natAbs_key_lt_iff, ← natAbs_key_lt_iff, h]

/-- The magnitude of a place on the line; zero is the place of two, of which this is the first. -/
def ofKey (place : Int) : Magnitude :=
  if place = rankLimit + 1 then .nan
  else if place = -rankLimit then .infinite true
  else ofRank (place < 0) place.natAbs

/-- A place other than zero belongs to one magnitude only. -/
theorem ofKey_key {m : Magnitude} (h : m.key ≠ 0) : ofKey m.key = m := by
  cases m with
  | nan => rfl
  | infinite negative => cases negative <;> rfl
  | finite negative rank =>
    have hrank := rank.isLt
    unfold ofKey
    cases negative with
    | false =>
      change (rank.val : Int) ≠ 0 at h
      have hsign : decide ((rank.val : Int) < 0) = false := decide_eq_false (by omega)
      rw [key, if_neg (by omega), if_neg (by omega), hsign, Int.natAbs_natCast, ofRank,
        dif_pos hrank]
    | true =>
      change -(rank.val : Int) ≠ 0 at h
      have hsign : decide (-(rank.val : Int) < 0) = true := decide_eq_true (by omega)
      rw [key, if_neg (by omega), if_neg (by omega), hsign, Int.natAbs_neg, Int.natAbs_natCast,
        ofRank, dif_pos hrank]

end Magnitude

/-- The same numbers have the same text: only zero has two magnitudes. -/
theorem Number.toText_of_same {a b : Number} (h : a.same b = true) : a.toText = b.toText := by
  obtain ⟨hkey, hunit⟩ := Number.same_iff.mp h
  have htext : Number.magnitudeText a.magnitude = Number.magnitudeText b.magnitude := by
    unfold Number.magnitudeText
    by_cases hzero : a.magnitude.key = 0
    · rw [if_pos hzero, if_pos (hkey ▸ hzero)]
    · rw [← Magnitude.ofKey_key hzero, hkey, Magnitude.ofKey_key (hkey ▸ hzero)]
  unfold Number.toText
  rw [hunit, htext, Magnitude.isFinite_of_key_eq hkey]

section Same

variable {a b : Value}

/-- The written forms of the items of a list, one by one. -/
theorem itemTexts_eq_map (items : List Value) : itemTexts items = items.map Value.toText := by
  induction items with
  | nil => rfl
  | cons item items ih => rw [itemTexts, ih, List.map_cons]

/-- The same values have the same text. -/
theorem Value.toText_of_same (h : a.same b = true) : a.toText = b.toText := by
  induction a using Value.induction generalizing b with
  | atom a ha =>
    rcases Value.same_cases (Value.isAtom_of_same ha h) h with
      rfl | ⟨m, n, rfl, rfl, hsame⟩ | ⟨r, s, rfl, rfl, hid⟩
    · rfl
    · exact Number.toText_of_same hsame
    · exact congrArg ("@" ++ ·) hid
  | list items ih =>
    cases b with
    | list others =>
      have htexts : items.map Value.toText = others.map Value.toText :=
        map_eq_of_forall₂ (sameItems_iff.mp h) fun v hv _ => ih v hv
      rw [Value.toText, Value.toText, itemTexts_eq_map, itemTexts_eq_map, htexts]
    | _ => cases h
  | dict record ih =>
    cases b with
    | dict other =>
      have hsize : record.size = other.size := (sameRecord_iff.mp h).length_eq
      rw [Value.toText, Value.toText, hsize]
    | _ => cases h

/-! ### Comparisons -/

/-- The same values are of the same kind. -/
theorem Value.kind_of_same (h : a.same b = true) : a.kind = b.kind := by
  cases a <;> cases b <;> first | rfl | cases h

/-- The same values stand at the same place in the order of values. -/
theorem Value.compare_of_same (h : a.same b = true) (value : Value) :
    value.compare a = value.compare b := by
  have hequal : a.compare b = .eq := by
    cases a with
    | list items =>
      cases b with
      | list others => rfl
      | _ => cases h
    | dict record =>
      cases b with
      | dict other => rfl
      | _ => cases h
    | _ => exact (Value.same_iff_compare_eq (Value.kind_of_same h) trivial).mp h
  exact Std.TransCmp.congr_right hequal

/-- The same values are the same as the same values. -/
theorem Value.same_of_same (h : a.same b = true) (value : Value) : value.same a = value.same b := by
  rw [Bool.eq_iff_iff]
  exact ⟨fun hvalue => Value.same_trans hvalue h,
    fun hvalue => Value.same_trans hvalue (Value.same_symm h)⟩

/-- No operator tells the same values apart. -/
theorem Comparison.holds_of_same (h : a.same b = true) (op : Comparison) (value : Value) :
    op.holds value a = op.holds value b := by
  cases op <;> simp only [Comparison.holds, Value.compare_of_same h, Value.same_of_same h]

end Same

end TagFilter
