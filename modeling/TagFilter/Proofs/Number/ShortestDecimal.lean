import TagFilter.Number.Shortest
import TagFilter.Proofs.Number.Ranks

/-!
# The shortest decimal reads back

The whole expansion of the value of a rank reads back as the rank, since the rank nearest to a value
is its own.  Every other decimal that `Magnitude.shortest` can answer has been read back before, so
the answer reads back in any case.
-/

namespace TagFilter

namespace Magnitude

/-- A decimal of a rank with either sign is the finite magnitude of that rank and sign. -/
theorem ofRank_val (negative : Bool) (rank : Fin rankLimit) :
    ofRank negative rank.val = .finite negative rank := by
  unfold ofRank
  rw [dif_pos rank.isLt]

theorem ofDecimal_zero (negative : Bool) (exponent : Int) :
    ofDecimal ⟨negative, 0, exponent⟩ = ofRank negative 0 := by
  unfold ofDecimal
  rw [if_pos rfl]

/-- The magnitude of a whole decimal that is not too large. -/
theorem ofDecimal_ofNat {digits places : Nat} (hne : digits ≠ 0) (hplaces : places ≤ 310)
    (negative : Bool) :
    ofDecimal ⟨negative, digits, .ofNat places⟩ =
      ofRank negative (nearestRank (digits * Nat.pow 10 places * stepsPerUnit) 1) := by
  unfold ofDecimal
  simp only
  rw [if_neg hne, if_neg (Nat.not_lt.mpr hplaces)]

/-- A whole decimal with too many zeros is infinite. -/
theorem ofDecimal_large {digits places : Nat} (hne : digits ≠ 0) (hplaces : 310 < places)
    (negative : Bool) : ofDecimal ⟨negative, digits, .ofNat places⟩ = .infinite negative := by
  unfold ofDecimal
  simp only
  rw [if_neg hne, if_pos hplaces]

/-- The sign of a decimal is that of its magnitude, which has the same rank for either sign. -/
theorem ofDecimal_sign (digits : Nat) (exponent : Int) :
    (∃ rank, ∀ negative, ofDecimal ⟨negative, digits, exponent⟩ = ofRank negative rank) ∨
      ∀ negative, ofDecimal ⟨negative, digits, exponent⟩ = .infinite negative := by
  unfold ofDecimal
  by_cases hzero : digits = 0
  · simp only [hzero, if_true]
    exact Or.inl ⟨0, fun _ => rfl⟩
  simp only [hzero, if_false]
  cases exponent with
  | ofNat places =>
    by_cases hlarge : 310 < places
    · simp only [hlarge, if_true]
      exact Or.inr fun _ => trivial
    · simp only [hlarge, if_false]
      exact Or.inl ⟨_, fun _ => rfl⟩
  | negSucc n =>
    by_cases hsmall : digits.log2 + 1077 < 3 * (n + 1)
    · simp only [hsmall, if_true]
      exact Or.inl ⟨0, fun _ => rfl⟩
    · simp only [hsmall, if_false]
      exact Or.inl ⟨_, fun _ => rfl⟩

/-- A decimal that reads back as a rank is the magnitude of that rank, with its own sign. -/
theorem ofDecimal_of_readsBack {rank : Fin rankLimit} {digits : Nat} {exponent : Int}
    (h : readsBack rank digits exponent = true) (negative : Bool) :
    ofDecimal ⟨negative, digits, exponent⟩ = .finite negative rank := by
  unfold readsBack at h
  rcases ofDecimal_sign digits exponent with ⟨other, hrank⟩ | hinfinite
  · rw [hrank false] at h
    rw [hrank negative]
    unfold ofRank at h ⊢
    by_cases hlt : other < rankLimit
    · rw [dif_pos hlt] at h ⊢
      have hval : other = rank.val := beq_iff_eq.mp h
      subst hval
      rfl
    · rw [dif_neg hlt] at h
      cases h
  · rw [hinfinite false] at h
    cases h

/-- The magnitude of a decimal with places after its point that is not too small. -/
theorem ofDecimal_negSucc {digits n : Nat} (hne : digits ≠ 0)
    (hlog : 3 * (n + 1) ≤ digits.log2 + 1077) (negative : Bool) :
    ofDecimal ⟨negative, digits, .negSucc n⟩ =
      ofRank negative (nearestRank (digits * stepsPerUnit) (Nat.pow 10 (n + 1))) := by
  unfold ofDecimal
  simp only
  rw [if_neg hne, if_neg (Nat.not_lt.mpr hlog)]

theorem mul_pow_five_ne_zero {value : Nat} (hpos : 0 < value) (k : Nat) :
    value * Nat.pow 5 k ≠ 0 :=
  Nat.ne_of_gt (Nat.mul_pos hpos (Nat.pow_pos (by decide)))

/-- A whole number times a power of five has at least twice as many bits as that power. -/
theorem le_log2_mul_pow_five {value : Nat} (hpos : 0 < value) (k : Nat) :
    2 * k ≤ (value * Nat.pow 5 k).log2 := by
  rw [Nat.le_log2 (mul_pow_five_ne_zero hpos k)]
  calc 2 ^ (2 * k) = 4 ^ k := Nat.pow_mul 2 2 k
    _ ≤ 5 ^ k := Nat.pow_le_pow_left (by decide) k
    _ ≤ value * 5 ^ k := Nat.le_mul_of_pos_left _ hpos

/-- The rank nearest to a value that is written out in powers of ten. -/
theorem nearestRank_mul_pow (rank k : Nat) :
    nearestRank (scaled rank * Nat.pow 5 k * Nat.pow 2 k) (Nat.pow 10 k) = rank := by
  have hten : Nat.pow 5 k * Nat.pow 2 k = Nat.pow 10 k := (Nat.mul_pow 5 2 k).symm
  rw [Nat.mul_assoc, hten]
  exact nearestRank_scaled rank (Nat.pow_pos (by decide))

/-- A decimal that is the magnitude of a rank reads back as the rank. -/
theorem readsBack_of_ofDecimal {rank : Fin rankLimit} {digits : Nat} {exponent : Int}
    (h : ofDecimal ⟨false, digits, exponent⟩ = .finite false rank) :
    readsBack rank digits exponent = true := by
  unfold readsBack
  rw [h]
  exact beq_self_eq_true rank.val

/-- The value of a rank, written out with as many places as its step has, reads back. -/
theorem readsBack_expansion {rank : Fin rankLimit} (hpos : 0 < rank.val) :
    readsBack rank (scaled rank * Nat.pow 5 1074) (-1074) = true := by
  have hscaled := scaled_pos hpos
  have hbits := le_log2_mul_pow_five hscaled 1074
  have hnearest := nearestRank_mul_pow rank.val 1074
  have hne := mul_pow_five_ne_zero hscaled 1074
  -- The power is kept from being computed.
  generalize Nat.pow 5 1074 = five at hbits hnearest hne ⊢
  have hexponent : (-1074 : Int) = .negSucc 1073 := rfl
  have hlog : 3 * (1073 + 1) ≤ (scaled rank * five).log2 + 1077 := by omega
  refine readsBack_of_ofDecimal ?_
  rw [hexponent, ofDecimal_negSucc hne hlog false]
  exact (congrArg (ofRank false) hnearest).trans (ofRank_val false rank)

/-- A point of a grid has been read back. -/
theorem readsBack_of_gridPoint? {rank : Nat} {exponent : Int} {decimal : Decimal}
    (h : gridPoint? rank exponent = some decimal) :
    ∃ digits, decimal = ⟨false, digits, exponent⟩ ∧ readsBack rank digits exponent = true := by
  unfold gridPoint? at h
  simp only at h
  split at h
  · cases h
  · next hbelow habove =>
    cases h
    exact ⟨_, rfl, hbelow⟩
  · next hbelow habove =>
    cases h
    exact ⟨_, rfl, habove⟩
  · next hbelow habove =>
    split at h
    · cases h
      exact ⟨_, rfl, hbelow⟩
    · cases h
      exact ⟨_, rfl, habove⟩

/-- The shortest decimal of a rank reads back as the rank. -/
theorem readsBack_shortest {rank : Fin rankLimit} (hpos : 0 < rank.val) :
    ∃ digits exponent, shortest rank = ⟨false, digits, exponent⟩ ∧
      readsBack rank digits exponent = true := by
  unfold shortest
  simp only
  cases hfound : (List.range 18).findSome? fun digits : Nat =>
      gridPoint? rank (leadingPlace rank - digits) with
  | none => exact ⟨_, _, rfl, readsBack_expansion hpos⟩
  | some decimal =>
    obtain ⟨_, -, hpoint⟩ := List.exists_of_findSome?_eq_some hfound
    obtain ⟨digits, rfl, hback⟩ := readsBack_of_gridPoint? hpoint
    exact ⟨digits, _, rfl, hback⟩

end Magnitude

end TagFilter
