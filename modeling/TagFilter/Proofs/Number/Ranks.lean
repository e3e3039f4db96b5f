import TagFilter.Number.Magnitude

/-!
# Ranks and their values

A rank is written as `exponent * 2 ^ 52 + significand`, where the significand has all of its `53`
bits unless the exponent is zero, and its value is `significand * 2 ^ exponent`.  Values grow with
their ranks, and the rank below a value is found from its logarithm; so the rank nearest to the
value of a rank is the rank itself, whatever denominator the value is written with.
-/

namespace TagFilter

namespace Magnitude

/-- A rank by the exponent and the significand of its value. -/
structure IsSplit (rank exponent significand : Nat) : Prop where
  /-- The rank counts the blocks below the exponent and the significand. -/
  eq : rank = exponent * blockSize + significand
  /-- The significand has at most `53` bits. -/
  lt : significand < 2 * blockSize
  /-- The significand has all of its bits unless the exponent is zero. -/
  full : exponent = 0 ∨ blockSize ≤ significand

variable {rank exponent significand : Nat}

theorem exists_isSplit (rank : Nat) :
    ∃ exponent significand, IsSplit rank exponent significand := by
  have hdiv : blockSize * (rank / blockSize) + rank % blockSize = rank :=
    Nat.div_add_mod rank blockSize
  have hmod : rank % blockSize < blockSize := Nat.mod_lt rank (by decide)
  cases hq : rank / blockSize with
  | zero =>
    rw [hq, Nat.mul_zero, Nat.zero_add] at hdiv
    refine ⟨0, rank, ?_, ?_, Or.inl rfl⟩
    · rw [Nat.zero_mul, Nat.zero_add]
    · omega
  | succ q =>
    rw [hq, Nat.mul_succ, Nat.mul_comm] at hdiv
    refine ⟨q, blockSize + rank % blockSize, ?_, ?_, Or.inr (Nat.le_add_right _ _)⟩
    · rw [← Nat.add_assoc, hdiv]
    · omega

theorem IsSplit.spacing_eq (h : IsSplit rank exponent significand) : spacing rank = exponent := by
  have hpos : 0 < blockSize := by decide
  have hlt := h.lt
  unfold spacing
  rcases h.full with rfl | hfull
  · have hrank := h.eq
    rw [Nat.zero_mul, Nat.zero_add] at hrank
    have hquotient : rank / blockSize < 2 := (Nat.div_lt_iff_lt_mul hpos).mpr (hrank ▸ hlt)
    omega
  · have hrank : rank = (significand - blockSize) + blockSize * (exponent + 1) := by
      rw [h.eq, Nat.mul_succ blockSize exponent, Nat.mul_comm blockSize exponent]
      omega
    have hsmall : significand - blockSize < blockSize := by omega
    rw [hrank, Nat.add_mul_div_left _ _ hpos, Nat.div_eq_of_lt hsmall]
    omega

theorem IsSplit.scaled_eq (h : IsSplit rank exponent significand) :
    scaled rank = significand * Nat.pow 2 exponent := by
  unfold scaled
  rw [h.spacing_eq, Nat.shiftLeft_eq, h.eq, Nat.add_sub_cancel_left]
  rfl

/-- The logarithm of a value gives its exponent. -/
theorem IsSplit.log2_sub (h : IsSplit rank exponent significand) :
    (significand * Nat.pow 2 exponent).log2 - 52 = exponent := by
  change (significand * 2 ^ exponent).log2 - 52 = exponent
  rcases h.full with rfl | hfull
  · rw [Nat.pow_zero, Nat.mul_one]
    by_cases hzero : significand = 0
    · rw [hzero, Nat.log2_zero]
    · have hlog : significand.log2 < 53 := (Nat.log2_lt hzero).mpr h.lt
      omega
  · have hpos : 0 < significand := Nat.lt_of_lt_of_le (by decide) hfull
    have hne : significand * 2 ^ exponent ≠ 0 :=
      Nat.ne_of_gt (Nat.mul_pos hpos (Nat.two_pow_pos exponent))
    have hlog : (significand * 2 ^ exponent).log2 = 52 + exponent := by
      rw [Nat.log2_eq_iff hne]
      constructor
      · rw [Nat.pow_add]
        exact Nat.mul_le_mul_right _ hfull
      · rw [Nat.add_right_comm, Nat.pow_add]
        exact Nat.mul_lt_mul_of_pos_right h.lt (Nat.two_pow_pos exponent)
    rw [hlog, Nat.add_sub_cancel_left]

/-- The rank below the value of a rank is that rank. -/
theorem rankBelow_scaled (rank : Nat) : rankBelow (scaled rank) = rank := by
  obtain ⟨exponent, significand, h⟩ := exists_isSplit rank
  unfold rankBelow
  simp only
  have hquotient : significand * Nat.pow 2 exponent / 2 ^ exponent = significand :=
    Nat.mul_div_cancel _ (Nat.two_pow_pos exponent)
  rw [h.scaled_eq, h.log2_sub, Nat.shiftRight_eq_div_pow, hquotient, ← h.eq]

/-- The value of a rank is less than that of the next. -/
theorem scaled_lt_scaled_succ (rank : Nat) : scaled rank < scaled (rank + 1) := by
  obtain ⟨exponent, significand, h⟩ := exists_isSplit rank
  have hlt := h.lt
  by_cases hlast : significand + 1 < 2 * blockSize
  · have hnext : IsSplit (rank + 1) exponent (significand + 1) := by
      refine ⟨?_, hlast, h.full.imp id Nat.le_succ_of_le⟩
      rw [h.eq, Nat.add_assoc]
    rw [h.scaled_eq, hnext.scaled_eq]
    exact Nat.mul_lt_mul_of_pos_right (Nat.lt_succ_self _) (Nat.two_pow_pos exponent)
  · -- The last rank of a block: the next one opens the block of the next exponent.
    have hsum : significand + 1 = blockSize + blockSize := by omega
    have hnext : IsSplit (rank + 1) (exponent + 1) blockSize := by
      refine ⟨?_, by decide, Or.inr (Nat.le_refl _)⟩
      rw [h.eq, Nat.add_assoc, hsum, Nat.succ_mul exponent blockSize, Nat.add_assoc]
    rw [h.scaled_eq, hnext.scaled_eq]
    calc significand * 2 ^ exponent < blockSize * 2 * 2 ^ exponent :=
          Nat.mul_lt_mul_of_pos_right (by omega) (Nat.two_pow_pos exponent)
      _ = blockSize * 2 ^ (exponent + 1) := by
          rw [Nat.mul_assoc, Nat.pow_succ, Nat.mul_comm 2]

/-- The rank nearest to the value of a rank is that rank. -/
theorem nearestRank_scaled (rank : Nat) {denominator : Nat} (hpos : 0 < denominator) :
    nearestRank (scaled rank * denominator) denominator = rank := by
  have hlt : 2 * (scaled rank * denominator) <
      denominator * (scaled rank + scaled (rank + 1)) := by
    have hsucc := Nat.mul_lt_mul_of_pos_left (scaled_lt_scaled_succ rank) hpos
    rw [Nat.mul_add, Nat.mul_comm (scaled rank), Nat.two_mul]
    exact Nat.add_lt_add_left hsucc _
  unfold nearestRank
  simp only [Nat.mul_div_cancel _ hpos, rankBelow_scaled]
  rw [if_pos hlt]

/-- Only the rank zero has the value zero. -/
theorem scaled_pos (hrank : 0 < rank) : 0 < scaled rank := by
  obtain ⟨before, rfl⟩ : ∃ before, rank = before + 1 := ⟨rank - 1, by omega⟩
  exact Nat.lt_of_le_of_lt (Nat.zero_le _) (scaled_lt_scaled_succ before)

end Magnitude

end TagFilter
