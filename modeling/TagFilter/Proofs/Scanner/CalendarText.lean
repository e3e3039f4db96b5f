import TagFilter.Proofs.Number.DecimalText
import TagFilter.Proofs.Scanner.Words

/-!
# Texts of dates and times

A date of a year with four digits and a time of day are read back from their written forms.  The
fields stand at fixed places, since each is padded to a width that it fits.
-/

namespace TagFilter

/-! ### Fields of a fixed width -/

/-- A list of a field of two digits. -/
theorem exists_two_digits {n : Nat} (hn : n < 100) :
    ∃ a b, paddedDigits 10 2 n = [a, b] ∧ a.isDigit = true ∧ b.isDigit = true ∧
      wholeNumber [a, b] = n := by
  have hlength : (paddedDigits 10 2 n).length = 2 := length_paddedDigits (by decide) hn
  obtain ⟨a, b, hlist⟩ : ∃ a b, paddedDigits 10 2 n = [a, b] := by
    match hlist : paddedDigits 10 2 n, hlength with
    | [a, b], _ => exact ⟨a, b, rfl⟩
  have hdigit : ∀ c ∈ [a, b], c.isDigit = true := by
    rw [← hlist]
    exact fun _ => isDigit_of_mem_paddedDigits
  refine ⟨a, b, hlist, hdigit a (by simp), hdigit b (by simp), ?_⟩
  rw [← hlist, wholeNumber_paddedDigits]

/-- A list of a field of four digits. -/
theorem exists_four_digits {n : Nat} (hn : n < 10000) :
    ∃ a b c d, paddedDigits 10 4 n = [a, b, c, d] ∧ (∀ x ∈ [a, b, c, d], x.isDigit = true) ∧
      wholeNumber [a, b, c, d] = n := by
  have hlength : (paddedDigits 10 4 n).length = 4 := length_paddedDigits (by decide) hn
  obtain ⟨a, b, c, d, hlist⟩ := exists_of_length_eq_four hlength
  refine ⟨a, b, c, d, hlist, ?_, ?_⟩
  · rw [← hlist]
    exact fun _ => isDigit_of_mem_paddedDigits
  · rw [← hlist, wholeNumber_paddedDigits]

theorem toList_padded (width n : Nat) : (padded width n).toList = paddedDigits 10 width n :=
  String.toList_ofList

/-! ### Dates -/

/-- A date is given by its fields. -/
theorem Date.ofFields?_fields (d : Date) : Date.ofFields? d.year d.month d.day = some d := by
  unfold Date.ofFields?
  rw [dif_pos ⟨d.month_mem, d.day_mem⟩]

/-- The year of a date in a filter has four digits. -/
def Date.IsWritable (d : Date) : Prop :=
  0 ≤ d.year ∧ d.year ≤ 9999

theorem daysInMonth_le (year : Int) (month : Nat) : daysInMonth year month ≤ 31 := by
  unfold daysInMonth
  split
  · split <;> decide
  · split <;> decide

/-- A date is read back from its written form. -/
theorem Date.tokenize_toText {d : Date} (h : d.IsWritable) :
    tokenize d.toText = .ok [.value (.date d)] := by
  have hyear : d.year.toNat < 10000 := by
    have hle := h.2
    omega
  have hday : d.day < 100 := by
    have hle := Nat.le_trans d.day_mem.2 (daysInMonth_le d.year d.month)
    omega
  have hmonth : d.month < 100 := by
    have hle := d.month_mem.2
    omega
  obtain ⟨y₁, y₂, y₃, y₄, hy, hydigits, hynumber⟩ := exists_four_digits hyear
  obtain ⟨m₁, m₂, hm, hm₁, hm₂, hmnumber⟩ := exists_two_digits hmonth
  obtain ⟨d₁, d₂, hd, hd₁, hd₂, hdnumber⟩ := exists_two_digits hday
  have htext : d.toText.toList = [y₁, y₂, y₃, y₄, '-', m₁, m₂, '-', d₁, d₂] := by
    unfold Date.toText Date.yearText
    rw [if_pos (show 0 ≤ d.year ∧ d.year ≤ 9999 from h)]
    simp only [String.toList_append, toList_padded, hy, hm, hd]
    rfl
  have hall : [y₁, y₂, y₃, y₄, m₁, m₂, d₁, d₂].all Char.isDigit = true := by
    simp only [List.mem_cons, List.not_mem_nil, or_false, forall_eq_or_imp, forall_eq] at hydigits
    obtain ⟨hy₁, hy₂, hy₃, hy₄⟩ := hydigits
    simp only [List.all_cons, List.all_nil, hy₁, hy₂, hy₃, hy₄, hm₁, hm₂, hd₁, hd₂, Bool.and_self]
  have hcast : ((d.year.toNat : Nat) : Int) = d.year := Int.toNat_of_nonneg h.1
  have hy₁ : y₁.isDigit = true := hydigits y₁ List.mem_cons_self
  refine tokenize_of_scan ?_
  rw [htext, scan_of_isDigit hy₁]
  unfold scanDigits readDate?
  simp only [hall, if_true, hynumber, hmnumber, hdnumber, hcast, d.ofFields?_fields,
    Option.map_some, scanFields]

/-! ### Times -/

/-- A time of day is given by its fields as they are written. -/
theorem TimeOfDay.ofWritten?_fields (t : TimeOfDay) :
    TimeOfDay.ofWritten? t.hour t.minute t.writtenSecond t.fraction = some t := by
  obtain ⟨hour, minute, second, nanosecond, hhour, hminute, hsecond, hnanosecond⟩ := t
  unfold ofWritten? ofFields? writtenSecond fraction
  simp only
  by_cases hleap : nanosecond < 1000000000
  · have hdiv : nanosecond / 1000000000 = 0 := Nat.div_eq_of_lt hleap
    have hmod : nanosecond % 1000000000 = nanosecond := Nat.mod_eq_of_lt hleap
    rw [hdiv, hmod, Nat.add_zero, if_neg (by omega), if_pos hleap,
      dif_pos ⟨hhour, hminute, hsecond, hnanosecond⟩]
  · -- A leap second is written as second `60`.
    have hlast : second = 59 ∧ nanosecond < 2000000000 := hnanosecond.resolve_left hleap
    obtain ⟨rfl, hlt⟩ := hlast
    have hdiv : nanosecond / 1000000000 = 1 := by omega
    have hsum : 1000000000 + nanosecond % 1000000000 = nanosecond := by omega
    rw [hdiv, hsum, if_pos rfl, dif_pos ⟨hhour, hminute, hsecond, Or.inr ⟨trivial, hlt⟩⟩]

/-- A fraction of a second in digits of which the last nine are zeros or none. -/
theorem nanoseconds_paddedDigits {width n : Nat} (hwidth : 0 < width) (hle : width ≤ 9)
    (hn : n < Nat.pow 10 width) :
    nanoseconds (paddedDigits 10 width n) = n * Nat.pow 10 (9 - width) := by
  have hlength := length_paddedDigits hwidth hn
  have htake : (paddedDigits 10 width n ++ List.replicate 9 '0').take 9 =
      paddedDigits 10 width n ++ List.replicate (9 - width) '0' := by
    rw [List.take_append, hlength, List.take_replicate,
      List.take_of_length_le (Nat.le_trans (Nat.le_of_eq hlength) hle)]
    congr 2
    omega
  unfold nanoseconds
  rw [htake, wholeNumber_append_zeros fun _ => isDigit_of_mem_paddedDigits,
    wholeNumber_paddedDigits]

/-- Digits after a point are read as a fraction of a second. -/
theorem readSecondFraction_padded (width n : Nat) (hwidth : 0 < width) (hle : width ≤ 9)
    (hn : n < Nat.pow 10 width) :
    readSecondFraction ("." ++ padded width n).toList = (n * Nat.pow 10 (9 - width), []) := by
  have hdigits : ∀ c ∈ paddedDigits 10 width n, c.isDigit = true :=
    fun _ => isDigit_of_mem_paddedDigits
  have hlist : ("." ++ padded width n).toList = '.' :: paddedDigits 10 width n := by
    rw [String.toList_append, toList_padded]
    rfl
  have hlength := length_paddedDigits hwidth hn
  rw [hlist, ← nanoseconds_paddedDigits hwidth hle hn]
  cases hcons : paddedDigits 10 width n with
  | nil =>
    rw [hcons, List.length_nil] at hlength
    omega
  | cons d rest =>
    rw [hcons] at hdigits
    obtain ⟨htake, hdrop⟩ := span_of_forall hdigits
    rw [readSecondFraction, if_pos (hdigits d List.mem_cons_self), htake, hdrop]

/-- The fraction of a second is read back from its written form. -/
theorem readSecondFraction_fractionText {fraction : Nat} (hlt : fraction < 1000000000) :
    readSecondFraction (TimeOfDay.fractionText fraction).toList = (fraction, []) := by
  unfold TimeOfDay.fractionText
  split
  · next hzero =>
    rw [hzero]
    rfl
  split
  · next hmillis =>
    have hlt : fraction / 1000000 < 1000 := by omega
    have hread : _ = (fraction / 1000000 * 1000000, []) :=
      readSecondFraction_padded 3 _ (by decide) (by decide) hlt
    rw [hread]
    congr 1
    omega
  split
  · next hmicros =>
    have hlt : fraction / 1000 < 1000000 := by omega
    have hread : _ = (fraction / 1000 * 1000, []) :=
      readSecondFraction_padded 6 _ (by decide) (by decide) hlt
    rw [hread]
    congr 1
    omega
  · have hread : _ = (fraction * 1, []) :=
      readSecondFraction_padded 9 _ (by decide) (by decide) hlt
    rw [hread, Nat.mul_one]

/-- A time of day is read back from its written form. -/
theorem TimeOfDay.tokenize_toText (t : TimeOfDay) :
    tokenize t.toText = .ok [.value (.time t)] := by
  have hhour : t.hour < 100 := Nat.lt_trans t.hour_lt (by decide)
  have hminute : t.minute < 100 := Nat.lt_trans t.minute_lt (by decide)
  have hsecond : t.writtenSecond < 100 := by
    have hlt := t.second_lt
    have hnanosecond := t.nanosecond_lt
    unfold TimeOfDay.writtenSecond
    omega
  obtain ⟨h₁, h₂, hh, hh₁, hh₂, hhnumber⟩ := exists_two_digits hhour
  obtain ⟨m₁, m₂, hm, hm₁, hm₂, hmnumber⟩ := exists_two_digits hminute
  obtain ⟨s₁, s₂, hs, hs₁, hs₂, hsnumber⟩ := exists_two_digits hsecond
  have htext : t.toText.toList = h₁ :: h₂ :: ':' :: m₁ :: m₂ :: ':' :: s₁ :: s₂ ::
      (TimeOfDay.fractionText t.fraction).toList := by
    unfold TimeOfDay.toText
    simp only [String.toList_append, toList_padded, hh, hm, hs]
    rfl
  have hfraction :
      readSecondFraction (TimeOfDay.fractionText t.fraction).toList = (t.fraction, []) :=
    readSecondFraction_fractionText (Nat.mod_lt t.nanosecond (by decide))
  have hdate : readDate? t.toText.toList = none := by
    refine readDate?_of_forall fun y₁ y₂ y₃ y₄ a b c d tail heq => ?_
    rw [htext] at heq
    obtain ⟨-, -, rfl, -⟩ : h₁ = y₁ ∧ h₂ = y₂ ∧ ':' = y₃ ∧ m₁ = y₄ := by
      simp only [List.cons.injEq] at heq
      exact ⟨heq.1, heq.2.1, heq.2.2.1, heq.2.2.2.1⟩
    simp only [List.all_cons, show Char.isDigit ':' = false by decide, Bool.false_and,
      Bool.and_false]
  have hall : [h₁, h₂, m₁, m₂].all Char.isDigit = true := by
    simp only [List.all_cons, List.all_nil, hh₁, hh₂, hm₁, hm₂, Bool.and_self]
  refine tokenize_of_scan ?_
  rw [htext] at hdate ⊢
  rw [scan_of_isDigit hh₁, scanDigits, hdate]
  unfold readTime? readSeconds
  simp only [hall, hs₁, hs₂, Bool.and_self, if_true]
  simp only [hfraction, hhnumber, hmnumber, hsnumber, t.ofWritten?_fields, Option.map_some,
    scanFields]

end TagFilter
