import TupleStone.Lib.DecimalRounding

/-! # Rounding keeps the order

Rounding to nearest is monotone, across binades too: what is below a power of two is rounded to that power at most. So
integers keep their order when they are converted, although neighbours may become equal.
-/

set_option autoImplicit false

namespace Binary64

theorem roundHalfEven_mono {m n : Nat} (h : m ≤ n) (den : Nat) : roundHalfEven m den ≤ roundHalfEven n den := by
  have hDiv : m / den ≤ n / den := Nat.div_le_div_right h
  have hM := Nat.div_add_mod m den
  have hN := Nat.div_add_mod n den
  rw [roundHalfEven, roundHalfEven]
  obtain hLess | hSame := Nat.lt_or_eq_of_le hDiv
  · split <;> split <;> omega
  · rw [← hSame] at hN ⊢
    generalize den * (m / den) = base at hM hN
    split <;> split <;> omega

theorem le_roundHalfEven {k den n : Nat} (hDen : 0 < den) (h : k * den ≤ n) : k ≤ roundHalfEven n den := by
  have hDiv : k ≤ n / den := (Nat.le_div_iff_mul_le hDen).mpr h
  rw [roundHalfEven]
  split <;> omega

theorem roundHalfEven_le {k den n : Nat} (hDen : 0 < den) (h : n < k * den) : roundHalfEven n den ≤ k := by
  have hDiv : n / den < k := (Nat.div_lt_iff_lt_mul hDen).mpr h
  rw [roundHalfEven]
  split <;> omega

theorem roundMagnitude_mono {m n : Nat} (h : m ≤ n) : roundMagnitude m 1 ≤ roundMagnitude n 1 := by
  have hLog : m.log2 ≤ n.log2 := by
    rw [Nat.log2_eq_log_two, Nat.log2_eq_log_two]
    exact Nat.log_mono_right h
  rw [roundMagnitude, roundMagnitude, Nat.div_one, Nat.div_one, Nat.one_mul, Nat.one_mul]
  apply min_le_min_right
  obtain hSame | hLess := Nat.eq_or_lt_of_le (Nat.sub_le_sub_right hLog 52)
  · rw [hSame]
    exact Nat.add_le_add_left (roundHalfEven_mono h _) _
  · -- the shift of the larger number is the larger one, so its significand is full
    have hLow : 2 ^ 52 ≤ roundHalfEven n (2 ^ (n.log2 - 52)) := by
      apply le_roundHalfEven (Nat.two_pow_pos _)
      have hSum : 52 + (n.log2 - 52) = n.log2 := by omega
      have hNe : n ≠ 0 := by
        rintro rfl
        rw [Nat.log2_zero] at hLess
        omega
      rw [← pow_add, hSum]
      exact Nat.log2_self_le hNe
    have hHigh : roundHalfEven m (2 ^ (m.log2 - 52)) ≤ 2 ^ 53 := by
      apply roundHalfEven_le (Nat.two_pow_pos _)
      rw [← pow_add]
      exact Nat.lt_log2_self.trans_le (Nat.pow_le_pow_right Nat.two_pos (by omega))
    omega

theorem scaled_ofInt_eq (n : Int) : (ofInt n).scaled =
    if n < 0 then -(units (roundMagnitude (n.natAbs * 2 ^ 1074) 1) : Int) else units (roundMagnitude (n.natAbs * 2 ^ 1074) 1) := by
  have hBits := (roundMagnitude_le (n.natAbs * 2 ^ 1074) 1).trans_lt infinityBits_lt
  rw [scaled, ofInt, ofQuotient, negative_ofParts _ hBits, magnitude_ofParts _ hBits]
  simp only [decide_eq_true_eq]

theorem scaled_ofInt_mono {m n : Int} (h : m ≤ n) : (ofInt m).scaled ≤ (ofInt n).scaled := by
  have hUnits : ∀ {j k : Nat}, j ≤ k →
      units (roundMagnitude (j * 2 ^ 1074) 1) ≤ units (roundMagnitude (k * 2 ^ 1074) 1) := fun hLe =>
    units_strictMono.monotone (roundMagnitude_mono (Nat.mul_le_mul_right _ hLe))
  rw [scaled_ofInt_eq, scaled_ofInt_eq]
  generalize hUnit : (2 : Nat) ^ 1074 = unit at hUnits ⊢
  by_cases hM : m < 0
  · by_cases hN : n < 0
    · have hSwap := hUnits (by omega : n.natAbs ≤ m.natAbs)
      rw [if_pos hM, if_pos hN]
      exact Int.neg_le_neg (Int.ofNat_le.mpr hSwap)
    · rw [if_pos hM, if_neg hN]
      exact (Int.neg_nonpos_of_nonneg (Int.natCast_nonneg _)).trans (Int.natCast_nonneg _)
  · have hKeep := hUnits (by omega : m.natAbs ≤ n.natAbs)
    rw [if_neg hM, if_neg (by omega)]
    exact Int.ofNat_le.mpr hKeep

end Binary64
