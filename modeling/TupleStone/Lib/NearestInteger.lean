import TupleStone.Lib.RoundingOrder

/-! # Integers as numbers of 53 significant bits

An integer is converted to the nearest integer of 53 significant bits, the one with an even significand where two are
equally near.
-/

set_option autoImplicit false

namespace Binary64

/-- The nearest multiple of the power of two that leaves 53 bits in front of it. -/
def nearest53 (m : Nat) : Nat := roundHalfEven m (2 ^ (m.log2 - 52)) * 2 ^ (m.log2 - 52)

def nearestInt (n : Int) : Int := if n < 0 then -(nearest53 n.natAbs : Int) else nearest53 n.natAbs

example : nearestInt (2 ^ 53 + 1) = 2 ^ 53 ∧ nearestInt (2 ^ 53 + 3) = 2 ^ 53 + 4 := by decide +kernel

theorem nearest53_of_le {m : Nat} (h : m ≤ 2 ^ 53) : nearest53 m = m := by
  obtain rfl | hLess := Nat.eq_or_lt_of_le h
  · decide +kernel
  · have hShift : m.log2 - 52 = 0 := by
      obtain rfl | hPos := Nat.eq_zero_or_pos m
      · rw [Nat.log2_zero]
      · have hLog := (Nat.log2_lt hPos.ne').mpr hLess
        omega
    rw [nearest53, hShift, pow_zero, roundHalfEven_of_dvd Nat.one_pos (one_dvd m), Nat.div_one, Nat.mul_one]

theorem nearestInt_of_le {n : Int} (h : n.natAbs ≤ 2 ^ 53) : nearestInt n = n := by
  rw [nearestInt, nearest53_of_le h]
  split <;> omega

theorem roundHalfEven_scale (m den : Nat) {c : Nat} (hPos : 0 < c) :
    roundHalfEven (m * c) (den * c) = roundHalfEven m den := by
  have hTwice : 2 * (m % den * c) = 2 * (m % den) * c := (Nat.mul_assoc _ _ _).symm
  rw [roundHalfEven, roundHalfEven, Nat.mul_div_mul_right _ _ hPos, Nat.mul_mod_mul_right, hTwice]
  simp only [Nat.mul_lt_mul_right hPos, Nat.mul_left_inj hPos.ne']

/-- A significand that is carried out of its binade is packed as the first one of the next. -/
theorem units_pack_le {shift m : Nat} (hLow : 2 ^ 52 ≤ m) (hHigh : m ≤ 2 ^ 53) :
    units (shift * 2 ^ 52 + m) = m * 2 ^ shift := by
  obtain rfl | hLess := Nat.eq_or_lt_of_le hHigh
  · have hCarry : shift * 2 ^ 52 + 2 ^ 53 = (shift + 1) * 2 ^ 52 + 2 ^ 52 := by omega
    rw [hCarry, units_pack (Nat.le_refl _) (by decide), ← pow_add, ← pow_add]
    congr 1
    omega
  · exact units_pack hLow hLess

theorem units_nearest53 {m : Nat} (h : m.log2 < 1024) :
    units (roundMagnitude (m * 2 ^ 1074) 1) = nearest53 m * 2 ^ 1074 := by
  obtain hSmall | hLarge := Nat.le_total m (2 ^ 53)
  · rw [units_integer hSmall, nearest53_of_le hSmall]
  have hNe : m ≠ 0 := by omega
  have hLog : 52 ≤ m.log2 := (Nat.le_log2 hNe).mpr (by omega)
  have hShift : m.log2 + 1074 - 52 = m.log2 - 52 + 1074 := by omega
  have hLow : 2 ^ 52 ≤ roundHalfEven m (2 ^ (m.log2 - 52)) := by
    apply le_roundHalfEven (Nat.two_pow_pos _)
    rw [← pow_add, Nat.add_sub_cancel' hLog]
    exact Nat.log2_self_le hNe
  have hHigh : roundHalfEven m (2 ^ (m.log2 - 52)) ≤ 2 ^ 53 := by
    apply roundHalfEven_le (Nat.two_pow_pos _)
    rw [← pow_add]
    exact Nat.lt_log2_self.trans_le (Nat.pow_le_pow_right Nat.two_pos (by omega))
  rw [roundMagnitude, Nat.div_one, Nat.one_mul, log2_mul_two_pow hNe, hShift, pow_add 2 (m.log2 - 52),
    roundHalfEven_scale _ _ (Nat.two_pow_pos _), nearest53]
  generalize roundHalfEven m (2 ^ (m.log2 - 52)) = significand at hLow hHigh ⊢
  have hFits : (m.log2 - 52 + 1074) * 2 ^ 52 + significand ≤ infinityBits := by
    rw [infinityBits]
    omega
  rw [Nat.min_eq_left hFits, units_pack_le hLow hHigh, pow_add, Nat.mul_assoc]

/-- Integers in the range of binary64 are converted to the nearest number. -/
theorem scaled_ofInt_nearest {n : Int} (h : n.natAbs.log2 < 1024) : (ofInt n).scaled = nearestInt n * 2 ^ 1074 := by
  rw [scaled_ofInt_eq, nearestInt, units_nearest53 h]
  generalize hUnit : (2 : Nat) ^ 1074 = unit
  have hCast : (2 : Int) ^ 1074 = unit := by
    rw [← hUnit, Nat.cast_pow, Nat.cast_ofNat]
  rw [hCast]
  split
  · rw [Nat.cast_mul, neg_mul]
  · rw [Nat.cast_mul]

section Order

variable {m n : Int}

theorem scaled_ofInt_lt (hm : m.natAbs.log2 < 1024) (hn : n.natAbs.log2 < 1024) :
    (ofInt m).scaled < (ofInt n).scaled ↔ nearestInt m < nearestInt n := by
  have hUnit : (0 : Int) < 2 ^ 1074 := pow_pos two_pos _
  rw [scaled_ofInt_nearest hm, scaled_ofInt_nearest hn]
  generalize (2 : Int) ^ 1074 = unit at hUnit ⊢
  exact Int.mul_lt_mul_right hUnit

theorem nearestInt_mono (hm : m.natAbs.log2 < 1024) (hn : n.natAbs.log2 < 1024) (h : m ≤ n) :
    nearestInt m ≤ nearestInt n := by
  have hScaled := scaled_ofInt_mono h
  rw [← not_lt] at hScaled ⊢
  rwa [scaled_ofInt_lt hn hm] at hScaled

end Order

end Binary64
