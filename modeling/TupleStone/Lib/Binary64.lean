import Mathlib.Data.Nat.Log
import Mathlib.Data.Nat.Bitwise
import Mathlib.Algebra.Order.Ring.Int
import Mathlib.Tactic.Ring
import Mathlib.Tactic.Linarith

/-! # Executable binary64 arithmetic on bit patterns

Every finite pattern is an integer multiple of `2 ^ (-1074)`, so comparison is integer comparison and each
operation is an exact quotient of integers rounded once, to nearest with ties to even. Invalid operations
give the default quiet pattern, and a quiet copy of the first NaN operand is propagated.
-/

set_option autoImplicit false

structure Binary64 where
  bits : UInt64
  deriving DecidableEq, Repr

namespace Binary64

def infinityBits : Nat := 2047 * 2 ^ 52

def negative (x : Binary64) : Bool := decide (2 ^ 63 ≤ x.bits.toNat)
def magnitude (x : Binary64) : Nat := x.bits.toNat % 2 ^ 63
def isNaN (x : Binary64) : Bool := decide (infinityBits < x.magnitude)
def isInfinite (x : Binary64) : Bool := decide (x.magnitude = infinityBits)
def isZero (x : Binary64) : Bool := decide (x.magnitude = 0)

def ofParts (sign : Bool) (magnitude : Nat) : Binary64 :=
  ⟨UInt64.ofNat ((if sign then 2 ^ 63 else 0) + magnitude)⟩

def infinity (sign : Bool) : Binary64 := ofParts sign infinityBits
def zero (sign : Bool) : Binary64 := ofParts sign 0
def defaultNaN : Binary64 := ofParts true (infinityBits + 2 ^ 51)
def quiet (x : Binary64) : Binary64 := ⟨x.bits ||| UInt64.ofNat (2 ^ 51)⟩

/-- The multiple of `2 ^ (-1074)` that a magnitude denotes; infinity lies above every finite value. -/
def units (magnitude : Nat) : Nat :=
  if magnitude / 2 ^ 52 = 0 then magnitude % 2 ^ 52
  else (2 ^ 52 + magnitude % 2 ^ 52) * 2 ^ (magnitude / 2 ^ 52 - 1)

def scaled (x : Binary64) : Int := if x.negative then -(units x.magnitude : Int) else units x.magnitude

/-! ## Rounding -/

def roundHalfEven (num den : Nat) : Nat :=
  let quotient := num / den
  let twice := 2 * (num % den)
  if den < twice ∨ (twice = den ∧ quotient % 2 = 1) then quotient + 1 else quotient

/-- The magnitude nearest to `num / den` units. The carry out of the significand moves to the exponent. -/
def roundMagnitude (num den : Nat) : Nat :=
  let shift := (num / den).log2 - 52
  min (shift * 2 ^ 52 + roundHalfEven num (den * 2 ^ shift)) infinityBits

def ofQuotient (sign : Bool) (num den : Nat) : Binary64 := ofParts sign (roundMagnitude num den)

def ofInt (n : Int) : Binary64 := ofQuotient (decide (n < 0)) (n.natAbs * 2 ^ 1074) 1

/-! ## Operations -/

def neg (x : Binary64) : Binary64 := ofParts (!x.negative) x.magnitude
def abs (x : Binary64) : Binary64 := ofParts false x.magnitude

def lt (x y : Binary64) : Bool := !x.isNaN && !y.isNaN && decide (x.scaled < y.scaled)

def propagate (x y : Binary64) (otherwise : Binary64) : Binary64 :=
  if x.isNaN then quiet x else if y.isNaN then quiet y else otherwise

def addNumbers (x y : Binary64) : Binary64 :=
  if x.isInfinite then (if y.isInfinite && x.negative != y.negative then defaultNaN else x)
  else if y.isInfinite then y
  else
    let sum := x.scaled + y.scaled
    if sum = 0 then zero (x.negative && y.negative) else ofQuotient (decide (sum < 0)) sum.natAbs 1

def add (x y : Binary64) : Binary64 := propagate x y (addNumbers x y)
def sub (x y : Binary64) : Binary64 := propagate x y (addNumbers x (neg y))

def mul (x y : Binary64) : Binary64 :=
  let sign := x.negative != y.negative
  propagate x y
    (if x.isInfinite || y.isInfinite then (if x.isZero || y.isZero then defaultNaN else infinity sign)
    else ofQuotient sign (units x.magnitude * units y.magnitude) (2 ^ 1074))

def div (x y : Binary64) : Binary64 :=
  let sign := x.negative != y.negative
  propagate x y
    (if x.isInfinite then (if y.isInfinite then defaultNaN else infinity sign)
    else if y.isInfinite then zero sign
    else if y.isZero then (if x.isZero then defaultNaN else infinity sign)
    else ofQuotient sign (units x.magnitude * 2 ^ 1074) (units y.magnitude))

/-! ## Decimal text -/

/-- `num / den` read from a decimal literal; `none` is the range error of an overflow, or of an inexact
result that is below the smallest normal number even when rounded to full precision. -/
def ofDecimal (num den : Nat) : Option Binary64 :=
  let units := num * 2 ^ 1074
  if roundMagnitude units den = infinityBits then none
  else if units % den ≠ 0 ∧ roundHalfEven (units * 2) den < 2 ^ 53 then none
  else some (ofQuotient false units den)

def decimalDigits (n : Nat) : List UInt8 := (Nat.toDigits 10 n).map (fun c => UInt8.ofNat c.toNat)

/-- The exponent `k` with `10 ^ k ≤ num / den < 10 ^ (k + 1)`, for a positive quotient. -/
def decimalExponent (num den : Nat) : Int :=
  if den ≤ num then (Nat.log 10 (num / den) : Int) else -(Nat.clog 10 ((den + num - 1) / num) : Int)

def scaleDecimal (num den : Nat) (places : Int) : Nat :=
  if 0 ≤ places then roundHalfEven (num * 10 ^ places.toNat) den
  else roundHalfEven num (den * 10 ^ (-places).toNat)

def dropTrailingZeros (digits : List UInt8) : List UInt8 := (digits.reverse.dropWhile (· == 48)).reverse

/-- A positive number in the shortest of fixed and scientific notation at 17 significant digits, without
trailing zeros. -/
def formatPositive (num den : Nat) : List UInt8 :=
  let guess := decimalExponent num den
  let rounded := scaleDecimal num den (16 - guess)
  let carried := decide (10 ^ 17 ≤ rounded)
  let exponent := if carried then guess + 1 else guess
  let digits := decimalDigits (if carried then rounded / 10 else rounded)
  if exponent < -4 ∨ 17 ≤ exponent then
    let fraction := dropTrailingZeros digits.tail
    let mantissa := digits.take 1 ++ (if fraction.isEmpty then [] else 46 :: fraction)
    let power := decimalDigits exponent.natAbs
    mantissa ++ [101, if exponent < 0 then 45 else 43] ++ (if power.length < 2 then 48 :: power else power)
  else if exponent < 0 then
    [48, 46] ++ List.replicate (exponent.natAbs - 1) 48 ++ dropTrailingZeros digits
  else
    let whole := digits.take (exponent.toNat + 1)
    let fraction := dropTrailingZeros (digits.drop (exponent.toNat + 1))
    whole ++ (if fraction.isEmpty then [] else 46 :: fraction)

def toText (x : Binary64) : List UInt8 :=
  let sign : List UInt8 := if x.negative then [45] else []
  if x.isNaN then sign ++ [110, 97, 110]
  else if x.isInfinite then sign ++ [105, 110, 102]
  else if x.isZero then sign ++ [48]
  else sign ++ formatPositive (units x.magnitude) (2 ^ 1074)

example : toText (ofInt (-1500)) = [45, 49, 53, 48, 48] := by decide +kernel

/-! ## Exact conversions -/

theorem magnitude_ofParts (sign : Bool) {m : Nat} (h : m < 2 ^ 63) : (ofParts sign m).magnitude = m := by
  rw [magnitude, ofParts, UInt64.toNat_ofNat']
  cases sign <;> simp only [Bool.false_eq_true, if_false, if_true] <;> omega

theorem negative_ofParts (sign : Bool) {m : Nat} (h : m < 2 ^ 63) : (ofParts sign m).negative = sign := by
  rw [negative, ofParts, UInt64.toNat_ofNat']
  cases sign <;> simp only [Bool.false_eq_true, if_false, if_true, decide_eq_true_eq, decide_eq_false_iff_not] <;>
    omega

theorem roundMagnitude_le (num den : Nat) : roundMagnitude num den ≤ infinityBits := Nat.min_le_right _ _

theorem infinityBits_lt : infinityBits < 2 ^ 63 := by decide

theorem isNaN_ofQuotient (sign : Bool) (num den : Nat) : (ofQuotient sign num den).isNaN = false := by
  have h := roundMagnitude_le num den
  rw [isNaN, ofQuotient, magnitude_ofParts sign (h.trans_lt infinityBits_lt)]
  simpa using h

theorem isNaN_ofInt (n : Int) : (ofInt n).isNaN = false := isNaN_ofQuotient _ _ _

/-- What is at least `2 ^ 53` units is not rounded to zero. -/
theorem roundMagnitude_pos {v : Nat} (h : 2 ^ 53 ≤ v) : 0 < roundMagnitude v 1 := by
  have hLog : 53 ≤ v.log2 := (Nat.le_log2 (by omega)).mpr h
  have hInfinity : 0 < infinityBits := by decide
  rw [roundMagnitude, Nat.div_one]
  apply Nat.lt_min.mpr
  omega

theorem isZero_ofInt (n : Int) : (ofInt n).isZero = decide (n = 0) := by
  have hBits := (roundMagnitude_le (n.natAbs * 2 ^ 1074) 1).trans_lt infinityBits_lt
  rw [isZero, ofInt, ofQuotient, magnitude_ofParts _ hBits]
  by_cases hn : n = 0
  · rw [hn, Int.natAbs_zero, Nat.zero_mul]
    decide
  · have hScaled : ∀ k, 53 ≤ k → 2 ^ 53 ≤ n.natAbs * 2 ^ k := fun k hk =>
      (Nat.pow_le_pow_right Nat.two_pos hk).trans (Nat.le_mul_of_pos_left _ (Int.natAbs_pos.mpr hn))
    have hLarge := hScaled 1074 (by decide)
    rw [decide_eq_false hn, decide_eq_false (roundMagnitude_pos hLarge).ne']

theorem roundHalfEven_of_dvd {num den : Nat} (hDen : 0 < den) (h : den ∣ num) : roundHalfEven num den = num / den := by
  rw [roundHalfEven, Nat.mod_eq_zero_of_dvd h, if_neg (by omega)]

/-- A significand below `2 ^ 53` on its own binade is reproduced by the packed exponent and fraction. -/
theorem units_pack {shift m : Nat} (hLow : 2 ^ 52 ≤ m) (hHigh : m < 2 ^ 53) :
    units (shift * 2 ^ 52 + m) = m * 2 ^ shift := by
  have hDiv : (shift * 2 ^ 52 + m) / 2 ^ 52 = shift + 1 := by omega
  have hMod : (shift * 2 ^ 52 + m) % 2 ^ 52 = m - 2 ^ 52 := by omega
  have hSum : 2 ^ 52 + (m - 2 ^ 52) = m := by omega
  rw [units, hDiv, hMod, if_neg (by omega), hSum]
  simp

theorem units_small {m : Nat} (h : m < 2 ^ 53) : units m = m := by
  rw [units]
  split
  · omega
  · have hDiv : m / 2 ^ 52 = 1 := by omega
    rw [hDiv]
    omega

theorem units_roundMagnitude {v : Nat} (hDvd : 2 ^ (v.log2 - 52) ∣ v) (hBound : v.log2 < 2098) :
    units (roundMagnitude v 1) = v := by
  obtain ⟨m, hm⟩ := hDvd
  have hPos : 0 < 2 ^ (v.log2 - 52) := Nat.two_pow_pos _
  have hRound : roundHalfEven v (1 * 2 ^ (v.log2 - 52)) = m := by
    rw [Nat.one_mul, roundHalfEven_of_dvd hPos ⟨m, hm⟩]
    exact Nat.div_eq_of_eq_mul_right hPos hm
  rcases Nat.eq_zero_or_pos v with rfl | hv
  · decide
  have hUpper : v < 2 ^ (v.log2 + 1) := Nat.lt_log2_self
  have hLower : 2 ^ v.log2 ≤ v := Nat.log2_self_le hv.ne'
  rcases Nat.lt_or_ge v.log2 52 with hSmall | hLarge
  · have hShift : v.log2 - 52 = 0 := by omega
    have hv53 : v < 2 ^ 52 := hUpper.trans_le (Nat.pow_le_pow_right (by decide) hSmall)
    have hmv : m = v := by
      rw [hShift] at hm
      omega
    rw [roundMagnitude, Nat.div_one, hRound, hShift, hmv, Nat.min_eq_left (by rw [infinityBits]; omega)]
    rw [Nat.zero_mul, Nat.zero_add]
    exact units_small (by omega)
  · have hmLow : 2 ^ 52 ≤ m := by
      have h : 2 ^ (v.log2 - 52) * 2 ^ 52 ≤ 2 ^ (v.log2 - 52) * m := by
        rw [← hm, ← pow_add, Nat.sub_add_cancel hLarge]
        exact hLower
      exact Nat.le_of_mul_le_mul_left h hPos
    have hmHigh : m < 2 ^ 53 := by
      have h : 2 ^ (v.log2 - 52) * m < 2 ^ (v.log2 - 52) * 2 ^ 53 := by
        have hExp : v.log2 - 52 + 53 = v.log2 + 1 := by omega
        rw [← hm, ← pow_add, hExp]
        exact hUpper
      exact Nat.lt_of_mul_lt_mul_left h
    have hFits : (v.log2 - 52) * 2 ^ 52 + m ≤ infinityBits := by
      rw [infinityBits]
      omega
    rw [roundMagnitude, Nat.div_one, hRound, Nat.min_eq_left hFits, units_pack hmLow hmHigh, Nat.mul_comm]
    exact hm.symm

theorem log2_mul_two_pow {n : Nat} (h : n ≠ 0) (k : Nat) : (n * 2 ^ k).log2 = n.log2 + k := by
  have hPos : 0 < 2 ^ k := Nat.two_pow_pos k
  refine (Nat.log2_eq_iff (Nat.mul_ne_zero h hPos.ne')).mpr ⟨?_, ?_⟩
  · rw [pow_add]
    exact Nat.mul_le_mul_right _ (Nat.log2_self_le h)
  · rw [Nat.add_right_comm, pow_add]
    exact Nat.mul_lt_mul_of_pos_right Nat.lt_log2_self hPos

theorem units_integer {n : Nat} (h : n ≤ 2 ^ 53) : units (roundMagnitude (n * 2 ^ 1074) 1) = n * 2 ^ 1074 := by
  rcases Nat.eq_zero_or_pos n with hZero | hPos
  · rw [hZero, Nat.zero_mul]
    decide
  have hLog := log2_mul_two_pow hPos.ne' 1074
  have hTop : n.log2 ≤ 53 := by
    by_contra hBig
    have h54 : 2 ^ 54 ≤ n := (Nat.pow_le_pow_right (by decide) (by omega)).trans (Nat.log2_self_le hPos.ne')
    omega
  apply units_roundMagnitude
  · rw [hLog]
    rcases Nat.lt_or_ge n.log2 53 with hLt | hGe
    · exact Dvd.dvd.mul_left (pow_dvd_pow 2 (by omega)) _
    · have hEq : n = 2 ^ 53 := by
        have h53 : 2 ^ 53 ≤ n := (Nat.pow_le_pow_right (by decide) hGe).trans (Nat.log2_self_le hPos.ne')
        omega
      rw [hEq, ← pow_add]
      exact pow_dvd_pow 2 (by rw [Nat.log2_two_pow]; omega)
  · omega

/-- Integers up to `2 ^ 53` in size are converted exactly. -/
theorem scaled_ofInt {n : Int} (h : n.natAbs ≤ 2 ^ 53) : (ofInt n).scaled = n * 2 ^ 1074 := by
  have hUnits := units_integer h
  have hBits := (roundMagnitude_le (n.natAbs * 2 ^ 1074) 1).trans_lt infinityBits_lt
  rw [scaled, ofInt, ofQuotient, negative_ofParts _ hBits, magnitude_ofParts _ hBits, hUnits]
  by_cases hn : n < 0
  · rw [decide_eq_true hn, if_pos rfl]
    rw [Nat.cast_mul, Nat.cast_pow, Int.natCast_natAbs, abs_of_neg hn, neg_mul, neg_neg, Nat.cast_ofNat]
  · rw [decide_eq_false hn, if_neg Bool.false_ne_true]
    rw [Nat.cast_mul, Nat.cast_pow, Int.natCast_natAbs, abs_of_nonneg (by omega), Nat.cast_ofNat]

theorem eq_of_scaled_ofInt_eq {m n : Int} (hm : m.natAbs ≤ 2 ^ 53) (hn : n.natAbs ≤ 2 ^ 53)
    (h : (ofInt m).scaled = (ofInt n).scaled) : m = n := by
  have hUnit : (2 : Int) ^ 1074 ≠ 0 := pow_ne_zero _ two_ne_zero
  rw [scaled_ofInt hm, scaled_ofInt hn] at h
  generalize (2 : Int) ^ 1074 = unit at h hUnit
  exact mul_right_cancel₀ hUnit h

end Binary64
