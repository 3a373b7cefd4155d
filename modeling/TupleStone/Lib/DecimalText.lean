import TupleStone.Lib.Binary64
import Mathlib.Algebra.Order.Field.Power
import Mathlib.Algebra.Order.Field.Rat
import Mathlib.Data.List.TakeWhile
import Mathlib.Tactic.FieldSimp
import Mathlib.Tactic.Positivity
import Mathlib.Tactic.NormNum

/-! # What a decimal text denotes

The value of digits, of digits with a point and of scientific notation, and that the notation chosen for 17
significant digits denotes them at their exponent.
-/

set_option autoImplicit false

namespace Binary64

/-! ## Digit strings -/

def IsDigit (c : UInt8) : Prop := 48 ≤ c.toNat ∧ c.toNat ≤ 57

def digitsValue (digits : List UInt8) : Nat := digits.foldl (fun value c => 10 * value + (c.toNat - 48)) 0

theorem digitsValue_concat (digits : List UInt8) (c : UInt8) :
    digitsValue (digits ++ [c]) = 10 * digitsValue digits + (c.toNat - 48) := by
  rw [digitsValue, List.foldl_append]
  rfl

theorem digitsValue_append (front back : List UInt8) :
    digitsValue (front ++ back) = digitsValue front * 10 ^ back.length + digitsValue back := by
  induction back using List.reverseRecOn with
  | nil => simp [digitsValue]
  | append_singleton back c ih =>
    rw [← List.append_assoc, digitsValue_concat, digitsValue_concat, ih, List.length_append, List.length_singleton,
      pow_succ]
    ring

theorem digitsValue_zeros (count : Nat) : digitsValue (List.replicate count 48) = 0 := by
  induction count with
  | zero => rfl
  | succ count ih =>
    rw [List.replicate_succ', digitsValue_concat, ih]
    rfl

theorem decimalDigits_small {n : Nat} (h : n < 10) : decimalDigits n = [UInt8.ofNat (48 + n)] := by
  rw [decimalDigits, Nat.toDigits_of_lt_base h, List.map_singleton, Nat.toNat_digitChar_of_lt_ten h]

theorem decimalDigits_large {n : Nat} (h : 10 ≤ n) :
    decimalDigits n = decimalDigits (n / 10) ++ [UInt8.ofNat (48 + n % 10)] := by
  have hLast : n % 10 < 10 := Nat.mod_lt n (by decide)
  rw [decimalDigits, Nat.toDigits_of_base_le (by decide) h, List.map_append, List.map_singleton,
    Nat.toNat_digitChar_of_lt_ten hLast]
  rfl

theorem toNat_digit {d : Nat} (h : d < 10) : (UInt8.ofNat (48 + d)).toNat = 48 + d := by
  rw [UInt8.toNat_ofNat']
  omega

theorem digitsValue_decimalDigits (n : Nat) : digitsValue (decimalDigits n) = n := by
  induction n using Nat.strongRecOn with
  | ind n ih =>
    rcases Nat.lt_or_ge n 10 with hSmall | hLarge
    · have hByte := toNat_digit hSmall
      rw [decimalDigits_small hSmall]
      simp only [digitsValue, List.foldl_cons, List.foldl_nil]
      omega
    · have hByte := toNat_digit (Nat.mod_lt n (by decide : 0 < 10))
      rw [decimalDigits_large hLarge, digitsValue_concat, ih (n / 10) (by omega)]
      omega

theorem decimalDigits_injective {m n : Nat} (h : decimalDigits m = decimalDigits n) : m = n := by
  have hValue := congrArg digitsValue h
  rwa [digitsValue_decimalDigits, digitsValue_decimalDigits] at hValue

theorem isDigit_of_mem_decimalDigits {n : Nat} {c : UInt8} (h : c ∈ decimalDigits n) : IsDigit c := by
  induction n using Nat.strongRecOn with
  | ind n ih =>
    rcases Nat.lt_or_ge n 10 with hSmall | hLarge
    · have hByte := toNat_digit hSmall
      rw [decimalDigits_small hSmall, List.mem_singleton] at h
      subst h
      constructor <;> omega
    · have hByte := toNat_digit (Nat.mod_lt n (by decide : 0 < 10))
      rw [decimalDigits_large hLarge, List.mem_append, List.mem_singleton] at h
      rcases h with h | h
      · exact ih (n / 10) (by omega) h
      · subst h
        constructor <;> omega

theorem length_decimalDigits {n k : Nat} (hLow : 10 ^ k ≤ n) (hHigh : n < 10 ^ (k + 1)) :
    (decimalDigits n).length = k + 1 := by
  have hLength : (decimalDigits n).length = (Nat.toDigits 10 n).length := List.length_map _
  have hUpper : (Nat.toDigits 10 n).length ≤ k + 1 :=
    (Nat.length_toDigits_le_iff (by decide) (Nat.succ_pos k)).mpr hHigh
  have hLower : ¬ (Nat.toDigits 10 n).length ≤ k := by
    intro hShort
    rcases Nat.eq_zero_or_pos k with rfl | hk
    · exact absurd Nat.length_toDigits_pos (Nat.not_lt.mpr hShort)
    · exact absurd ((Nat.length_toDigits_le_iff (by decide) hk).mp hShort) (Nat.not_lt.mpr hLow)
  omega

/-- Dropped zeros can be put back. -/
theorem exists_zeros (digits : List UInt8) :
    ∃ count, digits = dropTrailingZeros digits ++ List.replicate count 48 := by
  have hZeros : (digits.reverse.takeWhile (· == 48)) =
      List.replicate (digits.reverse.takeWhile (· == 48)).length 48 := by
    apply List.eq_replicate_length.mpr
    intro c hc
    simpa using List.mem_takeWhile_imp hc
  have hSplit := congrArg List.reverse (List.takeWhile_append_dropWhile (p := (· == 48)) (l := digits.reverse))
  refine ⟨(digits.reverse.takeWhile (· == 48)).length, ?_⟩
  rw [List.reverse_append, List.reverse_reverse, hZeros, List.reverse_replicate] at hSplit
  exact hSplit.symm

/-! ## The value of a text -/

/-- The value of digits with at most one point among them. -/
def pointValue (text : List UInt8) : ℚ :=
  let whole := text.takeWhile (· != 46)
  let fraction := (text.dropWhile (· != 46)).tail
  digitsValue (whole ++ fraction) / 10 ^ fraction.length

/-- The value of a text in fixed or scientific notation. -/
def textValue (text : List UInt8) : ℚ :=
  let mantissa := pointValue (text.takeWhile (· != 101))
  match text.dropWhile (· != 101) with
  | _ :: sign :: power => mantissa * 10 ^ (if sign = 45 then -(digitsValue power : ℤ) else digitsValue power)
  | _ => mantissa

theorem IsDigit.ne {c : UInt8} (h : IsDigit c) {other : UInt8} (hOther : other.toNat < 48 ∨ 57 < other.toNat) :
    c ≠ other := by
  rintro rfl
  have hLow := h.1
  have hHigh := h.2
  omega

theorem pointValue_whole {whole : List UInt8} (h : ∀ c ∈ whole, IsDigit c) : pointValue whole = digitsValue whole := by
  have hPoint : ∀ c ∈ whole, (c != 46) = true := fun c hc => bne_iff_ne.mpr ((h c hc).ne (by decide))
  have hTake : whole.takeWhile (· != 46) = whole := List.takeWhile_eq_self_iff.mpr hPoint
  have hDrop : whole.dropWhile (· != 46) = [] := List.dropWhile_eq_nil_iff.mpr hPoint
  simp only [pointValue, hTake, hDrop, List.tail_nil, List.append_nil, List.length_nil, pow_zero, div_one]

theorem pointValue_point {whole : List UInt8} (h : ∀ c ∈ whole, IsDigit c) (fraction : List UInt8) :
    pointValue (whole ++ 46 :: fraction) = digitsValue (whole ++ fraction) / 10 ^ fraction.length := by
  have hPoint : ∀ c ∈ whole, (c != 46) = true := fun c hc => bne_iff_ne.mpr ((h c hc).ne (by decide))
  have hTake : (whole ++ 46 :: fraction).takeWhile (· != 46) = whole := by
    rw [List.takeWhile_append_of_pos hPoint, List.takeWhile_cons_of_neg (by decide), List.append_nil]
  have hDrop : (whole ++ 46 :: fraction).dropWhile (· != 46) = 46 :: fraction := by
    rw [List.dropWhile_append_of_pos hPoint, List.dropWhile_cons_of_neg (by decide)]
  simp only [pointValue, hTake, hDrop, List.tail_cons]

/-- Zeros at the end of a fraction do not count. -/
theorem fraction_zeros (front fraction : List UInt8) :
    (digitsValue (front ++ dropTrailingZeros fraction) : ℚ) / 10 ^ (dropTrailingZeros fraction).length =
      digitsValue (front ++ fraction) / 10 ^ fraction.length := by
  obtain ⟨count, hCount⟩ := exists_zeros fraction
  have hTen : (10 : ℚ) ^ count ≠ 0 := by positivity
  have hValue : digitsValue (front ++ fraction) = digitsValue (front ++ dropTrailingZeros fraction) * 10 ^ count := by
    conv_lhs => rw [hCount, ← List.append_assoc, digitsValue_append, digitsValue_zeros, List.length_replicate,
      Nat.add_zero]
  have hLength : fraction.length = (dropTrailingZeros fraction).length + count := by
    conv_lhs => rw [hCount, List.length_append, List.length_replicate]
  rw [hValue, hLength, pow_add, Nat.cast_mul, Nat.cast_pow, Nat.cast_ofNat, mul_div_mul_right _ _ hTen]

theorem mem_of_mem_dropTrailingZeros {digits : List UInt8} {c : UInt8} (h : c ∈ dropTrailingZeros digits) :
    c ∈ digits := by
  obtain ⟨count, hCount⟩ := exists_zeros digits
  rw [hCount]
  exact List.mem_append_left _ h

/-- The point and the fraction are left out when the fraction is only zeros. -/
theorem pointValue_trimmed {whole : List UInt8} (h : ∀ c ∈ whole, IsDigit c) (rest : List UInt8) :
    pointValue (whole ++ (if (dropTrailingZeros rest).isEmpty then [] else 46 :: dropTrailingZeros rest)) =
      digitsValue (whole ++ rest) / 10 ^ rest.length := by
  rw [← fraction_zeros whole rest]
  split
  · rename_i hEmpty
    rw [List.isEmpty_iff.mp hEmpty, List.append_nil, pointValue_whole h, List.length_nil, pow_zero, div_one]
  · exact pointValue_point h _

theorem textValue_fixed {text : List UInt8} (h : ∀ c ∈ text, c ≠ 101) : textValue text = pointValue text := by
  have hAll : ∀ c ∈ text, (c != 101) = true := fun c hc => bne_iff_ne.mpr (h c hc)
  have hTake : text.takeWhile (· != 101) = text := List.takeWhile_eq_self_iff.mpr hAll
  have hDrop : text.dropWhile (· != 101) = [] := List.dropWhile_eq_nil_iff.mpr hAll
  simp only [textValue, hTake, hDrop]

theorem textValue_scientific {mantissa : List UInt8} (h : ∀ c ∈ mantissa, c ≠ 101) (sign : UInt8)
    (power : List UInt8) :
    textValue (mantissa ++ 101 :: sign :: power) =
      pointValue mantissa * 10 ^ (if sign = 45 then -(digitsValue power : ℤ) else digitsValue power) := by
  have hAll : ∀ c ∈ mantissa, (c != 101) = true := fun c hc => bne_iff_ne.mpr (h c hc)
  have hTake : (mantissa ++ 101 :: sign :: power).takeWhile (· != 101) = mantissa := by
    rw [List.takeWhile_append_of_pos hAll, List.takeWhile_cons_of_neg (by decide), List.append_nil]
  have hDrop : (mantissa ++ 101 :: sign :: power).dropWhile (· != 101) = 101 :: sign :: power := by
    rw [List.dropWhile_append_of_pos hAll, List.dropWhile_cons_of_neg (by decide)]
  simp only [textValue, hTake, hDrop]

/-! ## Notation -/

/-- The 17 digits of a number and the decimal exponent of the first of them. -/
def significant (num den : Nat) : Nat × Int :=
  let guess := decimalExponent num den
  let rounded := scaleDecimal num den (16 - guess)
  if 10 ^ 17 ≤ rounded then (rounded / 10, guess + 1) else (rounded, guess)

/-- Digits in fixed or scientific notation, as the exponent of the first of them decides. -/
def layout (digits : List UInt8) (exponent : Int) : List UInt8 :=
  if exponent < -4 ∨ 17 ≤ exponent then
    let fraction := dropTrailingZeros digits.tail
    let mantissa := digits.take 1 ++ (if fraction.isEmpty then [] else 46 :: fraction)
    let power := decimalDigits exponent.natAbs
    mantissa ++ [101, if exponent < 0 then 45 else 43] ++ (if power.length < 2 then 48 :: power else power)
  else if exponent < 0 then
    [48, 46] ++ List.replicate (exponent.natAbs - 1) 48 ++ dropTrailingZeros digits
  else
    let whole := digits.take (exponent.toNat + 1)
    let fraction := dropTrailingZeros (digits.drop (exponent.toNat + 1))
    whole ++ (if fraction.isEmpty then [] else 46 :: fraction)

theorem formatPositive_eq (num den : Nat) :
    formatPositive num den = layout (decimalDigits (significant num den).1) (significant num den).2 := by
  rw [formatPositive, significant]
  by_cases hCarried : 10 ^ 17 ≤ scaleDecimal num den (16 - decimalExponent num den)
  · simp only [hCarried, decide_true, if_true]
    rfl
  · simp only [hCarried, decide_false, Bool.false_eq_true, if_false]
    rfl

theorem digitsValue_padded (power : List UInt8) :
    digitsValue (if power.length < 2 then 48 :: power else power) = digitsValue power := by
  split
  · have hZero : digitsValue [48] = 0 := rfl
    rw [← List.singleton_append, digitsValue_append, hZero, Nat.zero_mul, Nat.zero_add]
  · rfl

theorem isDigit_zero : IsDigit 48 := by
  constructor <;> decide

/-- Digits with a point have no exponent mark. -/
theorem not_mark_of_trimmed {whole rest : List UInt8} (hWhole : ∀ c ∈ whole, IsDigit c) (hRest : ∀ c ∈ rest, IsDigit c) :
    ∀ c ∈ whole ++ (if (dropTrailingZeros rest).isEmpty then [] else 46 :: dropTrailingZeros rest), c ≠ 101 := by
  intro c hc
  rw [List.mem_append] at hc
  rcases hc with hc | hc
  · exact (hWhole c hc).ne (by decide)
  · split at hc
    · cases hc
    · rcases List.mem_cons.mp hc with rfl | hc
      · decide
      · exact (hRest c (mem_of_mem_dropTrailingZeros hc)).ne (by decide)

theorem textValue_trimmed {whole rest : List UInt8} (hWhole : ∀ c ∈ whole, IsDigit c) (hRest : ∀ c ∈ rest, IsDigit c) :
    textValue (whole ++ (if (dropTrailingZeros rest).isEmpty then [] else 46 :: dropTrailingZeros rest)) =
      digitsValue (whole ++ rest) / 10 ^ rest.length := by
  rw [textValue_fixed (not_mark_of_trimmed hWhole hRest), pointValue_trimmed hWhole]

theorem textValue_small {zeros digits : List UInt8} (hZeros : ∀ c ∈ zeros, IsDigit c) (hDigits : ∀ c ∈ digits, IsDigit c) :
    textValue ([48, 46] ++ zeros ++ dropTrailingZeros digits) =
      digitsValue (zeros ++ digits) / 10 ^ (zeros ++ digits).length := by
  have hMark : ∀ c ∈ [48, 46] ++ zeros ++ dropTrailingZeros digits, c ≠ 101 := by
    intro c hc
    rw [List.append_assoc, List.mem_append, List.mem_append] at hc
    rcases hc with hc | hc | hc
    · simp only [List.mem_cons, List.not_mem_nil, or_false] at hc
      rcases hc with rfl | rfl <;> decide
    · exact (hZeros c hc).ne (by decide)
    · exact (hDigits c (mem_of_mem_dropTrailingZeros hc)).ne (by decide)
  have hWhole : ∀ c ∈ ([48] : List UInt8), IsDigit c := by
    intro c hc
    rw [List.mem_singleton.mp hc]
    exact isDigit_zero
  have hPoint := pointValue_point hWhole (zeros ++ dropTrailingZeros digits)
  have hLead : digitsValue [48] = 0 := rfl
  have hText : [48, 46] ++ zeros ++ dropTrailingZeros digits = [48] ++ 46 :: (zeros ++ dropTrailingZeros digits) := rfl
  rw [textValue_fixed hMark, hText, hPoint, digitsValue_append [48], hLead, Nat.zero_mul, Nat.zero_add,
    List.length_append, List.length_append, Nat.add_comm zeros.length, Nat.add_comm zeros.length, pow_add, pow_add,
    ← div_div, ← div_div, fraction_zeros zeros digits]

theorem textValue_layout {digits : List UInt8} (hDigits : ∀ c ∈ digits, IsDigit c) (hLength : digits.length = 17)
    (exponent : Int) : textValue (layout digits exponent) = digitsValue digits * (10 : ℚ) ^ (exponent - 16) := by
  have hTen : (10 : ℚ) ≠ 0 := by norm_num
  have hTake : ∀ k, ∀ c ∈ digits.take k, IsDigit c := fun k c hc => hDigits c (List.mem_of_mem_take hc)
  have hDrop : ∀ k, ∀ c ∈ digits.drop k, IsDigit c := fun k c hc => hDigits c (List.mem_of_mem_drop hc)
  rw [layout]
  split
  · -- scientific: one digit before the point
    have hTail : digits.tail = digits.drop 1 := List.drop_one.symm
    have hMantissa := not_mark_of_trimmed (hTake 1) (hDrop 1)
    simp only [hTail, List.append_assoc, List.cons_append, List.nil_append] at hMantissa ⊢
    rw [← List.append_assoc, textValue_scientific hMantissa, pointValue_trimmed (hTake 1), List.take_append_drop,
      List.length_drop, hLength, digitsValue_padded, digitsValue_decimalDigits]
    have hPower : (if (if exponent < 0 then (45 : UInt8) else 43) = 45 then -(exponent.natAbs : ℤ)
        else (exponent.natAbs : ℤ)) = exponent := by
      split
      · rw [if_pos rfl]
        omega
      · rw [if_neg (by decide)]
        omega
    rw [hPower, zpow_sub₀ hTen]
    norm_num
    ring
  · split
    · rename_i hNegative
      have hZeros : ∀ c ∈ List.replicate (exponent.natAbs - 1) (48 : UInt8), IsDigit c := by
        intro c hc
        rw [List.eq_of_mem_replicate hc]
        exact isDigit_zero
      have hExponent : exponent - 16 = -((exponent.natAbs - 1 + 17 : Nat) : ℤ) := by omega
      rw [textValue_small hZeros hDigits, digitsValue_append, digitsValue_zeros, Nat.zero_mul, Nat.zero_add,
        List.length_append, List.length_replicate, hLength, hExponent, zpow_neg, zpow_natCast, div_eq_mul_inv]
    · rename_i hRange hNegative
      have hExponent : exponent - 16 = -((17 - (exponent.toNat + 1) : Nat) : ℤ) := by omega
      simp only
      rw [textValue_trimmed (hTake _) (hDrop _), List.take_append_drop, List.length_drop, hLength, hExponent, zpow_neg,
        zpow_natCast, div_eq_mul_inv]

end Binary64
