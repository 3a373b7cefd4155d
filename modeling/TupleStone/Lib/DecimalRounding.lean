import TupleStone.Lib.DecimalText

/-! # Numbers printed at 17 significant digits

The decimal printed for a number is close to it, and binary64 magnitudes are further apart than that, so two
magnitudes with one text are the same magnitude.
-/

set_option autoImplicit false

namespace Binary64

/-! ## Closeness -/

theorem roundHalfEven_close (num : Nat) {den : Nat} (hDen : 0 < den) :
    |(num : ℚ) / den - roundHalfEven num den| ≤ 1 / 2 := by
  have hDiv := Nat.div_add_mod num den
  have hMod := Nat.mod_lt num hDen
  have hDenQ : (0 : ℚ) < den := Nat.cast_pos.mpr hDen
  have hSplit : (num : ℚ) / den = (num / den : Nat) + (num % den : Nat) / (den : ℚ) := by
    have hCast : (num : ℚ) = den * (num / den : Nat) + (num % den : Nat) := by exact_mod_cast hDiv.symm
    rw [hCast, add_div, mul_div_cancel_left₀ _ hDenQ.ne']
  rw [abs_le, hSplit, roundHalfEven]
  split
  · rename_i hUp
    have hHalf : den ≤ 2 * (num % den) := by omega
    have hLow : (1 : ℚ) / 2 ≤ (num % den : Nat) / (den : ℚ) := by
      rw [div_le_div_iff₀ two_pos hDenQ]
      exact_mod_cast (by omega : 1 * den ≤ num % den * 2)
    have hHigh : (num % den : Nat) / (den : ℚ) ≤ 1 := by
      rw [div_le_one hDenQ]
      exact_mod_cast hMod.le
    rw [Nat.cast_add, Nat.cast_one]
    constructor <;> linarith
  · rename_i hDown
    have hHalf : 2 * (num % den) ≤ den := by omega
    have hLow : (0 : ℚ) ≤ (num % den : Nat) / (den : ℚ) := by positivity
    have hHigh : (num % den : Nat) / (den : ℚ) ≤ 1 / 2 := by
      rw [div_le_div_iff₀ hDenQ two_pos]
      exact_mod_cast (by omega : num % den * 2 ≤ 1 * den)
    constructor <;> linarith

theorem decimalExponent_bounds {num den : Nat} (hNum : 0 < num) (hDen : 0 < den) :
    (10 : ℚ) ^ decimalExponent num den ≤ num / den ∧ (num : ℚ) / den < 10 ^ (decimalExponent num den + 1) := by
  have hDenQ : (0 : ℚ) < den := Nat.cast_pos.mpr hDen
  have hNumQ : (0 : ℚ) < num := Nat.cast_pos.mpr hNum
  rw [decimalExponent]
  split
  · rename_i hLarge
    have hPos : num / den ≠ 0 := (Nat.div_pos hLarge hDen).ne'
    have hLow := Nat.pow_log_le_self 10 hPos
    have hHigh := Nat.lt_pow_succ_log_self (by decide : 1 < 10) (num / den)
    rw [Nat.le_div_iff_mul_le hDen] at hLow
    rw [Nat.div_lt_iff_lt_mul hDen] at hHigh
    constructor
    · rw [zpow_natCast, le_div_iff₀ hDenQ]
      exact_mod_cast hLow
    · rw [div_lt_iff₀ hDenQ]
      exact_mod_cast hHigh
  · rename_i hSmall
    have hCeil : 1 < (den + num - 1) / num := by
      have hTwo : 2 ≤ (den + num - 1) / num := by
        rw [Nat.le_div_iff_mul_le hNum]
        omega
      omega
    have hLow := Nat.le_pow_clog (by decide : 1 < 10) ((den + num - 1) / num)
    have hHigh := Nat.pow_pred_clog_lt_self (by decide : 1 < 10) hCeil
    have hPos := Nat.clog_pos (by decide : 1 < 10) hCeil
    generalize Nat.clog 10 ((den + num - 1) / num) = k at hLow hHigh hPos
    constructor
    · have hDenLe : den ≤ num * 10 ^ k := by
        have hLt := (Nat.div_lt_iff_lt_mul hNum).mp (Nat.lt_succ_of_le hLow)
        have hExpand : (10 ^ k).succ * num = num * 10 ^ k + num := by
          rw [Nat.succ_mul, Nat.mul_comm]
        omega
      rw [zpow_neg, zpow_natCast, inv_le_iff_one_le_mul₀ (by positivity), ← mul_div_right_comm, le_div_iff₀ hDenQ,
        one_mul]
      exact_mod_cast hDenLe
    · have hNumLt : num * 10 ^ (k - 1) < den := by
        have hGe := (Nat.le_div_iff_mul_le hNum).mp (Nat.succ_le_of_lt hHigh)
        have hExpand : (10 ^ (k - 1)).succ * num = num * 10 ^ (k - 1) + num := by
          rw [Nat.succ_mul, Nat.mul_comm]
        have hPred : k.pred = k - 1 := rfl
        rw [hPred] at hGe
        omega
      have hExponent : -(k : ℤ) + 1 = -((k - 1 : Nat) : ℤ) := by omega
      rw [hExponent, zpow_neg, zpow_natCast, lt_inv_comm₀ (by positivity) (by positivity), inv_div, lt_div_iff₀ hNumQ,
        mul_comm]
      exact_mod_cast hNumLt

theorem scaleDecimal_close (num : Nat) {den : Nat} (hDen : 0 < den) (places : Int) :
    |(num : ℚ) / den * 10 ^ places - scaleDecimal num den places| ≤ 1 / 2 := by
  rw [scaleDecimal]
  split
  · rename_i hPlaces
    have hClose := roundHalfEven_close (num * 10 ^ places.toNat) hDen
    have hExponent : places = (places.toNat : ℤ) := by omega
    rwa [Nat.cast_mul, Nat.cast_pow, Nat.cast_ofNat, mul_div_right_comm, ← zpow_natCast, ← hExponent] at hClose
  · rename_i hPlaces
    have hClose := roundHalfEven_close num (Nat.mul_pos hDen (Nat.pow_pos (by decide : 0 < 10) (n := (-places).toNat)))
    have hExponent : places = -((-places).toNat : ℤ) := by omega
    rw [Nat.cast_mul, Nat.cast_pow, Nat.cast_ofNat, ← div_div, div_eq_mul_inv _ ((10 : ℚ) ^ _), ← zpow_natCast,
      ← zpow_neg, ← hExponent] at hClose
    exact hClose

/-- A decimal of 17 digits within half a unit of its last digit. -/
structure Nearest (value : ℚ) (digits : Nat) (exponent : Int) : Prop where
  low : 10 ^ 16 ≤ digits
  high : digits < 10 ^ 17
  close : |value - digits * 10 ^ (exponent - 16)| ≤ 10 ^ (exponent - 16) / 2

theorem scaled_bounds {value : ℚ} {guess : Int} (hLow : 10 ^ guess ≤ value) (hHigh : value < 10 ^ (guess + 1)) :
    10 ^ 16 ≤ value * 10 ^ (16 - guess) ∧ value * 10 ^ (16 - guess) < 10 ^ 17 := by
  have hTen : (10 : ℚ) ≠ 0 := by norm_num
  have hUnit : (0 : ℚ) < 10 ^ (16 - guess) := by positivity
  have hBottom : (10 : ℚ) ^ guess * 10 ^ (16 - guess) = 10 ^ 16 := by
    rw [← zpow_add₀ hTen, add_sub_cancel]
    norm_num
  have hTop : (10 : ℚ) ^ (guess + 1) * 10 ^ (16 - guess) = 10 ^ 17 := by
    rw [← zpow_add₀ hTen]
    have hSum : guess + 1 + (16 - guess) = 17 := by omega
    rw [hSum]
    norm_num
  constructor
  · rw [← hBottom]
    exact mul_le_mul_of_nonneg_right hLow hUnit.le
  · rw [← hTop]
    exact mul_lt_mul_of_pos_right hHigh hUnit

theorem significant_nearest {num den : Nat} (hNum : 0 < num) (hDen : 0 < den) :
    Nearest (num / den) (significant num den).1 (significant num den).2 := by
  obtain ⟨hLow, hHigh⟩ := decimalExponent_bounds hNum hDen
  obtain ⟨hBottom, hTop⟩ := scaled_bounds hLow hHigh
  have hClose := scaleDecimal_close num hDen (16 - decimalExponent num den)
  have hTen : (10 : ℚ) ≠ 0 := by norm_num
  rw [significant]
  generalize decimalExponent num den = guess at *
  generalize scaleDecimal num den (16 - guess) = rounded at *
  generalize (num : ℚ) / den = value at *
  obtain ⟨hAbove, hBelow⟩ := abs_le.mp hClose
  have hRoundedLow : 10 ^ 16 ≤ rounded := by
    have h : ((10 ^ 16 : Nat) : ℚ) < (rounded + 1 : Nat) := by
      push_cast
      linarith
    have := Nat.cast_lt.mp h
    omega
  have hRoundedHigh : rounded ≤ 10 ^ 17 := by
    have h : (rounded : ℚ) < (10 ^ 17 + 1 : Nat) := by
      push_cast
      linarith
    have := Nat.cast_lt.mp h
    omega
  have hUnit : (0 : ℚ) < 10 ^ (guess - 16) := by positivity
  have hInverse : (10 : ℚ) ^ (16 - guess) * 10 ^ (guess - 16) = 1 := by
    rw [← zpow_add₀ hTen]
    have hSum : 16 - guess + (guess - 16) = 0 := by omega
    rw [hSum, zpow_zero]
  have hBack : value - rounded * 10 ^ (guess - 16) = (value * 10 ^ (16 - guess) - rounded) * 10 ^ (guess - 16) := by
    rw [sub_mul, mul_assoc, hInverse, mul_one]
  have hDistance : |value - rounded * 10 ^ (guess - 16)| ≤ 10 ^ (guess - 16) / 2 := by
    rw [hBack, abs_mul, abs_of_pos hUnit]
    linarith [mul_le_mul_of_nonneg_right hClose hUnit.le]
  split
  · -- the carry leaves `10 ^ 16` at the next exponent, the same decimal
    have hRounded : rounded = 10 ^ 17 := by omega
    have hNext : (10 : ℚ) ^ (guess + 1 - 16) = 10 ^ (guess - 16) * 10 := by
      have hSum : guess + 1 - 16 = guess - 16 + 1 := by omega
      rw [hSum, zpow_add_one₀ hTen]
    subst hRounded
    refine ⟨(by decide : 10 ^ 16 ≤ 10 ^ 17 / 10), (by decide : 10 ^ 17 / 10 < 10 ^ 17), ?_⟩
    have hSame : ((10 ^ 17 / 10 : Nat) : ℚ) * 10 ^ (guess + 1 - 16) = ((10 ^ 17 : Nat) : ℚ) * 10 ^ (guess - 16) := by
      rw [hNext]
      norm_num
      ring
    simp only
    rw [hSame, hNext]
    linarith
  · exact ⟨hRoundedLow, by omega, hDistance⟩

theorem textValue_formatPositive {num den : Nat} (hNum : 0 < num) (hDen : 0 < den) :
    textValue (formatPositive num den) =
      (significant num den).1 * (10 : ℚ) ^ ((significant num den).2 - 16) := by
  have hNearest := significant_nearest hNum hDen
  rw [formatPositive_eq, textValue_layout (fun _ => isDigit_of_mem_decimalDigits)
    (length_decimalDigits hNearest.low hNearest.high), digitsValue_decimalDigits]

/-- The printed decimal differs from the number by at most a half of its own `10 ^ 16`th part. -/
theorem formatPositive_close {num den : Nat} (hNum : 0 < num) (hDen : 0 < den) :
    0 < textValue (formatPositive num den) ∧
      |(num : ℚ) / den - textValue (formatPositive num den)| * (2 * 10 ^ 16) ≤ textValue (formatPositive num den) := by
  have hNearest := significant_nearest hNum hDen
  have hLow : (10 ^ 16 : ℚ) ≤ (significant num den).1 := by exact_mod_cast hNearest.low
  have hClose := hNearest.close
  have hUnit : (0 : ℚ) < 10 ^ ((significant num den).2 - 16) := by positivity
  rw [textValue_formatPositive hNum hDen]
  generalize (10 : ℚ) ^ ((significant num den).2 - 16) = unit at *
  have hProduct := mul_le_mul_of_nonneg_right hLow hUnit.le
  constructor
  · linarith
  · linarith

/-- Two numbers with one text are closer to each other than binary64 magnitudes can be. -/
theorem formatPositive_apart {m n den : Nat} (hm : 0 < m) (hDen : 0 < den) (hApart : m < (n - m) * 2 ^ 53) :
    formatPositive m den ≠ formatPositive n den := by
  intro hText
  have hLt : m < n := by
    rcases Nat.lt_or_ge m n with hLt | hGe
    · exact hLt
    · rw [Nat.sub_eq_zero_of_le hGe, Nat.zero_mul] at hApart
      omega
  have hDenQ : (0 : ℚ) < den := Nat.cast_pos.mpr hDen
  obtain ⟨hPos, hFirst⟩ := formatPositive_close hm hDen
  obtain ⟨_, hSecond⟩ := formatPositive_close (hm.trans hLt) hDen
  rw [← hText] at hSecond
  generalize textValue (formatPositive m den) = decimal at *
  have hApartQ : (m : ℚ) / den < ((n : ℚ) / den - m / den) * 2 ^ 53 := by
    rw [← sub_div, div_mul_eq_mul_div, div_lt_div_iff_of_pos_right hDenQ, ← Nat.cast_sub hLt.le]
    exact_mod_cast hApart
  generalize (m : ℚ) / den = x at *
  generalize (n : ℚ) / den = y at *
  have hx := (abs_le.mp (le_refl |x - decimal|)).1
  have hy := (abs_le.mp (le_refl |y - decimal|)).2
  linarith

/-! ## Texts of magnitudes -/

/-- The step from a magnitude to the next one, in units. -/
def spacing (magnitude : Nat) : Nat := 2 ^ (magnitude / 2 ^ 52 - 1)

theorem units_add_spacing (m : Nat) : units m + spacing m ≤ units (m + 1) := by
  rw [units, units, spacing]
  rcases Nat.lt_or_ge (m % 2 ^ 52 + 1) (2 ^ 52) with hSame | hCarry
  · have hDiv : (m + 1) / 2 ^ 52 = m / 2 ^ 52 := by omega
    have hMod : (m + 1) % 2 ^ 52 = m % 2 ^ 52 + 1 := by omega
    rw [hDiv, hMod]
    split
    · rename_i hZero
      rw [hZero, Nat.zero_sub, pow_zero]
    · rw [← Nat.add_assoc, Nat.add_mul _ 1, Nat.one_mul]
  · have hDiv : (m + 1) / 2 ^ 52 = m / 2 ^ 52 + 1 := by omega
    have hMod : (m + 1) % 2 ^ 52 = 0 := by omega
    have hLast : m % 2 ^ 52 = 2 ^ 52 - 1 := by omega
    rw [hDiv, hMod, hLast, if_neg (Nat.succ_ne_zero _), Nat.add_sub_cancel, Nat.add_zero]
    split
    · rename_i hZero
      rw [hZero]
      decide
    · rename_i hPos
      have hPower : 2 ^ (m / 2 ^ 52) = 2 * 2 ^ (m / 2 ^ 52 - 1) := by
        rw [← pow_succ']
        congr 1
        omega
      rw [hPower]
      generalize 2 ^ (m / 2 ^ 52 - 1) = step
      omega

theorem units_lt_spacing (m : Nat) : units m < spacing m * 2 ^ 53 := by
  rw [units, spacing]
  have hMod : m % 2 ^ 52 < 2 ^ 52 := Nat.mod_lt _ (by decide)
  split
  · rename_i hZero
    rw [hZero]
    omega
  · rw [Nat.mul_comm (2 ^ _)]
    exact Nat.mul_lt_mul_of_pos_right (by omega) (Nat.two_pow_pos _)

theorem units_strictMono : StrictMono units := by
  apply strictMono_nat_of_lt_succ
  intro m
  have hStep := units_add_spacing m
  have hPos : 0 < spacing m := Nat.two_pow_pos _
  omega

theorem units_apart {m n : Nat} (h : m < n) : units m < (units n - units m) * 2 ^ 53 := by
  have hNext : units (m + 1) ≤ units n := units_strictMono.monotone h
  have hStep := units_add_spacing m
  have hGap : spacing m ≤ units n - units m := by omega
  exact (units_lt_spacing m).trans_le (Nat.mul_le_mul_right (2 ^ 53) hGap)

theorem units_pos {m : Nat} (h : m ≠ 0) : 0 < units m := by
  have hLt := units_strictMono (Nat.pos_of_ne_zero h)
  omega

def magnitudeText (magnitude : Nat) : List UInt8 :=
  if infinityBits < magnitude then [110, 97, 110]
  else if magnitude = infinityBits then [105, 110, 102]
  else if magnitude = 0 then [48]
  else formatPositive (units magnitude) (2 ^ 1074)

theorem toText_eq (x : Binary64) :
    x.toText = (if x.negative then [45] else []) ++ magnitudeText x.magnitude := by
  rw [toText, magnitudeText, isNaN, isInfinite, isZero]
  generalize formatPositive (units x.magnitude) (2 ^ 1074) = body
  simp only [decide_eq_true_eq]
  split
  · rfl
  · split
    · rfl
    · split <;> rfl

/-! ## Bytes of a text -/

theorem mem_layout {digits : List UInt8} (hDigits : ∀ c ∈ digits, IsDigit c) {exponent : Int} {c : UInt8}
    (h : c ∈ layout digits exponent) : IsDigit c ∨ c = 43 ∨ c = 45 ∨ c = 46 ∨ c = 101 := by
  have hTrimmed : ∀ {rest : List UInt8}, (∀ c ∈ rest, c ∈ digits) →
      c ∈ (if (dropTrailingZeros rest).isEmpty then [] else 46 :: dropTrailingZeros rest) → IsDigit c ∨ c = 46 := by
    intro rest hRest hc
    split at hc
    · cases hc
    · rcases List.mem_cons.mp hc with rfl | hc
      · exact Or.inr rfl
      · exact Or.inl (hDigits c (hRest c (mem_of_mem_dropTrailingZeros hc)))
  rw [layout] at h
  split at h
  · simp only [List.mem_append, List.mem_cons, List.not_mem_nil, or_false] at h
    rcases h with ((h | h) | h | h) | h
    · exact Or.inl (hDigits c (List.mem_of_mem_take h))
    · have := hTrimmed (fun c hc => List.mem_of_mem_tail hc) h
      tauto
    · tauto
    · split at h <;> tauto
    · split at h
      · rcases List.mem_cons.mp h with rfl | h
        · exact Or.inl isDigit_zero
        · exact Or.inl (isDigit_of_mem_decimalDigits h)
      · exact Or.inl (isDigit_of_mem_decimalDigits h)
  · split at h
    · simp only [List.mem_append, List.mem_cons, List.not_mem_nil, or_false] at h
      rcases h with ((rfl | rfl) | h) | h
      · exact Or.inl isDigit_zero
      · tauto
      · rw [List.eq_of_mem_replicate h]
        exact Or.inl isDigit_zero
      · exact Or.inl (hDigits c (mem_of_mem_dropTrailingZeros h))
    · rcases List.mem_append.mp h with h | h
      · exact Or.inl (hDigits c (List.mem_of_mem_take h))
      · have := hTrimmed (fun c hc => List.mem_of_mem_drop hc) h
        tauto

theorem mem_formatPositive {num den : Nat} {c : UInt8} (h : c ∈ formatPositive num den) :
    IsDigit c ∨ c = 43 ∨ c = 45 ∨ c = 46 ∨ c = 101 := by
  rw [formatPositive_eq] at h
  exact mem_layout (fun _ => isDigit_of_mem_decimalDigits) h

theorem head_layout {digits : List UInt8} (hDigits : ∀ c ∈ digits, IsDigit c) (hNonempty : digits ≠ []) (exponent : Int) :
    ∃ c ∈ (layout digits exponent).head?, IsDigit c := by
  obtain ⟨first, rest, rfl⟩ := List.exists_cons_of_ne_nil hNonempty
  have hFirst := hDigits first List.mem_cons_self
  rw [layout]
  split
  · exact ⟨first, rfl, hFirst⟩
  · split
    · exact ⟨48, rfl, isDigit_zero⟩
    · exact ⟨first, rfl, hFirst⟩

theorem decimalDigits_ne_nil (n : Nat) : decimalDigits n ≠ [] := by
  intro h
  exact Nat.toDigits_ne_nil (List.map_eq_nil_iff.mp h)

theorem head_formatPositive (num den : Nat) : ∃ c ∈ (formatPositive num den).head?, IsDigit c := by
  rw [formatPositive_eq]
  exact head_layout (fun _ => isDigit_of_mem_decimalDigits) (decimalDigits_ne_nil _) _

theorem infinityBits_pos : 0 < infinityBits := by decide

/-- A magnitude's text is a number unless the magnitude is beyond the finite ones. -/
theorem magnitudeText_cases (m : Nat) :
    (infinityBits < m ∧ magnitudeText m = [110, 97, 110]) ∨ (m = infinityBits ∧ magnitudeText m = [105, 110, 102]) ∨
      (m = 0 ∧ magnitudeText m = [48]) ∨
      (0 < m ∧ m < infinityBits ∧ magnitudeText m = formatPositive (units m) (2 ^ 1074)) := by
  have hPos := infinityBits_pos
  rw [magnitudeText]
  generalize formatPositive (units m) (2 ^ 1074) = body
  split
  · rename_i hNaN
    exact Or.inl ⟨hNaN, rfl⟩
  · split
    · rename_i hInfinite
      exact Or.inr (Or.inl ⟨hInfinite, rfl⟩)
    · split
      · rename_i hZero
        exact Or.inr (Or.inr (Or.inl ⟨hZero, rfl⟩))
      · exact Or.inr (Or.inr (Or.inr ⟨by omega, by omega, rfl⟩))

theorem textValue_zero : textValue [48] = 0 := by
  rw [textValue_fixed (by simp), pointValue_whole (by simp [isDigit_zero])]
  rfl

theorem formatPositive_ne_word {num den : Nat} {c : UInt8} (hc : c = 110 ∨ c = 105) (rest : List UInt8) :
    formatPositive num den ≠ c :: rest := by
  intro h
  have hMem : c ∈ formatPositive num den := by
    rw [h]
    exact List.mem_cons_self
  rcases mem_formatPositive hMem with hDigit | hOther
  · have hHigh := hDigit.2
    rcases hc with rfl | rfl <;> exact absurd hHigh (by decide)
  · rcases hc with rfl | rfl <;> exact absurd hOther (by decide)

theorem formatPositive_ne_zero {num den : Nat} (hNum : 0 < num) (hDen : 0 < den) : formatPositive num den ≠ [48] := by
  intro h
  have hPos := (formatPositive_close hNum hDen).1
  rw [h, textValue_zero] at hPos
  exact lt_irrefl 0 hPos

theorem formatPositive_injective {m n : Nat} (hm : 0 < m) (hn : 0 < n)
    (h : formatPositive (units m) (2 ^ 1074) = formatPositive (units n) (2 ^ 1074)) : m = n := by
  have hDen : 0 < 2 ^ 1074 := Nat.two_pow_pos _
  rcases Nat.lt_trichotomy m n with hLt | hEq | hGt
  · exact absurd h (formatPositive_apart (units_pos hm.ne') hDen (units_apart hLt))
  · exact hEq
  · exact absurd h.symm (formatPositive_apart (units_pos hn.ne') hDen (units_apart hGt))

/-- Magnitudes with one text are equal, unless both are NaN. -/
theorem eq_of_magnitudeText_eq {m n : Nat} (h : magnitudeText m = magnitudeText n) :
    (infinityBits < m ∧ infinityBits < n) ∨ m = n := by
  have hDen : 0 < 2 ^ 1074 := Nat.two_pow_pos _
  rcases magnitudeText_cases m with ⟨hm, hTextM⟩ | ⟨hm, hTextM⟩ | ⟨hm, hTextM⟩ | ⟨hm, _, hTextM⟩ <;>
    rcases magnitudeText_cases n with ⟨hn, hTextN⟩ | ⟨hn, hTextN⟩ | ⟨hn, hTextN⟩ | ⟨hn, _, hTextN⟩ <;>
    rw [hTextM, hTextN] at h
  · exact Or.inl ⟨hm, hn⟩
  · exact absurd h (by decide)
  · exact absurd h (by decide)
  · exact absurd h.symm (formatPositive_ne_word (Or.inl rfl) _)
  · exact absurd h (by decide)
  · exact Or.inr (hm.trans hn.symm)
  · exact absurd h (by decide)
  · exact absurd h.symm (formatPositive_ne_word (Or.inr rfl) _)
  · exact absurd h (by decide)
  · exact absurd h (by decide)
  · exact Or.inr (hm.trans hn.symm)
  · exact absurd h.symm (formatPositive_ne_zero (units_pos hn.ne') hDen)
  · exact absurd h (formatPositive_ne_word (Or.inl rfl) _)
  · exact absurd h (formatPositive_ne_word (Or.inr rfl) _)
  · exact absurd h (formatPositive_ne_zero (units_pos hm.ne') hDen)
  · exact Or.inr (formatPositive_injective hm hn h)

/-! ## Texts of integers -/

theorem textValue_decimalDigits (n : Nat) : textValue (decimalDigits n) = n := by
  have hDigits : ∀ c ∈ decimalDigits n, IsDigit c := fun c hc => isDigit_of_mem_decimalDigits hc
  rw [textValue_fixed (fun c hc => (hDigits c hc).ne (by decide)), pointValue_whole hDigits, digitsValue_decimalDigits]

/-- Digits alone are printed only for a number of at most 17 of them. -/
theorem significant_of_digits {num den : Nat} (h : ∀ c ∈ formatPositive num den, IsDigit c) :
    (significant num den).2 ≤ 16 := by
  by_contra hLarge
  have hMark : (101 : UInt8) ∈ formatPositive num den := by
    rw [formatPositive_eq, layout, if_pos (Or.inr (by omega))]
    simp
  exact absurd (h 101 hMark).2 (by decide)

/-- From `2 ^ 53` on every finite number is an integer. -/
theorem dvd_units {m : Nat} (h : 2 ^ 53 * 2 ^ 1074 ≤ units m) : 2 ^ 1074 ∣ units m := by
  have hSmall := units_lt_spacing m
  have hSpacing : 2 ^ 1074 < spacing m := by
    rw [Nat.mul_comm] at h
    exact Nat.lt_of_mul_lt_mul_right (h.trans_lt hSmall)
  rw [spacing] at hSpacing
  have hExponent : 1074 < m / 2 ^ 52 - 1 := (Nat.pow_lt_pow_iff_right (by decide)).mp hSpacing
  rw [units, if_neg (by omega)]
  exact Dvd.dvd.mul_left (pow_dvd_pow 2 hExponent.le) _

theorem apart_of_units {m n : Nat} (h : m ≠ n) {den : Nat} (hDen : 0 < den) (hPos : 0 < units n) :
    (units n : ℚ) / den < |(units m : ℚ) / den - units n / den| * (2 * 10 ^ 16) := by
  have hDenQ : (0 : ℚ) < den := Nat.cast_pos.mpr hDen
  have hUnits : (0 : ℚ) < units n / den := div_pos (Nat.cast_pos.mpr hPos) hDenQ
  have hGap : ∀ {p q : Nat}, p < q → (units p : ℚ) / den < ((units q : ℚ) / den - units p / den) * 2 ^ 53 := by
    intro p q hpq
    have hApart := units_apart hpq
    rw [← sub_div, div_mul_eq_mul_div, div_lt_div_iff_of_pos_right hDenQ,
      ← Nat.cast_sub (units_strictMono.monotone hpq.le)]
    exact_mod_cast hApart
  rcases Nat.lt_or_gt_of_ne h with hLt | hGt
  · have hStep := hGap hLt
    have hAbs := neg_abs_le ((units m : ℚ) / den - units n / den)
    linarith
  · have hStep := hGap hGt
    have hAbs := le_abs_self ((units m : ℚ) / den - units n / den)
    linarith

/-- A number printed as the digits of an integer is that integer. -/
theorem units_of_digits {m n : Nat} (hm : 0 < m) (h : decimalDigits n = formatPositive (units m) (2 ^ 1074)) :
    units m = n * 2 ^ 1074 := by
  have hNum := units_pos hm.ne'
  have hDen : 0 < 2 ^ 1074 := Nat.two_pow_pos _
  have hDenQ : (0 : ℚ) < (2 ^ 1074 : Nat) := Nat.cast_pos.mpr hDen
  have hValue := textValue_decimalDigits n
  have hNearest := significant_nearest hNum hDen
  have hExact := textValue_formatPositive hNum hDen
  have hClose := formatPositive_close hNum hDen
  have hExponent : (significant (units m) (2 ^ 1074)).2 ≤ 16 := by
    apply significant_of_digits
    intro c hc
    rw [← h] at hc
    exact isDigit_of_mem_decimalDigits hc
  rw [← h, hValue] at hExact hClose
  rcases Nat.lt_or_ge (2 ^ 53) n with hLarge | hSmall
  · -- above `2 ^ 53` both are integers, half a unit apart at most
    have hUnit : (10 : ℚ) ^ ((significant (units m) (2 ^ 1074)).2 - 16) ≤ 1 := zpow_le_one_of_nonpos₀ (by norm_num) (by omega)
    have hHalf : |(units m : ℚ) / (2 ^ 1074 : Nat) - n| ≤ 1 / 2 := by
      have := hNearest.close
      rw [← hExact] at this
      linarith
    obtain ⟨hAbove, hBelow⟩ := abs_le.mp hHalf
    have hLargeQ : ((2 ^ 53 : Nat) : ℚ) + 1 ≤ n := by exact_mod_cast hLarge
    have hFloor : 2 ^ 53 * 2 ^ 1074 ≤ units m := by
      have hQuotient : ((2 ^ 53 : Nat) : ℚ) ≤ (units m : ℚ) / (2 ^ 1074 : Nat) := by
        generalize (units m : ℚ) / (2 ^ 1074 : Nat) = quotient at hAbove
        linarith
      rw [le_div_iff₀ hDenQ] at hQuotient
      exact_mod_cast hQuotient
    obtain ⟨k, hk⟩ := dvd_units hFloor
    have hQuotient : (units m : ℚ) / (2 ^ 1074 : Nat) = k := by
      rw [hk, Nat.cast_mul, mul_div_cancel_left₀ _ hDenQ.ne']
    rw [hQuotient] at hAbove hBelow
    have hkn : k = n := by
      have hLow : (k : ℚ) < (n + 1 : Nat) := by
        push_cast
        linarith
      have hHigh : (n : ℚ) < (k + 1 : Nat) := by
        push_cast
        linarith
      have hLow := Nat.cast_lt.mp hLow
      have hHigh := Nat.cast_lt.mp hHigh
      omega
    rw [hk, hkn, Nat.mul_comm]
  · -- up to `2 ^ 53` the integer is itself a magnitude
    have hInteger := units_integer hSmall
    have hn : 0 < n := Nat.cast_pos.mp hClose.1
    by_contra hne
    have hMagnitude : m ≠ roundMagnitude (n * 2 ^ 1074) 1 := by
      intro hEq
      rw [hEq, hInteger] at hne
      exact hne rfl
    have hPos : 0 < units (roundMagnitude (n * 2 ^ 1074) 1) := by
      rw [hInteger]
      exact Nat.mul_pos hn hDen
    have hApart := apart_of_units hMagnitude hDen hPos
    rw [hInteger, Nat.cast_mul n, mul_div_cancel_right₀ _ hDenQ.ne'] at hApart
    exact absurd hClose.2 (not_le.mpr hApart)

theorem units_of_digits_of_magnitudeText {m n : Nat} (h : decimalDigits n = magnitudeText m) :
    m ≤ infinityBits ∧ units m = n * 2 ^ 1074 := by
  have hNotDigit : ∀ {c : UInt8}, c = 110 ∨ c = 105 → c ∉ decimalDigits n := by
    rintro c hc hMem
    have hHigh := (isDigit_of_mem_decimalDigits hMem).2
    rcases hc with rfl | rfl <;> exact absurd hHigh (by decide)
  rcases magnitudeText_cases m with ⟨_, hText⟩ | ⟨_, hText⟩ | ⟨hm, hText⟩ | ⟨hm, hFinite, hText⟩ <;> rw [hText] at h
  · exact absurd (h ▸ List.mem_cons_self) (hNotDigit (Or.inl rfl))
  · exact absurd (h ▸ List.mem_cons_self) (hNotDigit (Or.inr rfl))
  · have hn : n = 0 := by
      have hValue := congrArg digitsValue h
      rwa [digitsValue_decimalDigits] at hValue
    rw [hm, hn, Nat.zero_mul]
    exact ⟨infinityBits_pos.le, rfl⟩
  · exact ⟨hFinite.le, units_of_digits hm h⟩

theorem head_magnitudeText (m : Nat) : ∃ c ∈ (magnitudeText m).head?, c ∈ ([105, 110] : List UInt8) ∨ IsDigit c := by
  rcases magnitudeText_cases m with ⟨_, hText⟩ | ⟨_, hText⟩ | ⟨_, hText⟩ | ⟨_, _, hText⟩ <;> rw [hText]
  · exact ⟨110, rfl, Or.inl (by decide)⟩
  · exact ⟨105, rfl, Or.inl (by decide)⟩
  · exact ⟨48, rfl, Or.inr isDigit_zero⟩
  · obtain ⟨c, hc, hDigit⟩ := head_formatPositive (units m) (2 ^ 1074)
    exact ⟨c, hc, Or.inr hDigit⟩

end Binary64
