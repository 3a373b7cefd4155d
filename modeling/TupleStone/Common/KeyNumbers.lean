import TupleStone.Common.KeyRoundTrip
import TupleStone.Lib.RoundingOrder

/-! # Keys of numbers

Numbers are compared as `double`, whatever their types; their keys are compared by type first and then by the bits. The
two orders agree where the promotion loses nothing that the keys keep.
-/

set_option autoImplicit false

namespace TupleStone

namespace Value

open Binary64 (ofInt)

/-- The keys of two values compare as the values do. -/
def KeysAgree (a b : Value) : Prop :=
  a.compare b = some (compareSlices (encodeKey a false) (encodeKey b false)).sign

/-- Two INTEGERs are the same or are promoted to different numbers; two REALs are not zeros of opposite sign; of an
INTEGER and a REAL, the INTEGER is the smaller one. -/
def Ordered : Value → Value → Prop
  | integer m, integer n => m = n ∨ (ofInt m.toInt).scaled ≠ (ofInt n.toInt).scaled
  | integer m, real y => (ofInt m.toInt).scaled < y.scaled
  | real x, integer n => (ofInt n.toInt).scaled < x.scaled
  | real x, real y => ¬ (x.isZero = true ∧ y.isZero = true ∧ x.negative ≠ y.negative)
  | _, _ => False

theorem compareDouble_numbers {x y : Binary64} (hx : x.isNaN = false) (hy : y.isNaN = false) :
    compareDouble x y = some (threeWay (decide (x.scaled < y.scaled)) (decide (y.scaled < x.scaled))) := by
  simp [compareDouble, Binary64.lt, hx, hy]

/-- Two linear orders say the same of a pair. -/
theorem threeWay_eq_iff {p q p' q' : Prop} [Decidable p] [Decidable q] [Decidable p'] [Decidable q'] (h : ¬ (p ∧ q)) (h' : ¬ (p' ∧ q')) :
    threeWay (decide p) (decide q) = threeWay (decide p') (decide q') ↔ (p ↔ p') ∧ (q ↔ q') := by
  by_cases hp : p <;> by_cases hq : q <;> by_cases hp' : p' <;> by_cases hq' : q' <;> simp_all [threeWay]

/-! ## Two INTEGERs -/

theorem keysAgree_integers_iff (m n : Int64) : KeysAgree (integer m) (integer n) ↔ Ordered (integer m) (integer n) := by
  have hCompare : (integer m).compare (integer n) = compareDouble (ofInt m.toInt) (ofInt n.toInt) := rfl
  have hUp : m.toInt < n.toInt → (ofInt m.toInt).scaled ≤ (ofInt n.toInt).scaled := fun h =>
    Binary64.scaled_ofInt_mono (Int.le_of_lt h)
  have hDown : n.toInt < m.toInt → (ofInt n.toInt).scaled ≤ (ofInt m.toInt).scaled := fun h =>
    Binary64.scaled_ofInt_mono (Int.le_of_lt h)
  rw [KeysAgree, hCompare, compareDouble_numbers (Binary64.isNaN_ofInt _) (Binary64.isNaN_ofInt _), sign_compare_integers, Option.some_inj,
    threeWay_eq_iff (by omega) (by omega), Ordered, ← Int64.toInt_inj]
  obtain hLess | hSame | hLess := Int.lt_trichotomy m.toInt n.toInt
  · have hLe := hUp hLess
    generalize (ofInt m.toInt).scaled = left at *
    generalize (ofInt n.toInt).scaled = right at *
    omega
  · rw [hSame]
    simp
  · have hLe := hDown hLess
    generalize (ofInt m.toInt).scaled = left at *
    generalize (ofInt n.toInt).scaled = right at *
    omega

/-! ## Two REALs -/

theorem bits_eq (x : Binary64) : x.bits.toNat = (if x.negative then 2 ^ 63 else 0) + x.magnitude := by
  have hBound := x.bits.toNat_lt
  rw [Binary64.negative, Binary64.magnitude]
  by_cases hHigh : 2 ^ 63 ≤ x.bits.toNat
  · rw [decide_eq_true hHigh, if_pos rfl]
    omega
  · rw [decide_eq_false hHigh, if_neg Bool.false_ne_true]
    omega

theorem realKey_eq (x : Binary64) :
    (realKey x).toNat = if x.negative then 2 ^ 63 - 1 - x.magnitude else 2 ^ 63 + x.magnitude := by
  have hBits := bits_eq x
  have hMagnitude : x.magnitude < 2 ^ 63 := Nat.mod_lt _ (Nat.two_pow_pos 63)
  rw [toNat_realKey, hBits]
  cases x.negative with
  | true =>
    rw [if_pos rfl, if_pos rfl]
    split <;> omega
  | false =>
    rw [if_neg Bool.false_ne_true, if_neg Bool.false_ne_true]
    split <;> omega

theorem sign_compare_reals (x y : Binary64) :
    (compareSlices (encodeKey (real x) false) (encodeKey (real y) false)).sign =
      threeWay (decide ((realKey x).toNat < (realKey y).toNat)) (decide ((realKey y).toNat < (realKey x).toNat)) := by
  rw [encodeKey_real, encodeKey_real, sign_compareSlices_append]
  simp only [digits_lt_iff]

theorem isZero_iff (x : Binary64) : x.isZero = true ↔ Binary64.units x.magnitude = 0 := by
  rw [Binary64.isZero, decide_eq_true_eq]
  constructor
  · intro h
    rw [h]
    decide
  · intro h
    by_contra hNe
    exact absurd h (Nat.ne_of_gt (Binary64.units_pos hNe))

theorem keysAgree_reals_iff {x y : Binary64} (hx : x.isNaN = false) (hy : y.isNaN = false) :
    KeysAgree (real x) (real y) ↔ Ordered (real x) (real y) := by
  have hCompare : (real x).compare (real y) = compareDouble x y := rfl
  have hOrder : ∀ {m n : Nat}, m < n ↔ Binary64.units m < Binary64.units n := fun {_ _} => Binary64.units_strictMono.lt_iff_lt.symm
  have hX : x.magnitude < 2 ^ 63 := Nat.mod_lt _ (Nat.two_pow_pos 63)
  have hY : y.magnitude < 2 ^ 63 := Nat.mod_lt _ (Nat.two_pow_pos 63)
  rw [KeysAgree, hCompare, compareDouble_numbers hx hy, sign_compare_reals, Option.some_inj, threeWay_eq_iff (by omega) (by omega), Ordered,
    isZero_iff, isZero_iff, realKey_eq, realKey_eq, Binary64.scaled, Binary64.scaled]
  have hLess := hOrder (m := x.magnitude) (n := y.magnitude)
  have hGreater := hOrder (m := y.magnitude) (n := x.magnitude)
  generalize Binary64.units x.magnitude = left at *
  generalize Binary64.units y.magnitude = right at *
  cases x.negative <;> cases y.negative <;> simp only [Bool.false_eq_true, if_true, if_false, ne_eq, not_true_eq_false,
    not_false_eq_true, and_true, and_false, reduceCtorEq, iff_true] <;> omega

/-! ## An INTEGER and a REAL -/

theorem keysAgree_mixed_iff (m : Int64) {y : Binary64} (hy : y.isNaN = false) :
    (KeysAgree (integer m) (real y) ↔ Ordered (integer m) (real y)) ∧ (KeysAgree (real y) (integer m) ↔ Ordered (real y) (integer m)) := by
  have hTags : ∀ x z : Bytes, ([1, 2] ++ x : Bytes) < [1, 3] ++ z := by
    intro x z
    exact List.cons_lt_cons_iff.mpr (Or.inr ⟨rfl, List.cons_lt_cons_iff.mpr (Or.inl (by decide))⟩)
  have hLess : encodeKey (integer m) false < encodeKey (real y) false := by
    rw [encodeKey_integer, encodeKey_real]
    exact hTags _ _
  have hUp : (integer m).compare (real y) = compareDouble (ofInt m.toInt) y := rfl
  have hDown : (real y).compare (integer m) = compareDouble y (ofInt m.toInt) := rfl
  have hNot := not_lt_of_gt hLess
  rw [KeysAgree, KeysAgree, hUp, hDown, compareDouble_numbers (Binary64.isNaN_ofInt _) hy, compareDouble_numbers hy (Binary64.isNaN_ofInt _),
    sign_compareSlices, sign_compareSlices, Option.some_inj, Option.some_inj, threeWay_eq_iff (by omega) (fun h => hNot h.2),
    threeWay_eq_iff (by omega) (fun h => hNot h.1), Ordered, Ordered]
  generalize (ofInt m.toInt).scaled = left
  constructor
  · constructor
    · exact fun h => h.1.mpr hLess
    · intro h
      exact ⟨⟨fun _ => hLess, fun _ => h⟩, ⟨fun hGreater => by omega, fun hGreater => absurd hGreater hNot⟩⟩
  · constructor
    · exact fun h => h.2.mpr hLess
    · intro h
      exact ⟨⟨fun hGreater => by omega, fun hGreater => absurd hGreater hNot⟩, ⟨fun _ => hLess, fun _ => h⟩⟩

/-- The keys of two numbers compare as the numbers do exactly when the numbers are `Ordered`. -/
theorem numeric_keys_agree_iff (a b : Value) (x y : Binary64) (ha : a.asDouble? = some x) (hb : b.asDouble? = some y)
    (hx : x.isNaN = false) (hy : y.isNaN = false) : KeysAgree a b ↔ Ordered a b := by
  cases a with
  | integer m =>
    cases b with
    | integer n => exact keysAgree_integers_iff m n
    | real z =>
      cases hb
      exact (keysAgree_mixed_iff m hy).1
    | _ => cases hb
  | real z =>
    cases ha
    cases b with
    | integer n => exact (keysAgree_mixed_iff n hx).2
    | real z' =>
      cases hb
      exact keysAgree_reals_iff hx hy
    | _ => cases hb
  | _ => cases ha

/-- The numbers 1 and 2. -/
theorem one_two_keys_agree : KeysAgree (real ⟨0x3FF0000000000000⟩) (real ⟨0x4000000000000000⟩) := by
  apply (numeric_keys_agree_iff _ _ _ _ rfl rfl (by decide) (by decide)).mpr
  rintro ⟨hZero, -⟩
  exact absurd hZero (by decide)

/-- The two zeros are equal and have different keys. -/
theorem zero_keys_differ : ¬ ∀ a b x y, a.asDouble? = some x → b.asDouble? = some y → x.isNaN = false → y.isNaN = false →
    KeysAgree a b := by
  intro h
  have hZeros := h (real ⟨0⟩) (real ⟨0x8000000000000000⟩) _ _ rfl rfl (by decide) (by decide)
  rw [KeysAgree] at hZeros
  exact absurd hZeros (by decide)

end Value

end TupleStone
