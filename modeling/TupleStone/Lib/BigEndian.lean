import TupleStone.Lib.LexOrder
import Mathlib.Algebra.Order.Ring.Nat
import Mathlib.Tactic.Ring
import Mathlib.Tactic.Linarith

/-! # Big-endian base-256 digits

The high digit stands first, so among strings of one length the lexicographic order of the bytes is the order of the
numbers. Writers shift a word right and mask; readers shift what they have left and join the next byte with `or`.
-/

set_option autoImplicit false

instance byteLinearOrder : LinearOrder UInt8 where
  le_refl := UInt8.le_refl
  le_trans _ _ _ := UInt8.le_trans
  le_antisymm _ _ := UInt8.le_antisymm
  le_total := UInt8.le_total
  lt_iff_le_not_ge a b := by
    rw [UInt8.lt_iff_toNat_lt, UInt8.le_iff_toNat_le, UInt8.le_iff_toNat_le]
    omega
  toDecidableLE := inferInstance

namespace BigEndian

/-- The `n` low digits of a number. -/
def digits : Nat → Nat → List UInt8
  | 0, _ => []
  | n + 1, v => UInt8.ofNat (v / 256 ^ n) :: digits n v

def value : List UInt8 → Nat
  | [] => 0
  | b :: bs => b.toNat * 256 ^ bs.length + value bs

@[simp] theorem length_digits (n v : Nat) : (digits n v).length = n := by
  induction n with
  | zero => rfl
  | succ n ih => rw [digits, List.length_cons, ih]

theorem value_lt (bs : List UInt8) : value bs < 256 ^ bs.length := by
  induction bs with
  | nil => decide
  | cons b bs ih =>
    have hb : b.toNat + 1 ≤ 256 := b.toNat_lt
    have hMul := Nat.mul_le_mul_right (256 ^ bs.length) hb
    rw [value, List.length_cons, pow_succ]
    rw [Nat.add_mul] at hMul
    omega

theorem value_digits (n v : Nat) : value (digits n v) = v % 256 ^ n := by
  induction n with
  | zero => rw [digits, value, pow_zero, Nat.mod_one]
  | succ n ih =>
    have hByte : (UInt8.ofNat (v / 256 ^ n)).toNat = v / 256 ^ n % 256 := UInt8.toNat_ofNat'
    rw [digits, value, length_digits, ih, hByte, pow_succ, Nat.mod_mul]
    ring

theorem digits_value (bs : List UInt8) : digits bs.length (value bs) = bs := by
  have hMod : ∀ (n v : Nat), digits n v = digits n (v % 256 ^ n) := by
    intro n
    induction n with
    | zero => intro v; rfl
    | succ n ih =>
      intro v
      have hHead : UInt8.ofNat (v / 256 ^ n) = UInt8.ofNat (v % 256 ^ (n + 1) / 256 ^ n) := by
        have hByte : ∀ m, (UInt8.ofNat m).toNat = m % 256 := fun _ => UInt8.toNat_ofNat'
        apply UInt8.toNat_inj.mp
        rw [hByte, hByte, pow_succ, Nat.mod_mul_right_div_self, Nat.mod_mod]
      have hTail : v % 256 ^ n = v % 256 ^ (n + 1) % 256 ^ n := by
        rw [Nat.mod_mod_of_dvd _ (pow_dvd_pow 256 (Nat.le_succ n))]
      rw [digits, digits, hHead, ih v, ih (v % 256 ^ (n + 1)), hTail]
  induction bs with
  | nil => rfl
  | cons b bs ih =>
    have hLess := value_lt bs
    have hDiv : (b.toNat * 256 ^ bs.length + value bs) / 256 ^ bs.length = b.toNat := by
      rw [Nat.add_comm, Nat.add_mul_div_right _ _ (Nat.pos_of_ne_zero (by positivity)), Nat.div_eq_of_lt hLess, Nat.zero_add]
    have hRest : (b.toNat * 256 ^ bs.length + value bs) % 256 ^ bs.length = value bs := by
      rw [Nat.add_comm, Nat.add_mul_mod_self_right, Nat.mod_eq_of_lt hLess]
    rw [value, List.length_cons, digits, hDiv, UInt8.ofNat_toNat, hMod, hRest, ih]

theorem lt_iff_value_lt {a b : List UInt8} (h : a.length = b.length) : a < b ↔ value a < value b := by
  induction a generalizing b with
  | nil =>
    cases b with
    | nil => simp
    | cons d b => cases h
  | cons c a ih =>
    cases b with
    | nil => cases h
    | cons d b =>
      have hLength : a.length = b.length := Nat.succ.inj h
      have hA := value_lt a
      have hB := value_lt b
      rw [List.cons_lt_cons_iff, ih hLength, value, value, hLength, UInt8.lt_iff_toNat_lt, ← UInt8.toNat_inj]
      rw [hLength] at hA
      generalize 256 ^ b.length = unit at hA hB
      constructor
      · rintro (hHead | ⟨hHead, hTail⟩)
        · have hStep := Nat.mul_le_mul_right unit hHead
          rw [Nat.succ_mul] at hStep
          omega
        · rw [hHead]
          omega
      · intro hLess
        obtain hHead | hHead | hHead := Nat.lt_trichotomy c.toNat d.toNat
        · exact Or.inl hHead
        · rw [hHead] at hLess
          exact Or.inr ⟨hHead, by omega⟩
        · have hStep := Nat.mul_le_mul_right unit hHead
          rw [Nat.succ_mul] at hStep
          omega

/-- A reader that has `acc` and goes on with the bytes behind it. -/
theorem foldl_shift_or (bs : List UInt8) (acc : Nat) :
    bs.foldl (fun result byte => result <<< 8 ||| byte.toNat) acc = acc * 256 ^ bs.length + value bs := by
  induction bs generalizing acc with
  | nil => rw [List.foldl_nil, value, List.length_nil, pow_zero, Nat.mul_one, Nat.add_zero]
  | cons b bs ih =>
    have hJoin : acc <<< 8 ||| b.toNat = acc * 256 + b.toNat := by
      rw [← Nat.shiftLeft_add_eq_or_of_lt b.toNat_lt, Nat.shiftLeft_eq]
    rw [List.foldl_cons, hJoin, ih, value, List.length_cons, pow_succ]
    ring

end BigEndian
