import Mathlib.Data.List.Basic
import Mathlib.Data.Nat.Bitwise
import Mathlib.Tactic.Ring

/-! # Little-endian base-256 digits

Writers shift a word right and truncate; readers shift bytes left and join them with `or`. Both are the
positional system of base 256, low digit first.
-/

set_option autoImplicit false

namespace ByteDigits

def digits : Nat → Nat → List UInt8
  | 0, _ => []
  | n + 1, v => UInt8.ofNat v :: digits n (v / 256)

def value : List UInt8 → Nat
  | [] => 0
  | b :: bs => b.toNat + 256 * value bs

/-- A reader's loop: the byte at index `i` is joined into the bits from `8 * i` on. -/
def join : Nat → Nat → List UInt8 → Nat
  | acc, _, [] => acc
  | acc, i, b :: bs => join (acc ||| b.toNat <<< (i * 8)) (i + 1) bs

@[simp] theorem length_digits (n v : Nat) : (digits n v).length = n := by
  induction n generalizing v with
  | zero => rfl
  | succ n ih => simp [digits, ih]

theorem value_lt (bs : List UInt8) : value bs < 256 ^ bs.length := by
  induction bs with
  | nil => decide
  | cons b bs ih =>
    have hb : b.toNat < 256 := b.toNat_lt
    rw [value, List.length_cons, pow_succ]
    omega

theorem value_digits (n v : Nat) : value (digits n v) = v % 256 ^ n := by
  induction n generalizing v with
  | zero => simp [digits, value, Nat.mod_one]
  | succ n ih =>
    have hMod : v % 256 ^ (n + 1) = v % 256 + 256 * (v / 256 % 256 ^ n) := by
      rw [Nat.pow_succ']
      exact Nat.mod_mul
    rw [digits, value, ih, UInt8.toNat_ofNat', hMod]

theorem digits_value (bs : List UInt8) : digits bs.length (value bs) = bs := by
  induction bs with
  | nil => rfl
  | cons b bs ih =>
    have hb : b.toNat < 256 := b.toNat_lt
    have hDiv : (b.toNat + 256 * value bs) / 256 = value bs := by omega
    have hHead : UInt8.ofNat (b.toNat + 256 * value bs) = b := by
      apply UInt8.toNat_inj.mp
      rw [UInt8.toNat_ofNat']
      omega
    rw [value, List.length_cons, digits, hDiv, hHead, ih]

theorem digits_mod (n v : Nat) : digits n (v % 256 ^ n) = digits n v := by
  have h := digits_value (digits n v)
  rwa [length_digits, value_digits] at h

theorem digits_eq_map_shift (n v : Nat) :
    digits n v = (List.range n).map (fun i => UInt8.ofNat (v >>> (i * 8))) := by
  induction n generalizing v with
  | zero => rfl
  | succ n ih =>
    rw [digits, ih, List.range_succ_eq_map, List.map_cons, List.map_map]
    congr 1
    apply List.map_congr_left
    intro i _
    have hShift : (v / 256) >>> (i * 8) = v >>> ((i + 1) * 8) := by
      have h256 : v / 256 = v >>> 8 := (Nat.shiftRight_eq_div_pow v 8).symm
      rw [h256, ← Nat.shiftRight_add]
      congr 1
      omega
    simp [hShift]

/-- Bits below the shift are untouched, so joining a byte adds its digit. -/
theorem join_eq (bs : List UInt8) (acc i : Nat) (h : acc < 256 ^ i) :
    join acc i bs = acc + 256 ^ i * value bs := by
  induction bs generalizing acc i with
  | nil => simp [join, value]
  | cons b bs ih =>
    have hPow : (256 : Nat) ^ i = 2 ^ (i * 8) := by
      rw [Nat.mul_comm, Nat.pow_mul]
    have hOr : acc ||| b.toNat <<< (i * 8) = acc + 256 ^ i * b.toNat := by
      rw [Nat.or_comm, ← Nat.shiftLeft_add_eq_or_of_lt (hPow ▸ h), Nat.shiftLeft_eq, hPow]
      ring
    have hb : b.toNat ≤ 255 := Nat.le_of_lt_succ b.toNat_lt
    have hBound : acc + 256 ^ i * b.toNat < 256 ^ (i + 1) := by
      have := Nat.mul_le_mul_left (256 ^ i) hb
      rw [pow_succ]
      omega
    rw [join, hOr, ih _ _ hBound, value]
    ring

theorem join_zero (bs : List UInt8) : join 0 0 bs = value bs := by
  simpa using join_eq bs 0 0 (by decide)

end ByteDigits
