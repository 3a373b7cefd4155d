import Mathlib.Data.BitVec
import Mathlib.Logic.Function.Iterate

/-! # Linear feedback shift registers

A register that shifts right and, when a one falls out, adds a polynomial. The step is additive over exclusive
or, and one to one when the polynomial has its top bit; so data of at most the register's width, fed from any
register, is determined by the register it leaves.
-/

set_option autoImplicit false

namespace ShiftRegister

variable {w : Nat} (poly : BitVec w)

def shift (r : BitVec w) : BitVec w :=
  if r.getLsbD 0 then (r >>> 1) ^^^ poly else r >>> 1

theorem shift_xor (a b : BitVec w) : shift poly (a ^^^ b) = shift poly a ^^^ shift poly b := by
  rw [shift, shift, shift, BitVec.getLsbD_xor, BitVec.ushiftRight_xor_distrib]
  cases a.getLsbD 0 <;> cases b.getLsbD 0
  · simp
  · simp [BitVec.xor_assoc]
  · simp [BitVec.xor_assoc, BitVec.xor_comm poly]
  · have hCancel : a >>> 1 ^^^ poly ^^^ (b >>> 1 ^^^ poly) = a >>> 1 ^^^ b >>> 1 := by
      rw [BitVec.xor_comm (b >>> 1) poly, BitVec.xor_assoc, ← BitVec.xor_assoc poly poly, BitVec.xor_self,
        BitVec.zero_xor]
    simp [hCancel]

theorem shift_of_even {r : BitVec w} (h : r.getLsbD 0 = false) : shift poly r = r >>> 1 := by
  simp [shift, h]

variable {poly}

/-- What falls out comes in at the top. -/
theorem msb_shift (hTop : poly.msb = true) (r : BitVec w) : (shift poly r).msb = r.getLsbD 0 := by
  have hShifted : (r >>> 1).msb = false := by simp [BitVec.msb_ushiftRight]
  rw [shift]
  split
  · rename_i hOdd
    rw [BitVec.msb_xor, hShifted, hTop, hOdd, Bool.false_xor]
  · rename_i hEven
    rw [hShifted, Bool.eq_false_iff.mpr hEven]

theorem shift_eq_zero (hTop : poly.msb = true) {r : BitVec w} (h : shift poly r = 0#w) : r = 0#w := by
  have hEven : r.getLsbD 0 = false := by
    rw [← msb_shift hTop r, h, BitVec.msb_zero]
  rw [shift_of_even poly hEven] at h
  apply BitVec.eq_of_getLsbD_eq
  intro i hi
  cases i with
  | zero => rw [hEven, BitVec.getLsbD_zero]
  | succ i =>
    have hBit := congrArg (fun x : BitVec w => x.getLsbD i) h
    simp only [BitVec.getLsbD_ushiftRight, BitVec.getLsbD_zero] at hBit
    rw [Nat.add_comm, hBit, BitVec.getLsbD_zero]

theorem shift_injective (hTop : poly.msb = true) : Function.Injective (shift poly) := by
  intro a b h
  have hZero : shift poly (a ^^^ b) = 0#w := by rw [shift_xor, h, BitVec.xor_self]
  exact BitVec.xor_eq_zero_iff.mp (shift_eq_zero hTop hZero)

/-! ## Several shifts -/

variable (poly)

theorem shifts_xor (n : Nat) (a b : BitVec w) :
    (shift poly)^[n] (a ^^^ b) = (shift poly)^[n] a ^^^ (shift poly)^[n] b := by
  induction n with
  | zero => rfl
  | succ n ih => rw [Function.iterate_succ_apply', Function.iterate_succ_apply', Function.iterate_succ_apply', ih, shift_xor]

/-- No polynomial is added while zeros fall out. -/
theorem shifts_of_low_zero {n : Nat} {r : BitVec w} (h : ∀ i < n, r.getLsbD i = false) : (shift poly)^[n] r = r >>> n := by
  induction n with
  | zero => rfl
  | succ n ih =>
    rw [Function.iterate_succ_apply', ih fun i hi => h i (by omega)]
    have hEven : (r >>> n).getLsbD 0 = false := by
      rw [BitVec.getLsbD_ushiftRight]
      exact h n (by omega)
    rw [shift_of_even poly hEven, ← BitVec.shiftRight_add]

/-- Shifting is looking the low part up and shifting the rest. -/
theorem shifts_split (n : Nat) (r mask : BitVec w) (hMask : ∀ i < w, mask.getLsbD i = decide (i < n)) :
    (shift poly)^[n] r = (shift poly)^[n] (r &&& mask) ^^^ r >>> n := by
  have hSplit : r = (r &&& mask) ^^^ (r &&& ~~~mask) := by
    apply BitVec.eq_of_getLsbD_eq
    intro i hi
    rw [BitVec.getLsbD_xor, BitVec.getLsbD_and, BitVec.getLsbD_and, BitVec.getLsbD_not]
    cases mask.getLsbD i <;> simp [hi]
  have hLow : ∀ i < n, (r &&& ~~~mask).getLsbD i = false := by
    intro i hi
    rw [BitVec.getLsbD_and, BitVec.getLsbD_not]
    by_cases hw : i < w
    · rw [hMask i hw]
      simp [hi]
    · simp [hw]
  have hHigh : (r &&& ~~~mask) >>> n = r >>> n := by
    apply BitVec.eq_of_getLsbD_eq
    intro i _
    rw [BitVec.getLsbD_ushiftRight, BitVec.getLsbD_ushiftRight, BitVec.getLsbD_and, BitVec.getLsbD_not]
    by_cases hw : n + i < w
    · rw [hMask _ hw]
      simp [hw]
    · simp [hw, BitVec.getLsbD_of_ge r (n + i) (by omega)]
  calc (shift poly)^[n] r
      = (shift poly)^[n] ((r &&& mask) ^^^ (r &&& ~~~mask)) := by rw [← hSplit]
    _ = (shift poly)^[n] (r &&& mask) ^^^ (shift poly)^[n] (r &&& ~~~mask) := shifts_xor poly n _ _
    _ = (shift poly)^[n] (r &&& mask) ^^^ r >>> n := by rw [shifts_of_low_zero poly hLow, hHigh]

/-! ## Symbols -/

/-- A symbol enters at the low end and is shifted through. -/
def feed (bits : Nat) (r symbol : BitVec w) : BitVec w := (shift poly)^[bits] (r ^^^ symbol)

theorem feed_injective (hTop : poly.msb = true) (bits : Nat) (symbol : BitVec w) :
    Function.Injective (fun r => feed poly bits r symbol) := by
  intro a b h
  exact BitVec.xor_left_inj symbol |>.mp (((shift_injective hTop).iterate bits) h)

theorem foldl_feed_injective (hTop : poly.msb = true) (bits : Nat) (symbols : List (BitVec w)) :
    Function.Injective (fun r => symbols.foldl (feed poly bits) r) := by
  induction symbols with
  | nil => exact fun _ _ h => h
  | cons symbol symbols ih => exact fun a b h => feed_injective poly hTop bits symbol (ih h)

/-- No bit at or above a place. -/
def Fits (bits : Nat) (x : BitVec w) : Prop := ∀ i, bits ≤ i → x.getLsbD i = false

/-- The symbols side by side, the first one lowest. -/
def pack (bits : Nat) : List (BitVec w) → BitVec w
  | [] => 0#w
  | symbol :: symbols => symbol ^^^ (pack bits symbols <<< bits)

theorem fits_pack {bits : Nat} {symbols : List (BitVec w)} (h : ∀ symbol ∈ symbols, Fits bits symbol) :
    Fits (bits * symbols.length) (pack bits symbols) := by
  induction symbols with
  | nil => exact fun i _ => BitVec.getLsbD_zero
  | cons symbol symbols ih =>
    obtain ⟨hSymbol, hSymbols⟩ := List.forall_mem_cons.mp h
    intro i hi
    rw [List.length_cons, Nat.mul_succ] at hi
    rw [pack, BitVec.getLsbD_xor, BitVec.getLsbD_shiftLeft, hSymbol i (by omega), ih hSymbols (i - bits) (by omega)]
    simp

/-- What is moved up without loss comes back down. -/
theorem shifts_shiftLeft {bits : Nat} {x : BitVec w} (h : Fits (w - bits) x) : (shift poly)^[bits] (x <<< bits) = x := by
  have hLow : ∀ i < bits, (x <<< bits).getLsbD i = false := by
    intro i hi
    simp [BitVec.getLsbD_shiftLeft, hi]
  rw [shifts_of_low_zero poly hLow]
  apply BitVec.eq_of_getLsbD_eq
  intro i hi
  rw [BitVec.getLsbD_ushiftRight, BitVec.getLsbD_shiftLeft]
  by_cases hw : bits + i < w
  · simp [hw]
  · simp [hw, h i (by omega)]

/-- Symbols that together fit the register are fed as one. -/
theorem foldl_feed {bits : Nat} {symbols : List (BitVec w)} (h : ∀ symbol ∈ symbols, Fits bits symbol)
    (hWidth : bits * symbols.length ≤ w) (r : BitVec w) :
    symbols.foldl (feed poly bits) r = feed poly (bits * symbols.length) r (pack bits symbols) := by
  induction symbols generalizing r with
  | nil => simp [feed, pack]
  | cons symbol symbols ih =>
    obtain ⟨hSymbol, hSymbols⟩ := List.forall_mem_cons.mp h
    rw [List.length_cons, Nat.mul_succ] at hWidth
    have hRest : Fits (w - bits) (pack bits symbols) := fun i hi => fits_pack hSymbols i (by omega)
    calc (symbol :: symbols).foldl (feed poly bits) r
        = (shift poly)^[bits * symbols.length]
            ((shift poly)^[bits] (r ^^^ symbol) ^^^ pack bits symbols) := ih hSymbols (by omega) _
      _ = (shift poly)^[bits * symbols.length]
            ((shift poly)^[bits] (r ^^^ symbol) ^^^ (shift poly)^[bits] (pack bits symbols <<< bits)) := by
          rw [shifts_shiftLeft poly hRest]
      _ = (shift poly)^[bits * symbols.length] ((shift poly)^[bits] (r ^^^ pack bits (symbol :: symbols))) := by
          rw [← shifts_xor, BitVec.xor_assoc, pack]
      _ = feed poly (bits * (symbol :: symbols).length) r (pack bits (symbol :: symbols)) := by
          rw [← Function.iterate_add_apply, List.length_cons, Nat.mul_succ, feed]

theorem pack_injective {bits : Nat} {xs ys : List (BitVec w)} (hLength : xs.length = ys.length)
    (hx : ∀ symbol ∈ xs, Fits bits symbol) (hy : ∀ symbol ∈ ys, Fits bits symbol) (hWidth : bits * xs.length ≤ w)
    (h : pack bits xs = pack bits ys) : xs = ys := by
  induction xs generalizing ys with
  | nil => exact (List.length_eq_zero_iff.mp hLength.symm).symm
  | cons x xs ih =>
    obtain ⟨y, ys, rfl⟩ := List.exists_cons_of_length_eq_add_one hLength.symm
    obtain ⟨hHeadX, hx⟩ := List.forall_mem_cons.mp hx
    obtain ⟨hHeadY, hy⟩ := List.forall_mem_cons.mp hy
    rw [List.length_cons, List.length_cons, Nat.add_right_cancel_iff] at hLength
    rw [List.length_cons, Nat.mul_succ] at hWidth
    have hBit : ∀ i, (x ^^^ pack bits xs <<< bits).getLsbD i = (y ^^^ pack bits ys <<< bits).getLsbD i :=
      fun i => congrArg (fun z : BitVec w => z.getLsbD i) h
    have hHead : x = y := by
      apply BitVec.eq_of_getLsbD_eq
      intro i _
      by_cases hi : i < bits
      · simpa [BitVec.getLsbD_shiftLeft, hi] using hBit i
      · rw [hHeadX i (by omega), hHeadY i (by omega)]
    have hTail : pack bits xs = pack bits ys := by
      apply BitVec.eq_of_getLsbD_eq
      intro i _
      by_cases hi : bits + i < w
      · have hPlace := hBit (bits + i)
        have hAbove : ¬ bits + i < bits := by omega
        rw [BitVec.getLsbD_xor, BitVec.getLsbD_xor, hHeadX _ (by omega), hHeadY _ (by omega)] at hPlace
        rw [Bool.false_xor, Bool.false_xor, BitVec.getLsbD_shiftLeft, BitVec.getLsbD_shiftLeft] at hPlace
        simpa only [hi, hAbove, decide_true, decide_false, Bool.not_false, Bool.true_and, Nat.add_sub_cancel_left]
          using hPlace
      · rw [fits_pack hx i (by omega), fits_pack hy i (by rw [← hLength]; omega)]
    rw [hHead, ih hLength hx hy (by omega) hTail]

/-- Two bursts of data that fit the register, fed to the same one, leave different ones. -/
theorem foldl_feed_ne (hTop : poly.msb = true) {bits : Nat} {xs ys : List (BitVec w)} (hLength : xs.length = ys.length)
    (hx : ∀ symbol ∈ xs, Fits bits symbol) (hy : ∀ symbol ∈ ys, Fits bits symbol) (hWidth : bits * xs.length ≤ w)
    (hNe : xs ≠ ys) (r : BitVec w) : xs.foldl (feed poly bits) r ≠ ys.foldl (feed poly bits) r := by
  rw [foldl_feed poly hx hWidth, foldl_feed poly hy (hLength ▸ hWidth), ← hLength]
  intro h
  have hRegister := (shift_injective hTop).iterate _ h
  exact hNe (pack_injective hLength hx hy hWidth ((BitVec.xor_right_inj r).mp hRegister))

end ShiftRegister
