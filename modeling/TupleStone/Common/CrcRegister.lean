import TupleStone.Common.Crc32c
import TupleStone.Lib.ShiftRegister

/-! # CRC-32C as a shift register

The table's loop against the bits taken one at a time, and what differences the checksum cannot miss.
-/

set_option autoImplicit false

namespace TupleStone

/-- `MakeTable`. -/
def makeTable : Vector UInt32 256 := Vector.ofFn fun i => crcTable (UInt32.ofNat i)

theorem crcIndex_lt (x : UInt32) : (x &&& 0xFF).toNat < 256 := by
  rw [UInt32.toNat_and]
  exact Nat.and_lt_two_pow (n := 8) _ (by decide)

/-- `Crc32cExtend` with the entries read from the table. -/
def tableExtend (priorCrc : UInt32) (data : Bytes) : UInt32 :=
  ~~~(data.foldl (fun crc byte =>
    have hIndex := crcIndex_lt (crc ^^^ byte.toUInt32)
    makeTable[((crc ^^^ byte.toUInt32) &&& 0xFF).toNat] ^^^ (crc >>> 8)) (~~~priorCrc))

theorem tableExtend_eq (priorCrc : UInt32) (data : Bytes) : tableExtend priorCrc data = crc32cExtend priorCrc data := by
  simp only [tableExtend, crc32cExtend, makeTable, Vector.getElem_ofFn, UInt32.ofNat_toNat]

/-! ## The bits one at a time -/

def bitStep (crc : UInt32) : UInt32 := if crc &&& 1 ≠ 0 then (crc >>> 1) ^^^ reflectedPoly else crc >>> 1

/-- The reflected Castagnoli reference. -/
def bitwiseExtend (priorCrc : UInt32) (data : Bytes) : UInt32 :=
  ~~~(data.foldl (fun crc byte => bitStep^[8] (crc ^^^ byte.toUInt32)) (~~~priorCrc))

theorem crcTable_eq (index : UInt32) : crcTable index = bitStep^[8] index := rfl

theorem and_one_ne_zero (crc : UInt32) : crc &&& 1 ≠ 0 ↔ crc.toBitVec.getLsbD 0 = true := by
  have hOne : (1 : UInt32).toBitVec = 1#32 := rfl
  rw [Ne, ← UInt32.toBitVec_inj, UInt32.toBitVec_and, hOne, BitVec.and_one_eq_setWidth_ofBool_getLsbD]
  cases crc.toBitVec.getLsbD 0 <;> decide

theorem toBitVec_bitStep (crc : UInt32) :
    (bitStep crc).toBitVec = ShiftRegister.shift reflectedPoly.toBitVec crc.toBitVec := by
  rw [bitStep, ShiftRegister.shift]
  by_cases h : crc &&& 1 ≠ 0
  · rw [if_pos h, if_pos ((and_one_ne_zero crc).mp h)]
    rfl
  · rw [if_neg h, if_neg (mt (and_one_ne_zero crc).mpr h)]
    rfl

theorem toBitVec_bitSteps (n : Nat) (crc : UInt32) :
    (bitStep^[n] crc).toBitVec = (ShiftRegister.shift reflectedPoly.toBitVec)^[n] crc.toBitVec := by
  induction n with
  | zero => rfl
  | succ n ih => rw [Function.iterate_succ_apply', Function.iterate_succ_apply', toBitVec_bitStep, ih]

/-- The register of a byte. -/
def symbol (byte : UInt8) : BitVec 32 := byte.toUInt32.toBitVec

theorem fits_symbol (byte : UInt8) : ShiftRegister.Fits 8 (symbol byte) := by
  intro i hi
  rw [symbol, UInt8.toBitVec_toUInt32, BitVec.getLsbD_setWidth, BitVec.getLsbD_of_ge _ i hi, Bool.and_false]

theorem symbol_injective : Function.Injective symbol := by
  intro x y h
  exact UInt8.toUInt32_inj.mp (UInt32.toBitVec_inj.mp h)

/-- One look-up is eight steps. -/
theorem table_step (crc : UInt32) (byte : UInt8) :
    crcTable ((crc ^^^ byte.toUInt32) &&& 0xFF) ^^^ (crc >>> 8) = bitStep^[8] (crc ^^^ byte.toUInt32) := by
  have hShifted : (crc ^^^ byte.toUInt32) >>> 8 = crc >>> 8 := by
    have hGone : (symbol byte) >>> 8 = 0#32 := by
      apply BitVec.eq_of_getLsbD_eq
      intro i _
      rw [BitVec.getLsbD_ushiftRight, fits_symbol byte _ (Nat.le_add_right 8 i), BitVec.getLsbD_zero]
    apply UInt32.toBitVec_inj.mp
    rw [UInt32.toBitVec_shiftRight, UInt32.toBitVec_shiftRight, UInt32.toBitVec_xor]
    change (crc.toBitVec ^^^ symbol byte) >>> 8 = crc.toBitVec >>> 8
    rw [BitVec.ushiftRight_xor_distrib, hGone, BitVec.xor_zero]
  have hMask : ∀ i < 32, (0xFF : UInt32).toBitVec.getLsbD i = decide (i < 8) := by decide
  rw [← hShifted, crcTable_eq, ← UInt32.toBitVec_inj, UInt32.toBitVec_xor, toBitVec_bitSteps, toBitVec_bitSteps,
    ShiftRegister.shifts_split _ 8 (crc ^^^ byte.toUInt32).toBitVec _ hMask, UInt32.toBitVec_and,
    UInt32.toBitVec_shiftRight]
  rfl

theorem crc32cExtend_eq_bitwise (priorCrc : UInt32) (data : Bytes) : crc32cExtend priorCrc data = bitwiseExtend priorCrc data := by
  simp only [crc32cExtend, bitwiseExtend, table_step]

theorem crc32cExtend_append (priorCrc : UInt32) (a b : Bytes) :
    crc32cExtend (crc32cExtend priorCrc a) b = crc32cExtend priorCrc (a ++ b) := by
  simp [crc32cExtend]

theorem foldl_crc32cExtend (priorCrc : UInt32) (chunks : List Bytes) :
    chunks.foldl crc32cExtend priorCrc = crc32cExtend priorCrc chunks.flatten := by
  induction chunks generalizing priorCrc with
  | nil => simp [crc32cExtend]
  | cons chunk chunks ih => rw [List.foldl_cons, ih, crc32cExtend_append, List.flatten_cons]

/-- The table's loop computes the reference, and a string in chunks has the checksum of the whole. -/
theorem crc32c_table_reference :
    (∀ (priorCrc : UInt32) (data : Bytes), tableExtend priorCrc data = bitwiseExtend priorCrc data) ∧
      (∀ (priorCrc : UInt32) (data : Bytes), crc32cExtend priorCrc data = bitwiseExtend priorCrc data) ∧
      (∀ (priorCrc : UInt32) (chunks : List Bytes),
        chunks.foldl tableExtend priorCrc = tableExtend priorCrc chunks.flatten) ∧
      (∀ chunks : List Bytes, chunks.foldl crc32cExtend 0 = crc32c chunks.flatten) := by
  have hTable : tableExtend = crc32cExtend := funext fun priorCrc => funext fun data => tableExtend_eq priorCrc data
  constructor
  · intro priorCrc data
    rw [tableExtend_eq, crc32cExtend_eq_bitwise]
  constructor
  · exact crc32cExtend_eq_bitwise
  constructor
  · rw [hTable]
    exact foldl_crc32cExtend
  · exact foldl_crc32cExtend 0

/-! ## Bursts -/

theorem toBitVec_foldl (data : Bytes) (crc : UInt32) :
    (data.foldl (fun crc byte => bitStep^[8] (crc ^^^ byte.toUInt32)) crc).toBitVec =
      (data.map symbol).foldl (ShiftRegister.feed reflectedPoly.toBitVec 8) crc.toBitVec := by
  induction data generalizing crc with
  | nil => rfl
  | cons byte data ih => rw [List.foldl_cons, ih, toBitVec_bitSteps, List.map_cons, List.foldl_cons, UInt32.toBitVec_xor]; rfl

theorem msb_reflectedPoly : reflectedPoly.toBitVec.msb = true := by decide

/-- At most four bytes in one place, behind the same and before the same. -/
theorem crc32c_ne_of_middle {x y : Bytes} (hLength : x.length = y.length) (hShort : x.length ≤ 4) (hNe : x ≠ y)
    (front back : Bytes) : crc32c (front ++ x ++ back) ≠ crc32c (front ++ y ++ back) := by
  have hFits : ∀ data : Bytes, ∀ s ∈ data.map symbol, ShiftRegister.Fits 8 s := by
    intro data s hs
    obtain ⟨byte, -, rfl⟩ := List.mem_map.mp hs
    exact fits_symbol byte
  intro h
  rw [crc32c, crc32c, crc32cExtend_eq_bitwise, crc32cExtend_eq_bitwise, bitwiseExtend, bitwiseExtend, UInt32.not_inj,
    ← UInt32.toBitVec_inj, toBitVec_foldl, toBitVec_foldl, List.map_append, List.map_append, List.map_append, List.map_append,
    List.foldl_append, List.foldl_append, List.foldl_append, List.foldl_append] at h
  have hMiddle := ShiftRegister.foldl_feed_injective _ msb_reflectedPoly 8 (back.map symbol) h
  have hMapped : x.map symbol ≠ y.map symbol := fun hSame => hNe (symbol_injective.list_map hSame)
  have hLengths : (x.map symbol).length = (y.map symbol).length := by rw [List.length_map, List.length_map, hLength]
  exact ShiftRegister.foldl_feed_ne _ msb_reflectedPoly hLengths (hFits x) (hFits y)
    (by rw [List.length_map]; omega) hMapped _ hMiddle

/-- A change within four consecutive bytes is detected, however long the data. -/
theorem crc32c_burst {a b : Bytes} (hLength : a.length = b.length) (hNe : a ≠ b) {start : Nat}
    (hWindow : ∀ i, a[i]? ≠ b[i]? → start ≤ i ∧ i < start + 4) : crc32c a ≠ crc32c b := by
  have hSame : ∀ i, ¬ (start ≤ i ∧ i < start + 4) → a[i]? = b[i]? := fun i hi => not_not.mp (mt (hWindow i) hi)
  have hFront : a.take start = b.take start := by
    apply List.ext_getElem?
    intro i
    rw [List.getElem?_take, List.getElem?_take]
    split
    · exact hSame i (by omega)
    · rfl
  have hBack : a.drop (start + 4) = b.drop (start + 4) := by
    apply List.ext_getElem?
    intro i
    rw [List.getElem?_drop, List.getElem?_drop]
    exact hSame _ (by omega)
  have hSplit : ∀ data : Bytes, data = data.take start ++ (data.drop start).take 4 ++ data.drop (start + 4) := by
    intro data
    rw [List.append_assoc, ← List.drop_drop, List.take_append_drop, List.take_append_drop]
  have hMiddle : (a.drop start).take 4 ≠ (b.drop start).take 4 := by
    intro h
    apply hNe
    rw [hSplit a, hSplit b, hFront, hBack, h]
  rw [hSplit a, hSplit b, ← hFront, ← hBack]
  apply crc32c_ne_of_middle _ _ hMiddle
  · rw [List.length_take, List.length_take, List.length_drop, List.length_drop, hLength]
  · rw [List.length_take]
    omega

theorem crc32c_burst_word : crc32c (ascii "123456789") ≠ crc32c (ascii "12XXXX789") := by
  have hNear : ∀ i < 9, (ascii "123456789")[i]? ≠ (ascii "12XXXX789")[i]? → 2 ≤ i ∧ i < 2 + 4 := by decide
  have hWindow : ∀ i : Nat, (ascii "123456789")[i]? ≠ (ascii "12XXXX789")[i]? → 2 ≤ i ∧ i < 2 + 4 := by
    intro i h
    by_cases hi : i < 9
    · exact hNear i hi h
    · rw [List.getElem?_eq_none (Nat.le_of_not_lt hi), List.getElem?_eq_none (Nat.le_of_not_lt hi)] at h
      exact absurd rfl h
  exact crc32c_burst rfl (by decide) hWindow

end TupleStone
