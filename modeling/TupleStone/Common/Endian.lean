import TupleStone.Common.Bytes
import TupleStone.Lib.ByteDigits

/-! # Little-endian fields of files -/

set_option autoImplicit false

namespace TupleStone

open ByteDigits (digits join value)

def storeU32LE (v : UInt32) : Bytes := digits 4 v.toNat

def loadU32LE (src : Bytes) : UInt32 := UInt32.ofNat (join 0 0 (src.take 4))

def storeU64LE (v : UInt64) : Bytes := storeU32LE v.toUInt32 ++ storeU32LE (v >>> 32).toUInt32

def loadU64LE (src : Bytes) : UInt64 := (loadU32LE src).toUInt64 ||| ((loadU32LE (src.drop 4)).toUInt64 <<< 32)

@[simp] theorem length_storeU32LE (v : UInt32) : (storeU32LE v).length = 4 := ByteDigits.length_digits _ _

@[simp] theorem length_storeU64LE (v : UInt64) : (storeU64LE v).length = 8 := by
  rw [storeU64LE, List.length_append, length_storeU32LE, length_storeU32LE]

@[simp] theorem loadU32LE_storeU32LE (v : UInt32) (rest : Bytes) : loadU32LE (storeU32LE v ++ rest) = v := by
  have hTake : (storeU32LE v ++ rest).take 4 = digits 4 v.toNat := by
    rw [List.take_append_of_le_length (by simp), List.take_of_length_le (by simp), storeU32LE]
  apply UInt32.toNat_inj.mp
  rw [loadU32LE, hTake, ByteDigits.join_zero, ByteDigits.value_digits, UInt32.toNat_ofNat']
  have hLt := v.toNat_lt
  omega

theorem halves_join (v : UInt64) : v.toUInt32.toUInt64 ||| ((v >>> 32).toUInt32.toUInt64 <<< 32) = v := by
  have hLt : v.toNat < 2 ^ 64 := v.toNat_lt
  have hLow : v.toUInt32.toUInt64.toNat = v.toNat % 2 ^ 32 := by
    rw [UInt32.toNat_toUInt64, UInt64.toNat_toUInt32]
  have hHalf : (v >>> 32).toUInt32.toUInt64.toNat = v.toNat / 2 ^ 32 := by
    have hShift : (v >>> 32).toNat = v.toNat / 2 ^ 32 := by
      rw [UInt64.toNat_shiftRight, ← Nat.shiftRight_eq_div_pow]
      rfl
    rw [UInt32.toNat_toUInt64, UInt64.toNat_toUInt32, hShift]
    omega
  have hHigh : ((v >>> 32).toUInt32.toUInt64 <<< 32).toNat = (v.toNat / 2 ^ 32) <<< 32 := by
    have hShift : (UInt64.toNat 32) % 64 = 32 := rfl
    rw [UInt64.toNat_shiftLeft, hHalf, hShift, Nat.shiftLeft_eq]
    omega
  apply UInt64.toNat_inj.mp
  rw [UInt64.toNat_or, hLow, hHigh, Nat.or_comm, ← Nat.shiftLeft_add_eq_or_of_lt (Nat.mod_lt _ (by decide)), Nat.shiftLeft_eq]
  omega

@[simp] theorem loadU64LE_storeU64LE (v : UInt64) (rest : Bytes) : loadU64LE (storeU64LE v ++ rest) = v := by
  have hDrop : (storeU64LE v ++ rest).drop 4 = storeU32LE (v >>> 32).toUInt32 ++ rest := by
    rw [storeU64LE, List.append_assoc, List.drop_append_of_le_length (by simp), List.drop_of_length_le (by simp),
      List.nil_append]
  rw [loadU64LE, hDrop, loadU32LE_storeU32LE, storeU64LE, List.append_assoc, loadU32LE_storeU32LE, halves_join]

end TupleStone
