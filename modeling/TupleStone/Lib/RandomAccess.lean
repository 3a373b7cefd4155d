import Mathlib.Data.List.Basic
import Mathlib.Data.List.TakeDrop
import Mathlib.Logic.Function.Basic
import Mathlib.Tactic.Common

/-! # Random access to a file

Reading takes exactly the symbols asked for or fails. Writing replaces the symbols from an offset on and extends the
file as far as it has to; a gap is filled.
-/

set_option autoImplicit false

namespace RandomAccess

variable {σ : Type}

def readAt (file : List σ) (offset count : Nat) : Option (List σ) :=
  if offset + count ≤ file.length then some ((file.drop offset).take count) else none

def writeAt (fill : σ) (file : List σ) (offset : Nat) (symbols : List σ) : List σ :=
  file.take offset ++ (List.replicate (offset - file.length) fill ++ (symbols ++ file.drop (offset + symbols.length)))

variable {fill : σ} {file symbols : List σ} {offset count : Nat}

theorem readAt_eq_some {found : List σ} : readAt file offset count = some found ↔
    ∃ before after, file = before ++ (found ++ after) ∧ before.length = offset ∧ found.length = count := by
  constructor
  · intro h
    rw [readAt] at h
    split at h
    · rename_i hBound
      cases h
      refine ⟨file.take offset, (file.drop offset).drop count, ?_, ?_, ?_⟩
      · rw [List.take_append_drop, List.take_append_drop]
      · rw [List.length_take]
        omega
      · rw [List.length_take, List.length_drop]
        omega
    · cases h
  · rintro ⟨before, after, rfl, rfl, rfl⟩
    rw [readAt, if_pos (by simp only [List.length_append]; omega), List.drop_left, List.take_left]

theorem length_of_readAt {found : List σ} (h : readAt file offset count = some found) : found.length = count := by
  obtain ⟨before, after, -, -, hCount⟩ := readAt_eq_some.mp h
  exact hCount

theorem readAt_of_le (h : offset + count ≤ file.length) : ∃ found, readAt file offset count = some found :=
  ⟨_, if_pos h⟩

theorem length_writeAt : (writeAt fill file offset symbols).length = max file.length (offset + symbols.length) := by
  simp only [writeAt, List.length_append, List.length_take, List.length_replicate, List.length_drop]
  omega

/-- What was written is read back. -/
theorem readAt_writeAt_same (fill : σ) (file symbols : List σ) (offset : Nat) :
    readAt (writeAt fill file offset symbols) offset symbols.length = some symbols := by
  rw [readAt_eq_some]
  refine ⟨file.take offset ++ List.replicate (offset - file.length) fill, file.drop (offset + symbols.length), ?_, ?_, rfl⟩
  · rw [writeAt, List.append_assoc]
  · rw [List.length_append, List.length_take, List.length_replicate]
    omega

/-- Symbols in front of the ones written are as they were. -/
theorem readAt_writeAt_before {offset' : Nat} (h : offset' + count ≤ offset) (hFile : offset' + count ≤ file.length) :
    readAt (writeAt fill file offset symbols) offset' count = readAt file offset' count := by
  have hTake : offset' + count ≤ (file.take offset).length := by
    rw [List.length_take]
    omega
  have hLong : offset' + count ≤ (writeAt fill file offset symbols).length := by
    rw [length_writeAt]
    omega
  rw [readAt, if_pos hLong, readAt, if_pos hFile, writeAt, List.drop_append_of_le_length (by omega),
    List.take_append_of_le_length (by rw [List.length_drop]; omega), List.drop_take, List.take_take,
    Nat.min_eq_left (by omega)]

/-- Symbols behind the ones written are as they were. -/
theorem readAt_writeAt_after {offset' : Nat} (h : offset + symbols.length ≤ offset') (hFile : offset' + count ≤ file.length) :
    readAt (writeAt fill file offset symbols) offset' count = readAt file offset' count := by
  have hLong : offset' + count ≤ (writeAt fill file offset symbols).length := by
    rw [length_writeAt]
    omega
  have hFront : (file.take offset ++ (List.replicate (offset - file.length) fill ++ symbols)).length =
      offset + symbols.length := by
    simp only [List.length_append, List.length_take, List.length_replicate]
    omega
  have hDrop : (writeAt fill file offset symbols).drop offset' = file.drop offset' := by
    rw [writeAt, ← List.append_assoc (List.replicate _ _), ← List.append_assoc, List.drop_append, hFront, List.drop_drop,
      List.drop_of_length_le (by omega), List.nil_append, Nat.add_sub_cancel' h]
  rw [readAt, if_pos hLong, readAt, if_pos hFile, hDrop]

/-- Writing what is there changes nothing. -/
theorem writeAt_self (h : readAt file offset count = some symbols) : writeAt fill file offset symbols = file := by
  obtain ⟨before, after, rfl, rfl, rfl⟩ := readAt_eq_some.mp h
  have hNoGap : before.length - (before ++ (symbols ++ after)).length = 0 := by
    rw [List.length_append]
    omega
  have hDrop : (before ++ (symbols ++ after)).drop (before.length + symbols.length) = after := by
    rw [← List.append_assoc, ← List.length_append, List.drop_left]
  rw [writeAt, hNoGap, hDrop, List.take_left, List.replicate_zero, List.nil_append]

theorem writeAt_length : writeAt fill file file.length symbols = file ++ symbols := by
  have hDrop : file.drop (file.length + symbols.length) = [] := List.drop_of_length_le (Nat.le_add_right _ _)
  rw [writeAt, List.take_length, Nat.sub_self, List.replicate_zero, List.nil_append, hDrop, List.append_nil]

/-! ## Files of equal blocks -/

/-- The file is `count` blocks of `size` symbols. -/
structure Blocks (file : List σ) (size count : Nat) (block : Nat → List σ) : Prop where
  length : file.length = count * size
  read : ∀ i < count, readAt file (i * size) size = some (block i)

variable {size i : Nat} {block block' : Nat → List σ}

theorem Blocks.congr (h : Blocks file size count block) (hSame : ∀ i < count, block' i = block i) :
    Blocks file size count block' :=
  ⟨h.length, fun i hLt => by rw [h.read i hLt, hSame i hLt]⟩

theorem Blocks.length_block (h : Blocks file size count block) (hLt : i < count) : (block i).length = size :=
  length_of_readAt (h.read i hLt)

/-- Replaces a block, or adds one behind the last. -/
theorem Blocks.write (fill : σ) (h : Blocks file size count block) (hLe : i ≤ count) (hSize : symbols.length = size) :
    Blocks (writeAt fill file (i * size) symbols) size (max count (i + 1)) (Function.update block i symbols) := by
  have hSucc : (i + 1) * size = i * size + size := Nat.succ_mul i size
  constructor
  · rw [length_writeAt, h.length, hSize, ← hSucc, Nat.mul_max_mul_right]
  · intro j hLt
    obtain rfl | hNe := eq_or_ne j i
    · rw [Function.update_self, ← hSize, readAt_writeAt_same fill]
    · have hOld : j < count := by omega
      have hBound : j * size + size ≤ file.length := by
        rw [h.length, ← Nat.succ_mul]
        exact Nat.mul_le_mul_right size hOld
      rw [Function.update_of_ne hNe, ← h.read j hOld]
      obtain hBefore | hAfter := Nat.lt_or_gt_of_ne hNe
      · apply readAt_writeAt_before _ hBound
        rw [← Nat.succ_mul]
        exact Nat.mul_le_mul_right size hBefore
      · apply readAt_writeAt_after _ hBound
        rw [hSize, ← hSucc]
        exact Nat.mul_le_mul_right size hAfter

/-- One more block behind the last. -/
theorem Blocks.concat (fill : σ) (h : Blocks file size count block) (hSize : symbols.length = size) :
    Blocks (file ++ symbols) size (count + 1) (Function.update block count symbols) := by
  have hWritten := Blocks.write fill h (Nat.le_refl count) hSize
  rwa [← h.length, writeAt_length, Nat.max_eq_right (Nat.le_succ count)] at hWritten

end RandomAccess
