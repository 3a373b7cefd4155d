import TupleStone.Common.Key
import Mathlib.Order.Monotone.Basic

/-! # The order of keys

Within a type the ascending keys are ordered as the values are. All but the empty string are written in groups whose
marks make a difference decide; the empty string is written as a single NUL byte.
-/

set_option autoImplicit false

namespace TupleStone

open LexOrder PaddedGroups

/-! ## Keys as bytes -/

/-- The groups of eight bytes, with the marks of `AppendEscaped`. -/
def byteMarks : Marks UInt8 8 where
  zero := 0
  count n := UInt8.ofNat n
  more := 0xFF
  size_pos := by decide
  zero_le _ := UInt8.zero_le
  count_lt := by
    intro m n hLess hSize
    have hBytes : UInt8.size = 256 := rfl
    rw [UInt8.lt_iff_toNat_lt, UInt8.toNat_ofNat_of_lt' (by omega), UInt8.toNat_ofNat_of_lt' (by omega)]
    exact hLess
  count_lt_more := by
    intro n hSize
    have hBytes : UInt8.size = 256 := rfl
    have hMore : UInt8.toNat 0xFF = 255 := rfl
    rw [UInt8.lt_iff_toNat_lt, UInt8.toNat_ofNat_of_lt' (by omega), hMore]
    omega

/-- What `AppendEscaped` appends. -/
def escaped (text : Bytes) : Bytes := if text.isEmpty then [0] else byteMarks.groups text

theorem escapedGroup_zero (text : Bytes) :
    escapedGroup text 0 = byteMarks.pad 8 text ++ [byteMarks.mark 8 0 text] := by
  have hTake : text.take (min 8 text.length) = text.take 8 := by
    rw [← List.take_take, List.take_length]
  have hFill : 8 - min 8 text.length = 8 - text.length := by omega
  have hMark : (if min 8 text.length = 8 ∧ min 8 text.length < text.length then 0xFF else UInt8.ofNat (min 8 text.length)) =
      byteMarks.mark 8 0 text := by
    rw [Marks.mark, Nat.zero_add]
    split
    · next h => rw [if_pos (by omega)]; rfl
    · next h =>
      have hShort : text.length ≤ 8 := by omega
      rw [if_neg (by omega), Nat.min_eq_right hShort]
      rfl
  rw [escapedGroup, Nat.sub_zero, List.drop_zero, Nat.zero_add, hTake, hFill, hMark, Marks.pad_eq]
  rfl

theorem escapedGroup_shift (text : Bytes) (offset : Nat) : escapedGroup text (8 + offset) = escapedGroup (text.drop 8) offset := by
  have hLeft : text.length - (8 + offset) = (text.drop 8).length - offset := by
    rw [List.length_drop]
    omega
  have hMore : ∀ count, 8 + offset + count < text.length ↔ offset + count < (text.drop 8).length := by
    intro count
    rw [List.length_drop]
    omega
  rw [escapedGroup, escapedGroup, hLeft, List.drop_drop, Nat.add_comm 8 offset]
  simp only [hMore, Nat.add_comm offset 8]

theorem groupOffsets_long {size : Nat} (h : 8 < size) :
    groupOffsets size = 0 :: (groupOffsets (size - 8)).map (fun offset => 8 + offset) := by
  have hCount : (size + 7) / 8 = (size - 8 + 7) / 8 + 1 := by omega
  rw [groupOffsets, hCount, List.range_succ_eq_map, List.map_cons, groupOffsets, List.map_map, List.map_map]
  congr 1
  apply List.map_congr_left
  intro i _
  change 8 * (i + 1) = 8 + 8 * i
  omega

theorem flatMap_escapedGroup {text : Bytes} (h : text ≠ []) :
    (groupOffsets text.length).flatMap (escapedGroup text) = byteMarks.groups text := by
  induction hLength : text.length using Nat.strongRecOn generalizing text with
  | ind length ih =>
    have hPos : 0 < text.length := List.length_pos_of_ne_nil h
    rw [Marks.groups]
    split
    · next hLong =>
      have hRest : text.drop 8 ≠ [] := fun hNil => by
        have hZero := congrArg List.length hNil
        rw [List.length_drop, List.length_nil] at hZero
        omega
      have hStep := ih (text.drop 8).length (hLength ▸ byteMarks.drop_shorter hLong) hRest rfl
      rw [List.length_drop, hLength] at hStep
      rw [groupOffsets_long (hLength ▸ hLong), List.flatMap_cons, escapedGroup_zero, List.flatMap_map]
      simp only [escapedGroup_shift]
      rw [hStep]
    · next hShort =>
      have hOne : (length + 7) / 8 = 1 := by omega
      rw [groupOffsets, hOne, List.append_nil]
      exact (List.append_nil _).trans (escapedGroup_zero text)

theorem appendEscaped_eq (out text : Bytes) : appendEscaped out text = out ++ escaped text := by
  rw [appendEscaped, escaped]
  cases text with
  | nil => simp [groupOffsets]
  | cons c text =>
    rw [flatMap_escapedGroup (List.cons_ne_nil c text)]
    rfl

namespace Value

/-- The bits of a REAL as they are written: inverted when negative, else with the sign bit set. -/
def realKey (x : Binary64) : UInt64 := if x.bits &&& signBit ≠ 0 then ~~~x.bits else x.bits ^^^ signBit

@[simp] theorem encodeKey_null : encodeKey null false = [0] := rfl

@[simp] theorem encodeKey_boolean (b : Bool) : encodeKey (boolean b) false = [1, 1, if b then 1 else 0] := rfl

@[simp] theorem encodeKey_integer (n : Int64) :
    encodeKey (integer n) false = [1, 2] ++ BigEndian.digits 8 (n.toUInt64 ^^^ signBit).toNat := appendBigEndian_eq _ _

@[simp] theorem encodeKey_real (x : Binary64) :
    encodeKey (real x) false = [1, 3] ++ BigEndian.digits 8 (realKey x).toNat := appendBigEndian_eq _ _

@[simp] theorem encodeKey_text (s : Bytes) : encodeKey (text s) false = [1, 4] ++ escaped s := appendEscaped_eq _ _

@[simp] theorem encodeKey_blob (b : Bytes) : encodeKey (blob b) false = [1, 5] ++ escaped b := appendEscaped_eq _ _

theorem encodeKey_descending (v : Value) : encodeKey v true = (encodeKey v false).map (fun byte => ~~~byte) := by
  rw [encodeKey, encodeKey]
  rfl

end Value

/-! ## The order of payloads -/

/-- Flipping the sign bit maps the signed order to the order of words. -/
theorem toNat_flipped (n : Int64) : ((n.toUInt64 ^^^ signBit).toNat : Int) = n.toInt + 2 ^ 63 := by
  have hInt : n.toInt = if 2 * n.toUInt64.toNat < 2 ^ 64 then (n.toUInt64.toNat : Int) else (n.toUInt64.toNat : Int) - (2 ^ 64 : Nat) :=
    BitVec.toInt_eq_toNat_cond n.toBitVec
  have hBound := n.toUInt64.toNat_lt
  rw [toNat_xor_signBit, hInt]
  split <;> split <;> omega

theorem digits_lt_iff (v w : UInt64) : BigEndian.digits 8 v.toNat < BigEndian.digits 8 w.toNat ↔ v.toNat < w.toNat := by
  have hPow : (256 : Nat) ^ 8 = 2 ^ 64 := by decide
  rw [BigEndian.lt_iff_value_lt (by simp), BigEndian.value_digits, BigEndian.value_digits, hPow, Nat.mod_eq_of_lt v.toNat_lt,
    Nat.mod_eq_of_lt w.toNat_lt]

theorem groups_cons (c : UInt8) (text : Bytes) : ∃ rest, byteMarks.groups (c :: text) = c :: rest := by
  rw [Marks.groups, Marks.pad]
  exact ⟨_, rfl⟩

theorem escaped_of_ne_nil {text : Bytes} (h : text ≠ []) : escaped text = byteMarks.groups text := by
  cases text with
  | nil => exact absurd rfl h
  | cons c text => rfl

/-- One of the strings is empty and the other begins with a NUL byte. -/
def EmptyBeforeNul (a b : Bytes) : Prop := a = [] ∧ b.head? = some 0

/-- Apart from the empty string in front of a NUL byte, a difference orders the written strings. -/
theorem escaped_differsBelow {a b : Bytes} (h : a < b) (hEmpty : ¬ EmptyBeforeNul a b) : DiffersBelow (escaped a) (escaped b) := by
  cases b with
  | nil => exact absurd h (List.not_lt_nil a)
  | cons d b =>
    rw [escaped_of_ne_nil (List.cons_ne_nil d b)]
    cases a with
    | nil =>
      obtain ⟨rest, hRest⟩ := groups_cons d b
      have hPos : 0 < d := lt_of_le_of_ne UInt8.zero_le (fun hZero => hEmpty ⟨rfl, by rw [← hZero]; rfl⟩)
      rw [hRest]
      exact differsBelow_of_head hPos [] rest
    | cons c a =>
      rw [escaped_of_ne_nil (List.cons_ne_nil c a)]
      exact byteMarks.groups_differsBelow h

theorem escaped_nil_begins {b : Bytes} (h : b.head? = some 0) : escaped [] <+: escaped b := by
  cases b with
  | nil => cases h
  | cons d b =>
    cases h
    obtain ⟨rest, hRest⟩ := groups_cons 0 b
    rw [escaped_of_ne_nil (List.cons_ne_nil 0 b), hRest]
    exact ⟨rest, rfl⟩

theorem escaped_ne {a b : Bytes} (h : EmptyBeforeNul a b) : escaped a ≠ escaped b := by
  obtain ⟨rfl, hHead⟩ := h
  cases b with
  | nil => cases hHead
  | cons d b =>
    intro hEq
    have hLength := congrArg List.length hEq
    rw [escaped_of_ne_nil (List.cons_ne_nil d b), Marks.groups, List.length_append, List.length_append, Marks.length_pad] at hLength
    change 1 = 8 + 1 + _ at hLength
    omega

theorem escaped_strictMono : StrictMono escaped := by
  intro a b h
  by_cases hEmpty : EmptyBeforeNul a b
  · have hNe := escaped_ne hEmpty
    obtain ⟨rfl, hHead⟩ := hEmpty
    exact lt_of_prefix (escaped_nil_begins hHead) hNe
  · exact (escaped_differsBelow h hEmpty).lt

namespace Value

/-! ## Ascending keys -/

/-- Behind a common beginning the payloads are compared. -/
theorem sign_compareSlices_append (p x y : Bytes) :
    (compareSlices (p ++ x) (p ++ y)).sign = threeWay (decide (x < y)) (decide (y < x)) := by
  simp only [sign_compareSlices, append_left_lt_iff]

theorem sign_compare_integers (a b : Int64) :
    (compareSlices (encodeKey (integer a) false) (encodeKey (integer b) false)).sign =
      threeWay (decide (a.toInt < b.toInt)) (decide (b.toInt < a.toInt)) := by
  have hLess : ∀ m n : Int64, (m.toUInt64 ^^^ signBit).toNat < (n.toUInt64 ^^^ signBit).toNat ↔ m.toInt < n.toInt := by
    intro m n
    rw [← Int.ofNat_lt, toNat_flipped, toNat_flipped]
    omega
  rw [encodeKey_integer, encodeKey_integer, sign_compareSlices_append]
  simp only [digits_lt_iff, hLess]

theorem sign_compare_escaped (p a b : Bytes) :
    (compareSlices (p ++ escaped a) (p ++ escaped b)).sign = threeWay (decide (a < b)) (decide (b < a)) := by
  rw [sign_compareSlices_append]
  simp only [escaped_strictMono.lt_iff_lt]

theorem encodeKey_of_not_null {v : Value} (h : v ≠ null) : ∃ rest, encodeKey v false = 1 :: rest := by
  cases v with
  | null => exact absurd rfl h
  | boolean b => exact ⟨_, rfl⟩
  | integer n => exact ⟨_, encodeKey_integer n⟩
  | real x => exact ⟨_, encodeKey_real x⟩
  | text s => exact ⟨_, encodeKey_text s⟩
  | blob b => exact ⟨_, encodeKey_blob b⟩

theorem null_first {v : Value} (h : v ≠ null) : compareSlices (encodeKey null false) (encodeKey v false) < 0 := by
  obtain ⟨rest, hRest⟩ := encodeKey_of_not_null h
  have hLess : ([0] : Bytes) < 1 :: rest := List.cons_lt_cons_iff.mpr (Or.inl (by decide))
  apply Int.sign_eq_neg_one_iff_neg.mp
  rw [sign_compareSlices, encodeKey_null, hRest, decide_eq_true hLess, decide_eq_false (not_lt_of_gt hLess)]
  rfl

/-- Within a type the ascending keys are ordered as the values are, and NULL comes first. -/
theorem ascending_keys_ordered :
    (∀ a b : Bool, (compareSlices (encodeKey (boolean a) false) (encodeKey (boolean b) false)).sign =
      threeWay (decide (a < b)) (decide (b < a))) ∧
    (∀ a b : Int64, (compareSlices (encodeKey (integer a) false) (encodeKey (integer b) false)).sign =
      threeWay (decide (a.toInt < b.toInt)) (decide (b.toInt < a.toInt))) ∧
    (∀ a b : Bytes, (compareSlices (encodeKey (text a) false) (encodeKey (text b) false)).sign =
      threeWay (decide (a < b)) (decide (b < a))) ∧
    (∀ a b : Bytes, (compareSlices (encodeKey (blob a) false) (encodeKey (blob b) false)).sign =
      threeWay (decide (a < b)) (decide (b < a))) ∧
    ∀ v, v ≠ null → compareSlices (encodeKey null false) (encodeKey v false) < 0 := by
  constructor
  · decide
  constructor
  · exact sign_compare_integers
  constructor
  · intro a b
    rw [encodeKey_text, encodeKey_text, sign_compare_escaped]
  constructor
  · intro a b
    rw [encodeKey_blob, encodeKey_blob, sign_compare_escaped]
  · exact fun v => null_first

/-! ## Prefixes and descending keys -/

def ProperPrefix (x y : Bytes) : Prop := x <+: y ∧ x ≠ y

/-- Different values whose keys are no proper prefixes of each other, either way, and in descending order stand the other
way round. -/
structure KeysApart (v w : Value) : Prop where
  prefixFree : ∀ descending, ¬ ProperPrefix (encodeKey v descending) (encodeKey w descending) ∧
    ¬ ProperPrefix (encodeKey w descending) (encodeKey v descending)
  reversed : some (compareSlices (encodeKey v true) (encodeKey w true)).sign = w.compare v

theorem strictAnti_not : StrictAnti (fun byte : UInt8 => ~~~byte) := by
  intro c d h
  have hC := c.toNat_lt
  have hD := d.toNat_lt
  have hBytes : UInt8.size = 256 := rfl
  change ~~~d < ~~~c
  rw [UInt8.lt_iff_toNat_lt, UInt8.toNat_not, UInt8.toNat_not]
  rw [UInt8.lt_iff_toNat_lt] at h
  omega

variable {v w : Value} {p a b : Bytes}

theorem not_properPrefix_of_not {x y : Bytes} (h : ¬ x <+: y) : ¬ ProperPrefix x y := fun hPrefix => h hPrefix.1

theorem keysApart_of_differsBelow (hV : encodeKey v false = p ++ escaped a) (hW : encodeKey w false = p ++ escaped b)
    (hDiffers : DiffersBelow (escaped a) (escaped b)) :
    (∀ descending, ¬ ProperPrefix (encodeKey v descending) (encodeKey w descending) ∧
      ¬ ProperPrefix (encodeKey w descending) (encodeKey v descending)) ∧
    encodeKey w true < encodeKey v true := by
  have hUp : DiffersBelow (encodeKey v false) (encodeKey w false) := by
    rw [hV, hW]
    exact hDiffers.prepend p
  have hDown : DiffersBelow (encodeKey w true) (encodeKey v true) := by
    rw [encodeKey_descending, encodeKey_descending]
    exact hUp.map strictAnti_not
  constructor
  · intro descending
    cases descending with
    | false => exact ⟨not_properPrefix_of_not hUp.not_prefix, not_properPrefix_of_not hUp.not_prefix_of⟩
    | true => exact ⟨not_properPrefix_of_not hDown.not_prefix_of, not_properPrefix_of_not hDown.not_prefix⟩
  · exact hDown.lt

theorem not_keysApart (hV : encodeKey v false = p ++ escaped a) (hW : encodeKey w false = p ++ escaped b)
    (hEmpty : EmptyBeforeNul a b) : ProperPrefix (encodeKey v false) (encodeKey w false) := by
  rw [hV, hW]
  constructor
  · obtain ⟨rfl, hHead⟩ := hEmpty
    exact (List.prefix_append_right_inj p).mpr (escaped_nil_begins hHead)
  · exact fun hEq => escaped_ne hEmpty (List.append_cancel_left hEq)

theorem keysApart_iff (hV : encodeKey v false = p ++ escaped a) (hW : encodeKey w false = p ++ escaped b)
    (hCompare : w.compare v = some (threeWay (decide (b < a)) (decide (a < b)))) (hNe : a ≠ b) :
    KeysApart v w ↔ ¬ EmptyBeforeNul a b ∧ ¬ EmptyBeforeNul b a := by
  constructor
  · intro h
    exact ⟨fun hEmpty => (h.prefixFree false).1 (not_keysApart hV hW hEmpty),
      fun hEmpty => (h.prefixFree false).2 (not_keysApart hW hV hEmpty)⟩
  · rintro ⟨hLeft, hRight⟩
    obtain hLess | hLess := lt_or_gt_of_ne hNe
    · obtain ⟨hFree, hDown⟩ := keysApart_of_differsBelow hV hW (escaped_differsBelow hLess hLeft)
      constructor
      · exact hFree
      · rw [hCompare, sign_compareSlices]
        simp [hLess, hDown, not_lt_of_gt hLess, not_lt_of_gt hDown]
    · obtain ⟨hFree, hDown⟩ := keysApart_of_differsBelow hW hV (escaped_differsBelow hLess hRight)
      constructor
      · exact fun descending => ⟨(hFree descending).2, (hFree descending).1⟩
      · rw [hCompare, sign_compareSlices]
        simp [hLess, hDown, not_lt_of_gt hLess, not_lt_of_gt hDown]

/-- The keys of two TEXT or BLOB values are apart unless one value is empty and the other begins with a NUL byte. -/
theorem text_blob_keys_apart_iff (a b : Bytes) (h : a ≠ b) :
    (KeysApart (text a) (text b) ↔ ¬ EmptyBeforeNul a b ∧ ¬ EmptyBeforeNul b a) ∧
    (KeysApart (blob a) (blob b) ↔ ¬ EmptyBeforeNul a b ∧ ¬ EmptyBeforeNul b a) :=
  ⟨keysApart_iff (encodeKey_text a) (encodeKey_text b) rfl h, keysApart_iff (encodeKey_blob a) (encodeKey_blob b) rfl h⟩

theorem prefix_texts_keys_apart : ascii "ab" ≠ ascii "abc" ∧ KeysApart (text (ascii "ab")) (text (ascii "abc")) := by
  have hNe : ascii "ab" ≠ ascii "abc" := by decide
  have hFirst : ∀ {x y : Bytes}, x ≠ [] → ¬ EmptyBeforeNul x y := fun hx hEmpty => hx hEmpty.1
  exact ⟨hNe, (text_blob_keys_apart_iff _ _ hNe).1.mpr ⟨hFirst (by decide), hFirst (by decide)⟩⟩

/-- The key of the empty string is a proper prefix of the key of a single NUL byte. -/
theorem empty_text_key_prefix : ¬ ∀ a b : Bytes, a ≠ b → KeysApart (text a) (text b) := by
  intro h
  have hApart := h [] [0] (by decide)
  exact (hApart.prefixFree false).1 ⟨by decide +kernel, by decide +kernel⟩

end Value

end TupleStone
