import TupleStone.Common.Value
import TupleStone.Lib.Outcome
import TupleStone.Lib.PaddedGroups

/-! # Index keys

A value is written as a byte string that is compared byte by byte: a marker for NULL, the type, and a payload. Reads of
an encoded key are checked: one outside the bytes is `undefined`.
-/

set_option autoImplicit false

namespace TupleStone

/-! ## Comparison of slices -/

/-- `memcmp` of the first `n` bytes; of its value only the sign is specified. -/
def memcmp : Bytes → Bytes → Nat → Int
  | x :: xs, y :: ys, n + 1 => if x = y then memcmp xs ys n else if x < y then -1 else 1
  | _, _, _ => 0

/-- `Slice::Compare` -/
def compareSlices (a b : Bytes) : Int :=
  let n := if a.length < b.length then a.length else b.length
  let r := if n ≠ 0 then memcmp a b n else 0
  if r ≠ 0 then r
  else if a.length = b.length then 0
  else if a.length < b.length then -1 else 1

/-! ## Writing -/

def signBit : UInt64 := 0x8000000000000000

def appendBigEndian (out : Bytes) (value : UInt64) : Bytes :=
  out ++ ([56, 48, 40, 32, 24, 16, 8, 0] : List UInt64).map (fun shift => ((value >>> shift) &&& 0xFF).toUInt8)

/-- What the loop of `AppendEscaped` appends at an offset. -/
def escapedGroup (text : Bytes) (offset : Nat) : Bytes :=
  let count := min 8 (text.length - offset)
  (text.drop offset).take count ++ List.replicate (8 - count) 0 ++
    [if count = 8 ∧ offset + count < text.length then 0xFF else UInt8.ofNat count]

/-- The offsets `0, 8, …` below a size. -/
def groupOffsets (size : Nat) : List Nat := (List.range ((size + 7) / 8)).map (fun i => 8 * i)

def appendEscaped (out text : Bytes) : Bytes :=
  let out := out ++ (groupOffsets text.length).flatMap (escapedGroup text)
  if text.isEmpty then out ++ [0] else out

namespace Value

def encodeKey (v : Value) (descending : Bool) : Bytes :=
  let result : Bytes := [if v.isNull then 0 else 1]
  let result :=
    if v.isNull then result
    else
      let result := result ++ [v.type.toByte]
      match v with
      | null => result
      | boolean b => result ++ [if b then 1 else 0]
      | integer n => appendBigEndian result (n.toUInt64 ^^^ signBit)
      | real x => appendBigEndian result (if x.bits &&& signBit ≠ 0 then ~~~x.bits else x.bits ^^^ signBit)
      | text s => appendEscaped result s
      | blob b => appendEscaped result b
  if descending then result.map (fun byte => ~~~byte) else result

end Value

/-! ## Reading -/

def byteAt (bytes : Bytes) (i : Nat) : Outcome UInt8 :=
  match bytes[i]? with
  | some byte => .done byte
  | none => .undefined

/-- `std::string_view::substr`, which throws when the position is behind the end. -/
def substring (bytes : Bytes) (pos count : Nat) : Outcome Bytes :=
  if pos ≤ bytes.length then .done ((bytes.drop pos).take count) else .undefined

def readBigEndian (bytes : Bytes) : UInt64 :=
  bytes.foldl (fun result byte => (result <<< 8) ||| byte.toUInt64) 0

/-- The loop over the groups of a payload: the bytes collected, or `none` when it is rejected. -/
def groupLoop (payload : Bytes) : Nat → (pos : Nat) → (bytes : Bytes) → Outcome (Option Bytes)
  | 0, _, _ => .outOfFuel
  | fuel + 1, pos, bytes =>
    if pos + 9 ≤ payload.length then do
      let count ← byteAt payload (pos + 8)
      if 8 < count then
        if count ≠ 0xFF then pure none
        else
          let group ← substring payload pos 8
          groupLoop payload fuel (pos + 9) (bytes ++ group)
      else
        let group ← substring payload pos count.toNat
        if pos + 9 ≠ payload.length then pure none else pure (some (bytes ++ group))
    else pure none

namespace Value

/-- The switch over the type, on the bytes behind it. -/
def decodePayload (type : Option TypeId) (payload : Bytes) : Outcome (Option Value) :=
  match type with
  | some .kBoolean =>
    if payload.length = 1 then do
      let byte ← byteAt payload 0
      pure (if byte = 0 ∨ byte = 1 then some (boolean (byte ≠ 0)) else none)
    else pure none
  | some .kInteger =>
    if payload.length ≠ 8 then pure none
    else pure (some (integer (readBigEndian payload ^^^ signBit).toInt64))
  | some .kReal =>
    if payload.length ≠ 8 then pure none
    else
      let bits := readBigEndian payload
      pure (some (real ⟨if bits &&& signBit ≠ 0 then bits ^^^ signBit else ~~~bits⟩))
  | some .kText => do
    let bytes ← groupLoop payload (payload.length + 1) 0 []
    pure (bytes.map text)
  | some .kBlob => do
    let bytes ← groupLoop payload (payload.length + 1) 0 []
    pure (bytes.map blob)
  | some .kNull => pure none
  | none => pure none

def decodeKey (encoded : Bytes) : Outcome (Option Value) :=
  if encoded.isEmpty then pure none
  else do
    let marker ← byteAt encoded 0
    if marker = 0 then pure (some null)
    else if marker ≠ 1 ∨ encoded.length < 3 then pure none
    else
      let tag ← byteAt encoded 1
      let payload ← substring encoded 2 (encoded.length - 2)
      decodePayload (TypeId.ofByte? tag) payload

end Value

example : (Value.text (ascii "ab")).encodeKey false = [1, 4, 97, 98, 0, 0, 0, 0, 0, 0, 2] := by decide

/-! ## What the functions compute -/

open LexOrder PaddedGroups

theorem memcmp_eq {a b : Bytes} {n : Nat} (h : n = min a.length b.length) :
    memcmp a b n = if a.take n < b.take n then -1 else if b.take n < a.take n then 1 else 0 := by
  induction a generalizing b n with
  | nil =>
    have hZero : n = 0 := by rw [h, List.length_nil, Nat.zero_min]
    simp [memcmp, hZero]
  | cons x xs ih =>
    cases b with
    | nil =>
      have hZero : n = 0 := by rw [h, List.length_nil, Nat.min_zero]
      simp [memcmp, hZero]
    | cons y ys =>
      obtain ⟨m, rfl⟩ : ∃ m, n = m + 1 := ⟨min xs.length ys.length, by rw [h, List.length_cons, List.length_cons, Nat.succ_min_succ]⟩
      have hRest : m = min xs.length ys.length := by
        rw [List.length_cons, List.length_cons, Nat.succ_min_succ] at h
        exact Nat.succ.inj h
      rw [memcmp, List.take_succ_cons, List.take_succ_cons, ih hRest]
      simp only [List.cons_lt_cons_iff]
      obtain hLess | rfl | hLess := lt_trichotomy x y
      · simp [hLess, ne_of_lt hLess]
      · simp
      · simp [hLess, ne_of_gt hLess, not_lt_of_gt hLess]

/-- The sign of the comparison is the lexicographic order, a proper prefix being smaller. -/
theorem sign_compareSlices (a b : Bytes) :
    (compareSlices a b).sign = Value.threeWay (decide (a < b)) (decide (b < a)) := by
  have hMin : (if a.length < b.length then a.length else b.length) = min a.length b.length := by
    rw [Nat.min_def]
    split <;> split <;> omega
  have hMemcmp : (if min a.length b.length ≠ 0 then memcmp a b (min a.length b.length) else 0) =
      memcmp a b (min a.length b.length) := by
    split
    · rfl
    · next hZero =>
      rw [not_not.mp hZero]
      cases a <;> cases b <;> rfl
  rw [compareSlices, hMin, hMemcmp, memcmp_eq rfl]
  obtain ⟨n, hn⟩ : ∃ n, n = min a.length b.length := ⟨_, rfl⟩
  rw [← hn]
  have hLength : (a.take n).length = (b.take n).length := by
    rw [List.length_take, List.length_take]
    omega
  have hSplit : ∀ {x y : Bytes}, x.take n < y.take n → (x.take n).length = (y.take n).length → x < y := by
    intro x y hLess hSame
    have hDiffers := (differsBelow_of_lt hLess hSame).append (x.drop n) (y.drop n)
    rw [List.take_append_drop, List.take_append_drop] at hDiffers
    exact hDiffers.lt
  obtain hLess | hEq | hLess := lt_trichotomy (a.take n) (b.take n)
  · have hAll := hSplit hLess hLength
    simp [hLess, hAll, not_lt_of_gt hAll, Value.threeWay]
  · rw [hEq, if_neg (lt_irrefl _), if_neg (lt_irrefl _)]
    obtain hShort | hSame | hLong := Nat.lt_trichotomy a.length b.length
    · have hPrefix : a <+: b := by
        have hTake : a.take n = a := List.take_of_length_le (by omega)
        rw [← hTake, hEq]
        exact List.take_prefix _ _
      have hAll := lt_of_prefix hPrefix (fun h => by rw [h] at hShort; exact lt_irrefl _ hShort)
      simp [hAll, not_lt_of_gt hAll, Value.threeWay, hShort, ne_of_lt hShort]
    · have hSelf : a = b := by
        rwa [List.take_of_length_le (by omega), List.take_of_length_le (by omega)] at hEq
      simp [hSelf, Value.threeWay]
    · have hPrefix : b <+: a := by
        have hTake : b.take n = b := List.take_of_length_le (by omega)
        rw [← hTake, ← hEq]
        exact List.take_prefix _ _
      have hAll := lt_of_prefix hPrefix (fun h => by rw [h] at hLong; exact lt_irrefl _ hLong)
      simp [hAll, not_lt_of_gt hAll, Value.threeWay, ne_of_gt hLong, not_lt_of_gt hLong]
  · have hAll := hSplit hLess hLength.symm
    simp [hLess, not_lt_of_gt hLess, hAll, not_lt_of_gt hAll, Value.threeWay]

/-! ## Words -/

theorem toNat_xor_signBit (v : UInt64) :
    (v ^^^ signBit).toNat = if v.toNat < 2 ^ 63 then v.toNat + 2 ^ 63 else v.toNat - 2 ^ 63 := by
  have hSign : signBit.toNat = 2 ^ 63 := rfl
  have hBound := v.toNat_lt
  have hDiv : (v.toNat ^^^ 2 ^ 63) / 2 ^ 63 = v.toNat / 2 ^ 63 ^^^ 1 := by
    rw [Nat.xor_div_two_pow, Nat.div_self (Nat.two_pow_pos 63)]
  have hMod : (v.toNat ^^^ 2 ^ 63) % 2 ^ 63 = v.toNat % 2 ^ 63 := by
    rw [Nat.xor_mod_two_pow, Nat.mod_self, Nat.xor_zero]
  rw [UInt64.toNat_xor, hSign]
  split
  · next hLow =>
    have hQuotient : v.toNat / 2 ^ 63 = 0 := Nat.div_eq_of_lt hLow
    rw [hQuotient, Nat.zero_xor] at hDiv
    omega
  · next hHigh =>
    have hQuotient : v.toNat / 2 ^ 63 = 1 := by omega
    rw [hQuotient, Nat.xor_self] at hDiv
    omega

theorem and_signBit_eq_zero (v : UInt64) : v &&& signBit = 0 ↔ v.toNat < 2 ^ 63 := by
  have hSign : signBit.toNat = 2 ^ 63 := rfl
  have hBound := v.toNat_lt
  rw [← UInt64.toNat_inj, UInt64.toNat_and, hSign, Nat.and_two_pow, Nat.testBit_eq_decide_div_mod_eq]
  have hZero : UInt64.toNat 0 = 0 := rfl
  rw [hZero]
  by_cases hLow : v.toNat < 2 ^ 63
  · rw [Nat.div_eq_of_lt hLow]
    simpa using hLow
  · have hQuotient : v.toNat / 2 ^ 63 = 1 := by omega
    rw [hQuotient]
    simpa using hLow

theorem byte_of_shift (v : UInt64) {shift : UInt64} (h : shift.toNat < 64) :
    ((v >>> shift) &&& 0xFF).toUInt8 = UInt8.ofNat (v.toNat / 2 ^ shift.toNat) := by
  have hMask : UInt64.toNat 0xFF = 2 ^ 8 - 1 := rfl
  have hByte : (UInt8.ofNat (v.toNat / 2 ^ shift.toNat)).toNat = v.toNat / 2 ^ shift.toNat % 2 ^ 8 := UInt8.toNat_ofNat'
  apply UInt8.toNat_inj.mp
  rw [hByte, UInt64.toNat_toUInt8, UInt64.toNat_and, hMask, Nat.and_two_pow_sub_one_eq_mod, Nat.mod_mod, UInt64.toNat_shiftRight,
    Nat.mod_eq_of_lt h, Nat.shiftRight_eq_div_pow]

theorem appendBigEndian_eq (out : Bytes) (v : UInt64) : appendBigEndian out v = out ++ BigEndian.digits 8 v.toNat := by
  rw [appendBigEndian]
  congr 1
  simp only [List.map_cons, List.map_nil]
  repeat rw [byte_of_shift v (by decide)]
  rfl

theorem toNat_readBigEndian {bytes : Bytes} (h : bytes.length ≤ 8) : (readBigEndian bytes).toNat = BigEndian.value bytes := by
  have hFold : ∀ (rest : Bytes) (acc : UInt64), acc.toNat * 256 ^ rest.length + BigEndian.value rest < 2 ^ 64 →
      (rest.foldl (fun (result : UInt64) (byte : UInt8) => (result <<< 8) ||| byte.toUInt64) acc).toNat =
        rest.foldl (fun (result : Nat) (byte : UInt8) => result <<< 8 ||| byte.toNat) acc.toNat := by
    intro rest
    induction rest with
    | nil => exact fun _ _ => rfl
    | cons b rest ih =>
      intro acc hBound
      rw [BigEndian.value, List.length_cons, pow_succ] at hBound
      have hPos : 0 < 256 ^ rest.length := Nat.pos_of_ne_zero (by positivity)
      have hSum : (acc.toNat * 256 + b.toNat) * 256 ^ rest.length ≤ acc.toNat * (256 ^ rest.length * 256) +
          b.toNat * 256 ^ rest.length := Nat.le_of_eq (by ring)
      have hSmall : acc.toNat * 256 + b.toNat < 2 ^ 64 := by
        have hLeft := Nat.le_mul_of_pos_right (acc.toNat * 256 + b.toNat) hPos
        omega
      have hEight : (UInt64.toNat 8) % 64 = 8 := rfl
      have hShift : (acc <<< 8).toNat = acc.toNat <<< 8 := by
        have hLow : acc.toNat * 2 ^ 8 ≤ acc.toNat * 256 + b.toNat := Nat.le_add_right _ _
        rw [UInt64.toNat_shiftLeft, hEight, Nat.shiftLeft_eq]
        exact Nat.mod_eq_of_lt (hLow.trans_lt hSmall)
      have hJoin : ((acc <<< 8) ||| b.toUInt64).toNat = acc.toNat <<< 8 ||| b.toNat := by
        rw [UInt64.toNat_or, hShift, UInt8.toNat_toUInt64]
      have hSame : acc.toNat <<< 8 ||| b.toNat = acc.toNat * 256 + b.toNat := by
        rw [← Nat.shiftLeft_add_eq_or_of_lt b.toNat_lt, Nat.shiftLeft_eq]
      rw [List.foldl_cons, List.foldl_cons, ih, hJoin]
      rw [hJoin, hSame]
      omega
  have hValue := BigEndian.value_lt bytes
  have hPow : (256 : Nat) ^ bytes.length ≤ 256 ^ 8 := Nat.pow_le_pow_right (by decide) h
  have hZero : (0 : UInt64).toNat = 0 := rfl
  rw [readBigEndian, hFold, BigEndian.foldl_shift_or, hZero, Nat.zero_mul, Nat.zero_add]
  rw [hZero, Nat.zero_mul, Nat.zero_add]
  omega

end TupleStone
