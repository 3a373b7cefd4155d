import TupleStone.Common.KeyOrder

/-! # Reading keys back

A payload of groups is accepted when every mark but the last announces more groups and the last one counts letters of
its own group. The reader does not look at the padding and takes a count of zero, which the writer never writes.
-/

set_option autoImplicit false

namespace TupleStone

open PaddedGroups

/-! ## Accepted payloads -/

/-- The payloads that the loop over the groups accepts, with the bytes it collects. -/
inductive Grouped : (payload contents : Bytes) → Prop
  | last (group : Bytes) (count : Nat) (hGroup : group.length = 8) (hCount : count ≤ 8) :
      Grouped (group ++ [UInt8.ofNat count]) (group.take count)
  | more (group : Bytes) (payload contents : Bytes) (hGroup : group.length = 8) (hRest : Grouped payload contents) :
      Grouped (group ++ 0xFF :: payload) (group ++ contents)

variable {group payload contents : Bytes} {mark : UInt8}

theorem toNat_count {count : Nat} (h : count ≤ 8) : (UInt8.ofNat count).toNat = count :=
  UInt8.toNat_ofNat_of_lt' (Nat.lt_of_le_of_lt h (by decide))

theorem Grouped.length (h : Grouped payload contents) : 9 ≤ payload.length := by
  cases h with
  | last group count hGroup hCount =>
    rw [List.length_append, hGroup, List.length_singleton]
  | more group payload contents hGroup hRest =>
    rw [List.length_append, hGroup, List.length_cons]
    omega

/-- What the mark behind the first group says about a payload. -/
theorem grouped_iff (hGroup : group.length = 8) : Grouped (group ++ mark :: payload) contents ↔
    (mark = 0xFF ∧ ∃ rest, Grouped payload rest ∧ contents = group ++ rest) ∨
      (mark.toNat ≤ 8 ∧ payload = [] ∧ contents = group.take mark.toNat) := by
  constructor
  · intro h
    generalize hAll : group ++ mark :: payload = all at h
    cases h with
    | last group' count hGroup' hCount =>
      obtain ⟨rfl, hRest⟩ := List.append_inj hAll (hGroup.trans hGroup'.symm)
      cases hRest
      rw [toNat_count hCount]
      exact Or.inr ⟨hCount, rfl, rfl⟩
    | more group' payload' rest hGroup' hRest' =>
      obtain ⟨rfl, hRest⟩ := List.append_inj hAll (hGroup.trans hGroup'.symm)
      cases hRest
      exact Or.inl ⟨rfl, rest, hRest', rfl⟩
  · rintro (⟨rfl, rest, hRest, rfl⟩ | ⟨hCount, rfl, rfl⟩)
    · exact Grouped.more group payload rest hGroup hRest
    · have hLast := Grouped.last group mark.toNat hGroup hCount
      rwa [UInt8.ofNat_toNat] at hLast

/-- The payload from a position on, when a whole group stands there. -/
theorem drop_group {pos : Nat} (h : pos + 9 ≤ payload.length) : ∃ group mark,
    payload.drop pos = group ++ mark :: payload.drop (pos + 9) ∧ group.length = 8 ∧ payload[pos + 8]? = some mark := by
  have hMark : pos + 8 < payload.length := by omega
  refine ⟨(payload.drop pos).take 8, payload[pos + 8], ?_, ?_, List.getElem?_eq_getElem hMark⟩
  · have hDrop : (payload.drop pos).drop 8 = payload[pos + 8] :: payload.drop (pos + 9) := by
      rw [List.drop_drop]
      exact List.drop_eq_getElem_cons hMark
    rw [← hDrop, List.take_append_drop]
  · rw [List.length_take, List.length_drop]
    omega

/-- The loop ends, reads within the payload only, and accepts exactly the grouped payloads. -/
theorem groupLoop_spec (payload bytes : Bytes) {fuel pos : Nat} (hPos : pos ≤ payload.length) (hFuel : payload.length < pos + fuel) :
    ∃ result, groupLoop payload fuel pos bytes = .done result ∧
      ∀ out, result = some out ↔ ∃ contents, Grouped (payload.drop pos) contents ∧ out = bytes ++ contents := by
  induction fuel generalizing pos bytes with
  | zero => omega
  | succ fuel ih =>
    rw [groupLoop]
    by_cases hRoom : pos + 9 ≤ payload.length
    · obtain ⟨group, mark, hDrop, hGroup, hMark⟩ := drop_group hRoom
      have hByte : byteAt payload (pos + 8) = .done mark := by rw [byteAt, hMark]
      have hRead : ∀ count, count ≤ 8 → substring payload pos count = .done (group.take count) := by
        intro count hCount
        rw [substring, if_pos hPos, hDrop, List.take_append_of_le_length (by omega)]
      have hWhole : substring payload pos 8 = .done group := by
        rw [hRead 8 (Nat.le_refl 8), List.take_of_length_le (Nat.le_of_eq hGroup)]
      rw [if_pos hRoom, hByte, Outcome.done_bind]
      by_cases hMore : 8 < mark
      · have hLarge : 8 < mark.toNat := UInt8.lt_iff_toNat_lt.mp hMore
        rw [if_pos hMore]
        by_cases hFull : mark = 0xFF
        · obtain ⟨result, hResult, hAccepts⟩ := ih (bytes ++ group) hRoom (by omega)
          rw [if_neg (not_not.mpr hFull), hWhole, Outcome.done_bind]
          refine ⟨result, hResult, ?_⟩
          intro out
          rw [hAccepts, hDrop]
          constructor
          · rintro ⟨rest, hRest, rfl⟩
            exact ⟨group ++ rest, (grouped_iff hGroup).mpr (Or.inl ⟨hFull, rest, hRest, rfl⟩), List.append_assoc _ _ _⟩
          · rintro ⟨contents, hContents, rfl⟩
            obtain ⟨-, rest, hRest, rfl⟩ | ⟨hCount, -⟩ := (grouped_iff hGroup).mp hContents
            · exact ⟨rest, hRest, (List.append_assoc _ _ _).symm⟩
            · omega
        · rw [if_pos hFull]
          refine ⟨none, rfl, ?_⟩
          intro out
          constructor
          · nofun
          · rintro ⟨contents, hContents, rfl⟩
            rw [hDrop] at hContents
            obtain ⟨hIs, -⟩ | ⟨hCount, -⟩ := (grouped_iff hGroup).mp hContents
            · exact absurd hIs hFull
            · omega
      · have hSmall : mark.toNat ≤ 8 := by
          have hNot := mt UInt8.lt_iff_toNat_lt.mpr hMore
          exact Nat.not_lt.mp hNot
        have hNotFull : mark ≠ 0xFF := by
          rintro rfl
          exact hMore (by decide)
        rw [if_neg hMore, hRead mark.toNat hSmall, Outcome.done_bind]
        by_cases hEnd : pos + 9 = payload.length
        · have hNil : payload.drop (pos + 9) = [] := List.drop_of_length_le (Nat.le_of_eq hEnd.symm)
          rw [if_neg (not_not.mpr hEnd)]
          refine ⟨_, rfl, ?_⟩
          intro out
          rw [hDrop, hNil, Option.some_inj]
          constructor
          · rintro rfl
            exact ⟨_, (grouped_iff hGroup).mpr (Or.inr ⟨hSmall, rfl, rfl⟩), rfl⟩
          · rintro ⟨contents, hContents, rfl⟩
            obtain ⟨hIs, -⟩ | ⟨-, -, rfl⟩ := (grouped_iff hGroup).mp hContents
            · exact absurd hIs hNotFull
            · rfl
        · rw [if_pos hEnd]
          refine ⟨none, rfl, ?_⟩
          intro out
          constructor
          · nofun
          · rintro ⟨contents, hContents, rfl⟩
            rw [hDrop] at hContents
            obtain ⟨hIs, -⟩ | ⟨-, hNil, -⟩ := (grouped_iff hGroup).mp hContents
            · exact absurd hIs hNotFull
            · have hLength := congrArg List.length hNil
              rw [List.length_drop, List.length_nil] at hLength
              omega
    · rw [if_neg hRoom]
      refine ⟨none, rfl, ?_⟩
      intro out
      constructor
      · nofun
      · rintro ⟨contents, hContents, rfl⟩
        have hLength := hContents.length
        rw [List.length_drop] at hLength
        omega

/-- The bytes that the loop collects from the beginning of a payload. -/
theorem groupLoop_eq_some (payload : Bytes) : ∃ result, groupLoop payload (payload.length + 1) 0 [] = .done result ∧
    ∀ out, result = some out ↔ Grouped payload out := by
  have hFuel : payload.length < 0 + (payload.length + 1) := by omega
  obtain ⟨result, hResult, hAccepts⟩ := groupLoop_spec payload [] (Nat.zero_le _) hFuel
  refine ⟨result, hResult, ?_⟩
  intro out
  rw [hAccepts, List.drop_zero]
  constructor
  · rintro ⟨contents, hContents, rfl⟩
    exact hContents
  · exact fun h => ⟨out, h, rfl⟩

/-! ## Payloads that are not written -/

/-- Accepted payloads whose last group counts no letter or is not filled with NUL bytes. -/
inductive LooseGroups : Bytes → Prop
  | last (group : Bytes) (count : Nat) (hGroup : group.length = 8) (hCount : count ≤ 8)
      (hLoose : count = 0 ∨ group.drop count ≠ List.replicate (8 - count) 0) : LooseGroups (group ++ [UInt8.ofNat count])
  | more (group : Bytes) (payload : Bytes) (hGroup : group.length = 8) (hRest : LooseGroups payload) :
      LooseGroups (group ++ 0xFF :: payload)

theorem looseGroups_iff (hGroup : group.length = 8) : LooseGroups (group ++ mark :: payload) ↔
    (mark = 0xFF ∧ LooseGroups payload) ∨
      (mark.toNat ≤ 8 ∧ payload = [] ∧ (mark = 0 ∨ group.drop mark.toNat ≠ List.replicate (8 - mark.toNat) 0)) := by
  constructor
  · intro h
    generalize hAll : group ++ mark :: payload = all at h
    cases h with
    | last group' count hGroup' hCount hLoose =>
      obtain ⟨rfl, hRest⟩ := List.append_inj hAll (hGroup.trans hGroup'.symm)
      cases hRest
      rw [toNat_count hCount]
      refine Or.inr ⟨hCount, rfl, hLoose.imp_left ?_⟩
      rintro rfl
      rfl
    | more group' payload' hGroup' hRest' =>
      obtain ⟨rfl, hRest⟩ := List.append_inj hAll (hGroup.trans hGroup'.symm)
      cases hRest
      exact Or.inl ⟨rfl, hRest'⟩
  · rintro (⟨rfl, hRest⟩ | ⟨hCount, rfl, hLoose⟩)
    · exact LooseGroups.more group payload hGroup hRest
    · have hLast := LooseGroups.last group mark.toNat hGroup hCount (hLoose.imp_left (fun h => by rw [h]; rfl))
      rwa [UInt8.ofNat_toNat] at hLast

theorem LooseGroups.grouped (h : LooseGroups payload) : ∃ contents, Grouped payload contents := by
  induction h with
  | last group count hGroup hCount hLoose => exact ⟨_, Grouped.last group count hGroup hCount⟩
  | more group payload hGroup hRest ih =>
    obtain ⟨rest, hRest⟩ := ih
    exact ⟨_, Grouped.more group payload rest hGroup hRest⟩

/-! ## Written payloads -/

theorem groups_of_last {count : Nat} (hGroup : group.length = 8) (hPos : 0 < count) (hCount : count ≤ 8) :
    escaped (group.take count) = group.take count ++ List.replicate (8 - count) 0 ++ [UInt8.ofNat count] := by
  have hLength : (group.take count).length = count := by
    rw [List.length_take]
    omega
  have hNe : group.take count ≠ [] := List.ne_nil_of_length_pos (by omega)
  rw [escaped_of_ne_nil hNe, Marks.groups_short _ (by omega), Marks.pad_eq, hLength,
    List.take_of_length_le (by omega : (group.take count).length ≤ 8)]
  rfl

theorem groups_of_more (hGroup : group.length = 8) {contents : Bytes} (hNe : contents ≠ []) :
    escaped (group ++ contents) = group ++ 0xFF :: escaped contents := by
  have hPos := List.length_pos_of_ne_nil hNe
  have hAll : group ++ contents ≠ [] := List.append_ne_nil_of_right_ne_nil _ hNe
  have hLong : 8 < (group ++ contents).length := by
    rw [List.length_append]
    omega
  rw [escaped_of_ne_nil hAll, escaped_of_ne_nil hNe, Marks.groups_long _ hLong, List.take_left' hGroup, List.drop_left' hGroup]
  rfl

/-- An accepted payload is the written one exactly when it is not loose. -/
theorem Grouped.escaped_eq_iff (h : Grouped payload contents) : escaped contents = payload ↔ ¬ LooseGroups payload := by
  induction h with
  | last group count hGroup hCount =>
    rw [looseGroups_iff hGroup, toNat_count hCount]
    obtain rfl | hPos := Nat.eq_zero_or_pos count
    · constructor
      · intro hEq
        have hLength := congrArg List.length hEq
        rw [List.length_append, hGroup] at hLength
        cases hLength
      · exact fun hTight => absurd (Or.inr ⟨Nat.zero_le 8, rfl, Or.inl rfl⟩) hTight
    · have hMark : UInt8.ofNat count ≠ 0xFF ∧ UInt8.ofNat count ≠ 0 := by
        constructor <;>
          (intro hEq
           have hNat := congrArg UInt8.toNat hEq
           rw [toNat_count hCount] at hNat
           simp at hNat
           omega)
      rw [groups_of_last hGroup hPos hCount]
      constructor
      · rintro hEq (⟨hFull, -⟩ | ⟨-, -, hZero | hPadding⟩)
        · exact hMark.1 hFull
        · exact hMark.2 hZero
        · apply hPadding
          have hBody := List.append_cancel_right hEq
          have hSplit := hBody.trans (List.take_append_drop count group).symm
          exact (List.append_cancel_left hSplit).symm
      · intro hTight
        have hPadding : group.drop count = List.replicate (8 - count) 0 := by
          by_contra hNot
          exact hTight (Or.inr ⟨hCount, rfl, Or.inr hNot⟩)
        rw [← hPadding, List.take_append_drop]
  | more group payload rest hGroup hRest ih =>
    rw [looseGroups_iff hGroup]
    have hMark : ¬ ((0xFF : UInt8).toNat ≤ 8) := by decide
    have hLoose : (((0xFF : UInt8) = 0xFF ∧ LooseGroups payload) ∨ ((0xFF : UInt8).toNat ≤ 8 ∧ payload = [] ∧
        ((0xFF : UInt8) = 0 ∨ group.drop (0xFF : UInt8).toNat ≠ List.replicate (8 - (0xFF : UInt8).toNat) 0))) ↔
        LooseGroups payload := by
      constructor
      · rintro (⟨-, h⟩ | ⟨h, -⟩)
        · exact h
        · exact absurd h hMark
      · exact fun h => Or.inl ⟨rfl, h⟩
    rw [hLoose, ← ih]
    have hLength := hRest.length
    cases rest with
    | nil =>
      have hShort : (escaped []).length = 1 := rfl
      have hGroupNe : group ≠ [] := List.ne_nil_of_length_pos (by omega)
      constructor
      · intro hEq
        have hSize := congrArg List.length hEq
        rw [List.append_nil, escaped_of_ne_nil hGroupNe, Marks.groups_short _ (Nat.le_of_eq hGroup), List.length_append,
          Marks.length_pad, List.length_append, List.length_cons, List.length_cons, List.length_nil] at hSize
        omega
      · intro hEq
        have hSize := congrArg List.length hEq
        omega
    | cons c rest =>
      rw [groups_of_more hGroup (List.cons_ne_nil c rest), List.append_cancel_left_eq, List.cons.injEq]
      simp

/-- The written form of a string that is not empty is accepted as that string. -/
theorem grouped_escaped {text : Bytes} (h : text ≠ []) : Grouped (escaped text) text := by
  induction hLength : text.length using Nat.strongRecOn generalizing text with
  | ind length ih =>
    rw [escaped_of_ne_nil h]
    obtain hShort | hLong := Nat.lt_or_ge 8 text.length |>.symm
    · have hLast := Grouped.last (byteMarks.pad 8 text) text.length (Marks.length_pad _ _ _) hShort
      have hContents : (byteMarks.pad 8 text).take text.length = text := by
        rw [Marks.pad_eq, List.take_of_length_le hShort, List.take_left' rfl]
      rw [hContents] at hLast
      rw [Marks.groups_short _ hShort]
      exact hLast
    · have hRest : text.drop 8 ≠ [] := fun hNil => by
        have hZero := congrArg List.length hNil
        rw [List.length_drop, List.length_nil] at hZero
        omega
      have hStep := ih (text.drop 8).length (hLength ▸ byteMarks.drop_shorter hLong) hRest rfl
      have hGroup : (text.take 8).length = 8 := by
        rw [List.length_take]
        omega
      have hMore := Grouped.more (text.take 8) _ _ hGroup hStep
      rw [List.take_append_drop, escaped_of_ne_nil hRest] at hMore
      rw [Marks.groups_long _ hLong]
      exact hMore

/-! ## Words -/

@[simp] theorem readBigEndian_digits (v : UInt64) : readBigEndian (BigEndian.digits 8 v.toNat) = v := by
  have hPow : (256 : Nat) ^ 8 = 2 ^ 64 := by decide
  apply UInt64.toNat_inj.mp
  rw [toNat_readBigEndian (by simp), BigEndian.value_digits, hPow, Nat.mod_eq_of_lt v.toNat_lt]

theorem digits_readBigEndian (h : payload.length = 8) : BigEndian.digits 8 (readBigEndian payload).toNat = payload := by
  rw [toNat_readBigEndian (Nat.le_of_eq h), ← h, BigEndian.digits_value]

@[simp] theorem xor_signBit_twice (v : UInt64) : v ^^^ signBit ^^^ signBit = v := by
  rw [UInt64.xor_assoc, UInt64.xor_self, UInt64.xor_zero]

/-- The bits that are read for a REAL. -/
def realOfKey (bits : UInt64) : UInt64 := if bits &&& signBit ≠ 0 then bits ^^^ signBit else ~~~bits

theorem toNat_realKey (x : Binary64) :
    (Value.realKey x).toNat = if x.bits.toNat < 2 ^ 63 then x.bits.toNat + 2 ^ 63 else 2 ^ 64 - 1 - x.bits.toNat := by
  rw [Value.realKey]
  by_cases hLow : x.bits.toNat < 2 ^ 63
  · rw [if_neg (not_not.mpr ((and_signBit_eq_zero _).mpr hLow)), toNat_xor_signBit, if_pos hLow, if_pos hLow]
  · rw [if_pos (mt (and_signBit_eq_zero _).mp hLow), UInt64.toNat_not, if_neg hLow]
    rfl

theorem toNat_realOfKey (bits : UInt64) :
    (realOfKey bits).toNat = if bits.toNat < 2 ^ 63 then 2 ^ 64 - 1 - bits.toNat else bits.toNat - 2 ^ 63 := by
  rw [realOfKey]
  by_cases hLow : bits.toNat < 2 ^ 63
  · rw [if_neg (not_not.mpr ((and_signBit_eq_zero _).mpr hLow)), UInt64.toNat_not, if_pos hLow]
    rfl
  · rw [if_pos (mt (and_signBit_eq_zero _).mp hLow), toNat_xor_signBit, if_neg hLow, if_neg hLow]

theorem realOfKey_realKey (x : Binary64) : realOfKey (Value.realKey x) = x.bits := by
  have hBound := x.bits.toNat_lt
  apply UInt64.toNat_inj.mp
  rw [toNat_realOfKey, toNat_realKey]
  split <;> split <;> omega

theorem realKey_realOfKey (bits : UInt64) : Value.realKey ⟨realOfKey bits⟩ = bits := by
  have hBound := bits.toNat_lt
  apply UInt64.toNat_inj.mp
  rw [toNat_realKey, toNat_realOfKey]
  split <;> split <;> omega

/-! ## The decoder on each kind of key -/

namespace Value

@[simp] theorem decodeKey_nil : decodeKey [] = .done none := rfl

@[simp] theorem decodeKey_zero (rest : Bytes) : decodeKey (0 :: rest) = .done (some null) := rfl

theorem decodeKey_marker {c : UInt8} (hZero : c ≠ 0) (hOne : c ≠ 1) (rest : Bytes) : decodeKey (c :: rest) = .done none := by
  have hByte : byteAt (c :: rest) 0 = .done c := rfl
  rw [decodeKey, if_neg (by simp), hByte, Outcome.done_bind, if_neg hZero, if_pos (Or.inl hOne)]
  rfl

theorem decodeKey_tagged (tag : UInt8) (h : payload ≠ []) :
    decodeKey (1 :: tag :: payload) = decodePayload (TypeId.ofByte? tag) payload := by
  have hPos := List.length_pos_of_ne_nil h
  have hMarker : byteAt (1 :: tag :: payload) 0 = .done 1 := rfl
  have hTag : byteAt (1 :: tag :: payload) 1 = .done tag := rfl
  have hLong : ¬ ((1 : UInt8) ≠ 1 ∨ (1 :: tag :: payload).length < 3) := by
    rintro (hOne | hShort)
    · exact hOne rfl
    · rw [List.length_cons, List.length_cons] at hShort
      omega
  have hPayload : substring (1 :: tag :: payload) 2 ((1 :: tag :: payload).length - 2) = .done payload := by
    rw [substring, if_pos (by rw [List.length_cons, List.length_cons]; omega)]
    simp
  rw [decodeKey, if_neg (by simp), hMarker, Outcome.done_bind, if_neg (by decide), if_neg hLong, hTag, Outcome.done_bind,
    hPayload, Outcome.done_bind]

theorem decodePayload_integer (h : payload.length = 8) :
    decodePayload (some .kInteger) payload = .done (some (integer (readBigEndian payload ^^^ signBit).toInt64)) := by
  rw [decodePayload, if_neg (not_not.mpr h)]
  rfl

theorem decodePayload_real (h : payload.length = 8) :
    decodePayload (some .kReal) payload = .done (some (real ⟨realOfKey (readBigEndian payload)⟩)) := by
  rw [decodePayload, if_neg (not_not.mpr h)]
  rfl

/-- Text and blob payloads are decoded by the loop over the groups. -/
theorem decodePayload_grouped {type : TypeId} {make : Bytes → Value}
    (h : type = .kText ∧ make = text ∨ type = .kBlob ∧ make = blob) (payload : Bytes) :
    ∃ result, decodePayload (some type) payload = .done (result.map make) ∧ ∀ out, result = some out ↔ Grouped payload out := by
  obtain ⟨result, hResult, hAccepts⟩ := groupLoop_eq_some payload
  refine ⟨result, ?_, hAccepts⟩
  obtain ⟨rfl, rfl⟩ | ⟨rfl, rfl⟩ := h <;>
    (rw [decodePayload, hResult]
     rfl)

/-! ## From the value and back -/

theorem decodeKey_integer (n : Int64) : decodeKey (encodeKey (integer n) false) = .done (some (integer n)) := by
  have hType : TypeId.ofByte? 2 = some .kInteger := rfl
  have hNe : BigEndian.digits 8 (n.toUInt64 ^^^ signBit).toNat ≠ [] := List.ne_nil_of_length_pos (by simp)
  rw [encodeKey_integer, List.cons_append, List.cons_append, List.nil_append, decodeKey_tagged 2 hNe, hType,
    decodePayload_integer (by simp), readBigEndian_digits, xor_signBit_twice]
  rfl

theorem decodeKey_real (x : Binary64) : decodeKey (encodeKey (real x) false) = .done (some (real x)) := by
  have hType : TypeId.ofByte? 3 = some .kReal := rfl
  have hNe : BigEndian.digits 8 (realKey x).toNat ≠ [] := List.ne_nil_of_length_pos (by simp)
  rw [encodeKey_real, List.cons_append, List.cons_append, List.nil_append, decodeKey_tagged 3 hNe, hType,
    decodePayload_real (by simp), readBigEndian_digits, realOfKey_realKey]

theorem decodeKey_escaped {type : TypeId} {make : Bytes → Value} (h : type = .kText ∧ make = text ∨ type = .kBlob ∧ make = blob)
    (hKey : ∀ s, encodeKey (make s) false = [1, type.toByte] ++ escaped s) (hType : TypeId.ofByte? type.toByte = some type)
    (s : Bytes) : decodeKey (encodeKey (make s) false) = .done (some (make s)) ↔ s ≠ [] := by
  have hNe : escaped s ≠ [] := by
    cases s with
    | nil => exact List.cons_ne_nil 0 []
    | cons c s =>
      have hLength := (grouped_escaped (List.cons_ne_nil c s)).length
      exact List.ne_nil_of_length_pos (by omega)
  obtain ⟨result, hResult, hAccepts⟩ := decodePayload_grouped h (escaped s)
  rw [hKey, List.cons_append, List.cons_append, List.nil_append, decodeKey_tagged _ hNe, hType, hResult]
  constructor
  · rintro hDecoded rfl
    have hSome : result.map make = some (make []) := Outcome.done.inj hDecoded
    obtain ⟨out, hOut, -⟩ := Option.map_eq_some_iff.mp hSome
    have hLength := ((hAccepts out).mp hOut).length
    change 9 ≤ 1 at hLength
    omega
  · intro hs
    rw [(hAccepts s).mpr (grouped_escaped hs)]
    rfl

/-- A value comes back from its ascending key unless it is an empty TEXT or BLOB. -/
theorem key_round_trip_iff (v : Value) : decodeKey (encodeKey v false) = .done (some v) ↔ v ≠ text [] ∧ v ≠ blob [] := by
  cases v with
  | null => simp
  | boolean b =>
    have hBoolean : ∀ b, decodeKey (encodeKey (boolean b) false) = .done (some (boolean b)) := by decide
    simp only [hBoolean, true_iff]
    exact ⟨nofun, nofun⟩
  | integer n =>
    simp only [decodeKey_integer, true_iff]
    exact ⟨nofun, nofun⟩
  | real x =>
    simp only [decodeKey_real, true_iff]
    exact ⟨nofun, nofun⟩
  | text s =>
    rw [decodeKey_escaped (Or.inl ⟨rfl, rfl⟩) encodeKey_text rfl]
    simp
  | blob b =>
    rw [decodeKey_escaped (Or.inr ⟨rfl, rfl⟩) encodeKey_blob rfl]
    simp

/-- The key of the empty string is rejected. -/
theorem empty_text_key_rejected : ¬ ∀ v, decodeKey (encodeKey v false) = .done (some v) := by
  intro h
  have hEmpty : decodeKey (encodeKey (text []) false) = .done none := by decide +kernel
  cases hEmpty.symm.trans (h (text []))

/-! ## From the bytes and back -/

/-- The decoder ends without reading outside the bytes, and what it accepts is the key of the value it returns. -/
structure FailClosed (encoded : Bytes) : Prop where
  inBounds : ∃ result, decodeKey encoded = .done result
  canonical : ∀ v, decodeKey encoded = .done (some v) → encodeKey v false = encoded

/-- Bytes that are accepted although no value is written so: something behind a NULL marker, or groups whose last one
counts no letter or is not filled with NUL bytes. -/
inductive LooseKey : Bytes → Prop
  | null (rest : Bytes) (hRest : rest ≠ []) : LooseKey (0 :: rest)
  | grouped (tag : UInt8) (payload : Bytes) (hTag : tag = 4 ∨ tag = 5) (hPayload : LooseGroups payload) :
      LooseKey (1 :: tag :: payload)

theorem looseKey_tagged_iff {tag : UInt8} : LooseKey (1 :: tag :: payload) ↔ (tag = 4 ∨ tag = 5) ∧ LooseGroups payload := by
  constructor
  · intro h
    cases h with
    | grouped tag payload hTag hPayload => exact ⟨hTag, hPayload⟩
  · rintro ⟨hTag, hPayload⟩
    exact LooseKey.grouped tag payload hTag hPayload

theorem not_looseKey_of_marker {c : UInt8} (hZero : c ≠ 0) (hOne : c ≠ 1) (rest : Bytes) : ¬ LooseKey (c :: rest) := by
  intro h
  cases h with
  | null rest hRest => exact hZero rfl
  | grouped tag payload hTag hPayload => exact hOne rfl

theorem failClosed_of_rejected {encoded : Bytes} (h : decodeKey encoded = .done none) : FailClosed encoded := by
  constructor
  · exact ⟨none, h⟩
  · intro v hv
    cases h.symm.trans hv

theorem failClosed_iff_of_accepted {encoded : Bytes} {v : Value} (h : decodeKey encoded = .done (some v)) :
    FailClosed encoded ↔ encodeKey v false = encoded := by
  constructor
  · exact fun hClosed => hClosed.canonical v h
  · intro hEncoded
    constructor
    · exact ⟨_, h⟩
    · intro w hw
      cases h.symm.trans hw
      exact hEncoded

theorem ofByte?_cases (tag : UInt8) : (tag = 1 ∧ TypeId.ofByte? tag = some .kBoolean) ∨
    (tag = 2 ∧ TypeId.ofByte? tag = some .kInteger) ∨ (tag = 3 ∧ TypeId.ofByte? tag = some .kReal) ∨
    (tag = 4 ∧ TypeId.ofByte? tag = some .kText) ∨ (tag = 5 ∧ TypeId.ofByte? tag = some .kBlob) ∨
    ((tag ≠ 4 ∧ tag ≠ 5) ∧ (TypeId.ofByte? tag = none ∨ TypeId.ofByte? tag = some .kNull)) := by
  have hAll : ∀ c : UInt8, (c = 1 ∧ TypeId.ofByte? c = some .kBoolean) ∨
      (c = 2 ∧ TypeId.ofByte? c = some .kInteger) ∨ (c = 3 ∧ TypeId.ofByte? c = some .kReal) ∨
      (c = 4 ∧ TypeId.ofByte? c = some .kText) ∨ (c = 5 ∧ TypeId.ofByte? c = some .kBlob) ∨
      ((c ≠ 4 ∧ c ≠ 5) ∧ (TypeId.ofByte? c = none ∨ TypeId.ofByte? c = some .kNull)) := forall_byte (by decide +kernel)
  exact hAll tag

theorem failClosed_boolean (hNe : payload ≠ []) : FailClosed (1 :: 1 :: payload) := by
  have hType : TypeId.ofByte? 1 = some .kBoolean := rfl
  have hDecode := decodeKey_tagged 1 hNe
  rw [hType, decodePayload] at hDecode
  match payload with
  | [] => exact absurd rfl hNe
  | [byte] =>
    have hByte : byteAt [byte] 0 = .done byte := rfl
    rw [if_pos (List.length_singleton), hByte, Outcome.done_bind] at hDecode
    split at hDecode
    · next hBit =>
      rw [failClosed_iff_of_accepted hDecode]
      obtain rfl | rfl := hBit <;> rfl
    · exact failClosed_of_rejected hDecode
  | _ :: _ :: _ =>
    rw [if_neg (by simp)] at hDecode
    exact failClosed_of_rejected hDecode

theorem failClosed_integer (hNe : payload ≠ []) : FailClosed (1 :: 2 :: payload) := by
  have hType : TypeId.ofByte? 2 = some .kInteger := rfl
  have hDecode := decodeKey_tagged 2 hNe
  rw [hType] at hDecode
  by_cases hLength : payload.length = 8
  · rw [decodePayload_integer hLength] at hDecode
    have hWord : (readBigEndian payload ^^^ signBit).toInt64.toUInt64 = readBigEndian payload ^^^ signBit := rfl
    rw [failClosed_iff_of_accepted hDecode, encodeKey_integer, hWord, xor_signBit_twice, digits_readBigEndian hLength]
    rfl
  · rw [decodePayload, if_pos hLength] at hDecode
    exact failClosed_of_rejected hDecode

theorem failClosed_real (hNe : payload ≠ []) : FailClosed (1 :: 3 :: payload) := by
  have hType : TypeId.ofByte? 3 = some .kReal := rfl
  have hDecode := decodeKey_tagged 3 hNe
  rw [hType] at hDecode
  by_cases hLength : payload.length = 8
  · rw [decodePayload_real hLength] at hDecode
    rw [failClosed_iff_of_accepted hDecode, encodeKey_real, realKey_realOfKey, digits_readBigEndian hLength]
    rfl
  · rw [decodePayload, if_pos hLength] at hDecode
    exact failClosed_of_rejected hDecode

theorem failClosed_grouped_iff {type : TypeId} {make : Bytes → Value}
    (h : type = .kText ∧ make = text ∨ type = .kBlob ∧ make = blob)
    (hKey : ∀ s, encodeKey (make s) false = [1, type.toByte] ++ escaped s) (hType : TypeId.ofByte? type.toByte = some type)
    (hNe : payload ≠ []) : FailClosed (1 :: type.toByte :: payload) ↔ ¬ LooseGroups payload := by
  obtain ⟨result, hResult, hAccepts⟩ := decodePayload_grouped h payload
  have hDecode := decodeKey_tagged type.toByte hNe
  rw [hType, hResult] at hDecode
  cases result with
  | none =>
    constructor
    · intro _ hLoose
      obtain ⟨contents, hContents⟩ := hLoose.grouped
      cases (hAccepts contents).mpr hContents
    · exact fun _ => failClosed_of_rejected hDecode
  | some contents =>
    have hGrouped := (hAccepts contents).mp rfl
    rw [failClosed_iff_of_accepted hDecode, hKey, ← hGrouped.escaped_eq_iff, List.cons_append, List.cons_append, List.nil_append,
      List.cons.injEq, List.cons.injEq]
    simp

/-- The decoder is fail-closed on exactly the byte strings that are not loose keys. -/
theorem decodeKey_failClosed_iff (encoded : Bytes) : FailClosed encoded ↔ ¬ LooseKey encoded := by
  match encoded with
  | [] =>
    constructor
    · intro _ hLoose
      cases hLoose
    · exact fun _ => failClosed_of_rejected decodeKey_nil
  | c :: rest =>
    by_cases hZero : c = 0
    · subst hZero
      rw [failClosed_iff_of_accepted (decodeKey_zero rest), encodeKey_null, List.cons.injEq]
      constructor
      · rintro ⟨-, rfl⟩ hLoose
        cases hLoose with
        | null rest hRest => exact hRest rfl
      · intro hTight
        refine ⟨rfl, ?_⟩
        by_contra hRest
        exact hTight (LooseKey.null rest (Ne.symm hRest))
    by_cases hOne : c = 1
    · subst hOne
      match rest with
      | [] =>
        constructor
        · intro _ hLoose
          cases hLoose
        · exact fun _ => failClosed_of_rejected rfl
      | [tag] =>
        rw [looseKey_tagged_iff]
        constructor
        · rintro - ⟨-, hLoose⟩
          obtain ⟨contents, hContents⟩ := hLoose.grouped
          exact absurd hContents.length (by decide)
        · exact fun _ => failClosed_of_rejected rfl
      | tag :: byte :: more =>
        have hNe : byte :: more ≠ [] := List.cons_ne_nil byte more
        generalize byte :: more = payload at hNe
        rw [looseKey_tagged_iff]
        obtain ⟨rfl, -⟩ | ⟨rfl, -⟩ | ⟨rfl, -⟩ | ⟨rfl, hType⟩ | ⟨rfl, hType⟩ | ⟨⟨hText, hBlob⟩, hType⟩ := ofByte?_cases tag
        · exact ⟨fun _ hLoose => absurd hLoose.1 (by decide), fun _ => failClosed_boolean hNe⟩
        · exact ⟨fun _ hLoose => absurd hLoose.1 (by decide), fun _ => failClosed_integer hNe⟩
        · exact ⟨fun _ hLoose => absurd hLoose.1 (by decide), fun _ => failClosed_real hNe⟩
        · have hGrouped : FailClosed (1 :: 4 :: payload) ↔ ¬ LooseGroups payload :=
            failClosed_grouped_iff (Or.inl ⟨rfl, rfl⟩) encodeKey_text hType hNe
          simpa using hGrouped
        · have hGrouped : FailClosed (1 :: 5 :: payload) ↔ ¬ LooseGroups payload :=
            failClosed_grouped_iff (Or.inr ⟨rfl, rfl⟩) encodeKey_blob hType hNe
          simpa using hGrouped
        · have hDecode := decodeKey_tagged tag hNe
          constructor
          · rintro - ⟨hTag, -⟩
            exact hTag.elim hText hBlob
          · intro _
            apply failClosed_of_rejected
            obtain hNone | hNull := hType
            · rw [hDecode, hNone]
              rfl
            · rw [hDecode, hNull]
              rfl
    · constructor
      · exact fun _ => not_looseKey_of_marker hZero hOne rest
      · exact fun _ => failClosed_of_rejected (decodeKey_marker hZero hOne rest)

/-- A byte behind the NULL marker is ignored. -/
theorem null_key_with_rest_accepted : ¬ ∀ encoded, FailClosed encoded := by
  intro h
  have hEncoded := (h [0, 7]).canonical null rfl
  cases hEncoded

end Value

end TupleStone
