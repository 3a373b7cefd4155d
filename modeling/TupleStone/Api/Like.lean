import TupleStone.Api.IntegerArithmetic
import TupleStone.Lib.Wildcard

/-! # LIKE

The loop is the search for a pattern with the wildcards `_` and `%`. It compares bytes before it looks for a wildcard.
-/

set_option autoImplicit false

namespace TupleStone

/-- `%` stands for any byte sequence, `_` for any byte, and every other byte for itself. -/
def LikeMatches (pattern value : Bytes) : Prop := Wildcard.Matches 95 37 pattern value

/-- `LikeMatches`, but a `%` in front of a `%` of the value stands for that byte. -/
def LikeLiterally (pattern value : Bytes) : Prop := Wildcard.LiteralFirst 95 37 pattern value

namespace Eval

/-- A turn of the loop, or the pattern index the loop ends with. -/
def likeTurn (value pattern : Bytes) (s : LikeState) : LikeState ⊕ Option Nat :=
  match value[s.valueIndex]? with
  | none => .inr (some s.patternIndex)
  | some c =>
    if pattern[s.patternIndex]? = some 95 ∨ pattern[s.patternIndex]? = some c then
      .inl { s with patternIndex := s.patternIndex + 1, valueIndex := s.valueIndex + 1 }
    else if pattern[s.patternIndex]? = some 37 then
      .inl { s with wildcard := some s.patternIndex, patternIndex := s.patternIndex + 1, wildcardValue := s.valueIndex }
    else
      match s.wildcard with
      | some wildcard => .inl ⟨s.wildcardValue + 1, wildcard + 1, some wildcard, s.wildcardValue + 1⟩
      | none => .inr none

/-- The states of the loop. -/
inductive LikeReaches (value pattern : Bytes) : LikeState → Prop where
  | start : LikeReaches value pattern ⟨0, 0, none, 0⟩
  | turn {s s' : LikeState} (h : LikeReaches value pattern s) (hTurn : likeTurn value pattern s = .inl s') :
      LikeReaches value pattern s'

/-- The indices are within their strings, and the last wildcard is a place of the pattern. -/
structure LikeInside (value pattern : Bytes) (s : LikeState) : Prop where
  valueIndex : s.valueIndex ≤ value.length
  patternIndex : s.patternIndex ≤ pattern.length
  wildcard : ∀ w, s.wildcard = some w → w < pattern.length ∧ s.wildcardValue ≤ s.valueIndex

variable {value pattern : Bytes} {s s' : LikeState}

theorem likeLoop_succ (fuel : Nat) (s : LikeState) : likeLoop value pattern (fuel + 1) s =
    match likeTurn value pattern s with
    | .inl s' => likeLoop value pattern fuel s'
    | .inr index => .done index := by
  rw [likeLoop, likeTurn]
  cases value[s.valueIndex]? with
  | none => rfl
  | some c =>
    dsimp only
    split
    · rfl
    split
    · rfl
    cases s.wildcard <;> rfl

/-- The turns that go on. -/
theorem likeTurn_cases (h : likeTurn value pattern s = .inl s') : s.valueIndex < value.length ∧
    (s.patternIndex < pattern.length ∧
        s' = { s with patternIndex := s.patternIndex + 1, valueIndex := s.valueIndex + 1 } ∨
      s.patternIndex < pattern.length ∧ s' = { s with wildcard := some s.patternIndex, patternIndex := s.patternIndex + 1,
                                                      wildcardValue := s.valueIndex } ∨
      ∃ w, s.wildcard = some w ∧ s' = ⟨s.wildcardValue + 1, w + 1, some w, s.wildcardValue + 1⟩) := by
  rw [likeTurn] at h
  cases hValue : value[s.valueIndex]? with
  | none =>
    rw [hValue] at h
    cases h
  | some c =>
    have hLess := (List.getElem?_eq_some_iff.mp hValue).1
    have hPattern : ∀ d, pattern[s.patternIndex]? = some d → s.patternIndex < pattern.length :=
      fun d hd => (List.getElem?_eq_some_iff.mp hd).1
    rw [hValue] at h
    dsimp only at h
    split at h
    · next hFits =>
      cases h
      exact ⟨hLess, Or.inl ⟨hFits.elim (hPattern _) (hPattern _), rfl⟩⟩
    split at h
    · next hMany =>
      cases h
      exact ⟨hLess, Or.inr (Or.inl ⟨hPattern _ hMany, rfl⟩)⟩
    cases hWildcard : s.wildcard with
    | none =>
      rw [hWildcard] at h
      cases h
    | some w =>
      rw [hWildcard] at h
      cases h
      exact ⟨hLess, Or.inr (Or.inr ⟨w, rfl, rfl⟩)⟩

theorem LikeInside.turn (h : LikeInside value pattern s) (hTurn : likeTurn value pattern s = .inl s') :
    LikeInside value pattern s' := by
  obtain ⟨hValue, ⟨hPattern, rfl⟩ | ⟨hPattern, rfl⟩ | ⟨w, hWildcard, rfl⟩⟩ := likeTurn_cases hTurn
  · refine ⟨hValue, hPattern, fun w hw => ?_⟩
    exact ⟨(h.wildcard w hw).1, Nat.le_succ_of_le (h.wildcard w hw).2⟩
  · refine ⟨h.valueIndex, hPattern, ?_⟩
    rintro _ ⟨⟩
    exact ⟨hPattern, Nat.le_refl _⟩
  · have hInside := h.wildcard w hWildcard
    refine ⟨by dsimp only; omega, hInside.1, ?_⟩
    rintro _ ⟨⟩
    exact ⟨hInside.1, Nat.le_refl _⟩

theorem LikeReaches.inside (h : LikeReaches value pattern s) : LikeInside value pattern s := by
  induction h with
  | start => exact ⟨Nat.zero_le _, Nat.zero_le _, nofun⟩
  | turn _ hTurn ih => exact ih.turn hTurn

/-! ## Termination -/

/-- How often the loop can still go back to a wildcard. -/
def LikeState.retries (value : Bytes) (s : LikeState) : Nat :=
  match s.wildcard with
  | none => value.length + 1
  | some _ => value.length - s.wildcardValue

/-- The retries come first: going back moves both indices back. -/
def LikeState.measure (value pattern : Bytes) (s : LikeState) : Nat :=
  s.retries value * (value.length + pattern.length + 1) +
    ((value.length - s.valueIndex) + (pattern.length - s.patternIndex))

theorem LikeInside.measure_turn (h : LikeInside value pattern s) (hTurn : likeTurn value pattern s = .inl s') :
    s'.measure value pattern < s.measure value pattern := by
  obtain ⟨hValue, ⟨hPattern, rfl⟩ | ⟨hPattern, rfl⟩ | ⟨w, hWildcard, rfl⟩⟩ := likeTurn_cases hTurn
  · simp only [LikeState.measure, LikeState.retries]
    omega
  · have hRetries : value.length - s.valueIndex ≤ s.retries value := by
      rw [LikeState.retries]
      cases hWildcard : s.wildcard with
      | none => dsimp only; omega
      | some w =>
        have hLe := (h.wildcard w hWildcard).2
        dsimp only
        omega
    have hMul := Nat.mul_le_mul_right (value.length + pattern.length + 1) hRetries
    simp only [LikeState.measure, LikeState.retries] at hMul ⊢
    omega
  · have hLe := (h.wildcard w hWildcard).2
    have hRetries : s.retries value = (value.length - (s.wildcardValue + 1)) + 1 := by
      rw [LikeState.retries, hWildcard]
      dsimp only
      omega
    simp only [LikeState.measure, hRetries, Nat.add_one_mul]
    simp only [LikeState.retries]
    omega

theorem likeLoop_done {fuel : Nat} (h : LikeInside value pattern s) (hFuel : s.measure value pattern < fuel) :
    ∃ index, likeLoop value pattern fuel s = .done index := by
  induction fuel generalizing s with
  | zero => omega
  | succ fuel ih =>
    rw [likeLoop_succ]
    cases hTurn : likeTurn value pattern s with
    | inr index => exact ⟨index, rfl⟩
    | inl s' =>
      have hLess := h.measure_turn hTurn
      exact ih (h.turn hTurn) (by omega)

theorem measure_start (value pattern : Bytes) :
    LikeState.measure value pattern ⟨0, 0, none, 0⟩ < likeBound value pattern := by
  have hBound : likeBound value pattern =
      (value.length + 2) * (value.length + pattern.length + 1) + (value.length + 2) := by
    rw [likeBound, ← Nat.mul_add_one]
  have hSplit : (value.length + 2) * (value.length + pattern.length + 1) =
      (value.length + 1) * (value.length + pattern.length + 1) + (value.length + pattern.length + 1) := Nat.add_one_mul _ _
  rw [hBound, hSplit, LikeState.measure, LikeState.retries]
  dsimp only
  omega

/-! ## What the loop finds -/

/-- The state as a search in what is left of the strings. -/
def LikeState.search (value pattern : Bytes) (s : LikeState) : Wildcard.Search UInt8 where
  pattern := pattern.drop s.patternIndex
  word := value.drop s.valueIndex
  retry := s.wildcard.map (fun w => (pattern.drop (w + 1), value.drop (s.wildcardValue + 1)))

/-- The answer of `like` at the end of the loop. -/
def likeAnswer (pattern : Bytes) : Option Nat → Bool
  | none => false
  | some index => (pattern.drop index).all (· == 37)

theorem search_back (value pattern : Bytes) (s : LikeState) : (s.search value pattern).back =
    match s.wildcard with
    | some w => .inl (LikeState.search value pattern ⟨s.wildcardValue + 1, w + 1, some w, s.wildcardValue + 1⟩)
    | none => .inr false := by
  cases hWildcard : s.wildcard with
  | none => simp only [Wildcard.Search.back, LikeState.search, hWildcard, Option.map_none]
  | some w => simp only [Wildcard.Search.back, LikeState.search, hWildcard, Option.map_some, List.tail_drop]

theorem search_turn (s : LikeState) : (s.search value pattern).turn 95 37 =
    match likeTurn value pattern s with
    | .inl s' => .inl (s'.search value pattern)
    | .inr index => .inr (likeAnswer pattern index) := by
  have hDrop : ∀ {text : Bytes} {i : Nat} {c : UInt8}, text[i]? = some c → text.drop i = c :: text.drop (i + 1) := by
    intro text i c h
    obtain ⟨hLess, rfl⟩ := List.getElem?_eq_some_iff.mp h
    exact List.drop_eq_getElem_cons hLess
  have hBack := search_back value pattern s
  rw [likeTurn]
  cases hValue : value[s.valueIndex]? with
  | none =>
    have hWord : value.drop s.valueIndex = [] := List.drop_eq_nil_of_le (List.getElem?_eq_none_iff.mp hValue)
    simp only [Wildcard.Search.turn, LikeState.search, hWord, likeAnswer, Bool.beq_eq_decide_eq]
  | some c =>
    cases hPattern : pattern[s.patternIndex]? with
    | none =>
      have hRest : pattern.drop s.patternIndex = [] := List.drop_eq_nil_of_le (List.getElem?_eq_none_iff.mp hPattern)
      have hSearch : s.search value pattern = ⟨[], c :: value.drop (s.valueIndex + 1), (s.search value pattern).retry⟩ := by
        rw [LikeState.search, hRest, hDrop hValue]
      rw [hSearch] at hBack ⊢
      refine hBack.trans ?_
      cases s.wildcard <;> rfl
    | some p =>
      have hSearch : s.search value pattern =
          ⟨p :: pattern.drop (s.patternIndex + 1), c :: value.drop (s.valueIndex + 1), (s.search value pattern).retry⟩ := by
        rw [LikeState.search, hDrop hPattern, hDrop hValue]
      rw [hSearch] at hBack ⊢
      change (if Wildcard.Fits 95 p c then _ else if p = 37 then _ else Wildcard.Search.back _) = _
      simp only [Option.some.injEq, ← Wildcard.Fits.eq_def]
      by_cases hFits : Wildcard.Fits 95 p c
      · rw [if_pos hFits, if_pos hFits]
        rfl
      rw [if_neg hFits, if_neg hFits]
      by_cases hMany : p = 37
      · rw [if_pos hMany, if_pos hMany]
        simp only [LikeState.search, Option.map_some, hDrop hValue]
      rw [if_neg hMany, if_neg hMany, hBack]
      cases s.wildcard <;> rfl

/-- The loop ends with the answer to whether the search accepts. -/
theorem likeLoop_accepts {fuel : Nat} {index : Option Nat} (hAligned : (s.search value pattern).Aligned 95)
    (h : likeLoop value pattern fuel s = .done index) :
    likeAnswer pattern index = true ↔ (s.search value pattern).Accepts 95 37 := by
  induction fuel generalizing s with
  | zero => cases h
  | succ fuel ih =>
    have hPreserved : Wildcard.Search.Preserved 95 37 (s.search value pattern) ((s.search value pattern).turn 95 37) :=
      Wildcard.Search.preserved_turn (by decide) hAligned
    rw [likeLoop_succ] at h
    rw [search_turn] at hPreserved
    cases hTurn : likeTurn value pattern s with
    | inr index' =>
      rw [hTurn] at h hPreserved
      cases h
      exact hPreserved
    | inl s' =>
      rw [hTurn] at h hPreserved
      exact (ih hPreserved.1 h).trans hPreserved.2

/-- The loop returns, and finds the matches in which a `%` that meets a `%` of the value is that byte. -/
theorem like_literally (value pattern : Bytes) :
    ∃ matched, like value pattern = .done matched ∧ (matched = true ↔ LikeLiterally pattern value) := by
  obtain ⟨index, hDone⟩ := likeLoop_done LikeReaches.start.inside (measure_start value pattern)
  have hAccepts := likeLoop_accepts (fun _ _ h => by cases h) hDone
  refine ⟨likeAnswer pattern index, ?_, hAccepts.trans ?_⟩
  · rw [like, hDone]
    cases index <;> rfl
  · simp [Wildcard.Search.Accepts, LikeState.search, LikeLiterally]

theorem gives_like {value pattern : Bytes} {matched : Bool} (h : like value pattern = .done matched) :
    Gives (binary (ascii "like") (.text value) (.text pattern)) (.boolean matched) := by
  intro status
  have hBinary : binary (ascii "like") (.text value) (.text pattern) =
      (do
        let matched ← like value pattern
        pure (some (.boolean matched))) := rfl
  rw [hBinary, h]
  rfl

end Eval

open Eval

/-- The loop ends within its strings, and what it accepts is a match. -/
theorem like_terminates_sound (value pattern : Bytes) :
    (∃ matched, Gives (binary (ascii "like") (.text value) (.text pattern)) (.boolean matched) ∧
      (matched = true → LikeMatches pattern value)) ∧
    (∃ fuel, ∀ more, ∃ index, likeLoop value pattern (fuel + more) ⟨0, 0, none, 0⟩ = .done index) ∧
    ∀ s, LikeReaches value pattern s → LikeInside value pattern s := by
  refine ⟨?_, ⟨likeBound value pattern, ?_⟩, fun s h => h.inside⟩
  · obtain ⟨matched, hDone, hMatched⟩ := like_literally value pattern
    exact ⟨matched, gives_like hDone, fun h => (hMatched.mp h).matches⟩
  · have hStart := measure_start value pattern
    exact fun more => likeLoop_done LikeReaches.start.inside (by omega)

/-- A match is found if and only if it remains one when each `%` in front of a `%` of the value is that byte. -/
theorem like_complete_iff (value pattern : Bytes) :
    (LikeMatches pattern value → Gives (binary (ascii "like") (.text value) (.text pattern)) (.boolean true)) ↔
      (LikeMatches pattern value → LikeLiterally pattern value) := by
  obtain ⟨matched, hDone, hMatched⟩ := like_literally value pattern
  have hGives := gives_like hDone
  refine imp_congr_right fun _ => ?_
  rw [← hMatched]
  constructor
  · intro hTrue
    have hSame := (hGives .ok).symm.trans (hTrue .ok)
    cases hSame
    rfl
  · rintro rfl
    exact hGives

/-- In particular every match of a value without `%`. -/
theorem LikeMatches.literally {value pattern : Bytes} (h : LikeMatches pattern value) (hValue : 37 ∉ value) :
    LikeLiterally pattern value := Wildcard.Matches.literalFirst h hValue

/-- `'%x' LIKE '%'` -/
theorem percent_value_missed : ¬ ∀ value pattern : Bytes, LikeMatches pattern value →
    Gives (binary (ascii "like") (.text value) (.text pattern)) (.boolean true) := by
  intro h
  have hTrue := h (ascii "%x") (ascii "%") (.many (ascii "%x") .nil) .ok
  have hFalse : binary (ascii "like") (.text (ascii "%x")) (.text (ascii "%")) .ok = .done (some (.boolean false), .ok) := by
    decide +kernel
  rw [hFalse] at hTrue
  cases hTrue

end TupleStone
