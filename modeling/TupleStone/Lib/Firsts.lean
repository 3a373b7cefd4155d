import Mathlib.Data.List.Basic
import Mathlib.Order.Basic
import Mathlib.Data.Nat.Basic

/-! # The first of each group

A list is thinned to the elements that repeat no earlier one. When two relations decide what a repetition is, or when
elements are dropped before rather than after, the results agree exactly as long as the decisions do.
-/

set_option autoImplicit false

namespace Firsts

variable {α : Type}

/-- The elements that are the same as no element of `seen` and no earlier one. -/
def firsts (same : α → α → Bool) (seen : List α) : List α → List α
  | [] => []
  | a :: rest => if seen.any (same a) then firsts same (seen ++ [a]) rest else a :: firsts same (seen ++ [a]) rest

/-- The first `many` elements, or all. -/
def limited : Option Nat → List α → List α
  | none, rows => rows
  | some many, rows => rows.take many

def Distinct (same : α → α → Bool) (rows : List α) : Prop := rows.Pairwise (fun a b => same b a = false)

/-- Up to `many` kept elements, what repeats a visited one under `key` is what repeats any earlier one under `same`. -/
def Agree (key same : α → α → Bool) (before : List α) : Option Nat → (visited rest : List α) → Prop
  | _, _, [] => True
  | many, visited, a :: rest =>
    many = some 0 ∨ visited.any (key a) = (before ++ visited).any (same a) ∧
      Agree key same before (if visited.any (key a) then many else many.map (· - 1)) (visited ++ [a]) rest

variable {same key : α → α → Bool} {seen before rows : List α} {a : α} {many : Option Nat}

theorem firsts_never (seen rows : List α) : firsts (fun _ _ => false) seen rows = rows := by
  induction rows generalizing seen with
  | nil => rfl
  | cons a rest ih =>
    rw [firsts, if_neg (by simp), ih]

theorem limited_cons (hMany : many ≠ some 0) : limited many (a :: rows) = a :: limited (many.map (· - 1)) rows := by
  cases many with
  | none => rfl
  | some n =>
    obtain ⟨n, rfl⟩ := Nat.exists_eq_succ_of_ne_zero fun h => hMany (congrArg some h)
    rfl

theorem limited_zero (rows : List α) : limited (some 0) rows = [] := rfl

theorem mem_of_mem_limited (h : a ∈ limited many rows) : a ∈ rows := by
  cases many with
  | none => exact h
  | some n => exact List.mem_of_mem_take h

/-- What is kept is the same as nothing seen before. -/
theorem not_seen_of_mem (h : a ∈ firsts same seen rows) : seen.any (same a) = false := by
  induction rows generalizing seen with
  | nil => cases h
  | cons b rest ih =>
    have hRest : a ∈ firsts same (seen ++ [b]) rest → seen.any (same a) = false := by
      intro hMem
      have hNot := ih hMem
      rw [List.any_append, Bool.or_eq_false_iff] at hNot
      exact hNot.1
    rw [firsts] at h
    split at h
    · exact hRest h
    · next hKept =>
      obtain rfl | hMem := List.mem_cons.mp h
      · exact eq_false_of_ne_true hKept
      · exact hRest hMem

/-- An element that was seen is not kept again. -/
theorem not_mem_firsts (hSelf : same a a = true) (hSeen : a ∈ seen) : a ∉ firsts same seen rows := by
  intro h
  have hNot := List.any_eq_false.mp (not_seen_of_mem h) a hSeen
  exact hNot hSelf

theorem firsts_append (same : α → α → Bool) (seen front back : List α) :
    firsts same seen (front ++ back) = firsts same seen front ++ firsts same (seen ++ front) back := by
  induction front generalizing seen with
  | nil => rw [List.append_nil]; rfl
  | cons a front ih =>
    have hSeen : seen ++ [a] ++ front = seen ++ a :: front := by rw [List.append_assoc, List.singleton_append]
    rw [List.cons_append, firsts, firsts, ih, hSeen]
    split
    · rfl
    · rw [List.cons_append]

theorem length_firsts_le (same : α → α → Bool) (seen rows : List α) : (firsts same seen rows).length ≤ rows.length := by
  induction rows generalizing seen with
  | nil => exact Nat.le_refl 0
  | cons a rest ih =>
    have hRest := ih (seen ++ [a])
    rw [firsts]
    split
    · exact hRest.trans (Nat.le_succ _)
    · rw [List.length_cons, List.length_cons]
      omega

/-- Nothing is thinned out of a list without repetitions, and of no other. -/
theorem length_firsts_iff (same : α → α → Bool) (seen rows : List α) : (firsts same seen rows).length = rows.length ↔
    (∀ a ∈ rows, seen.any (same a) = false) ∧ Distinct same rows := by
  induction rows generalizing seen with
  | nil => simp [firsts, Distinct]
  | cons a rest ih =>
    have hLe := length_firsts_le same (seen ++ [a]) rest
    have hSplit : (∀ b ∈ rest, (seen ++ [a]).any (same b) = false) ↔
        (∀ b ∈ rest, seen.any (same b) = false) ∧ ∀ b ∈ rest, same b a = false := by
      simp only [List.any_append, Bool.or_eq_false_iff, List.any_cons, List.any_nil, Bool.or_false, ← forall_and]
    rw [firsts, List.forall_mem_cons, Distinct, List.pairwise_cons]
    split
    · next hSeen =>
      rw [hSeen, List.length_cons]
      refine iff_of_false (by omega) ?_
      rintro ⟨⟨hNot, -⟩, -⟩
      cases hNot
    · next hKept =>
      rw [List.length_cons, List.length_cons, Nat.add_right_cancel_iff, ih, hSplit]
      have hNot := eq_false_of_ne_true hKept
      constructor
      · rintro ⟨⟨hSeen, hHead⟩, hTail⟩
        exact ⟨⟨hNot, hSeen⟩, hHead, hTail⟩
      · rintro ⟨⟨-, hSeen⟩, hHead, hTail⟩
        exact ⟨⟨hSeen, hHead⟩, hTail⟩

/-- Two relations keep the same elements when they agree on what is repeated. -/
theorem limited_firsts_eq_iff (hKey : ∀ a, key a a = true) (hSame : ∀ a, same a a = true) (many : Option Nat)
    (before visited rows : List α) : limited many (firsts key visited rows) = limited many (firsts same (before ++ visited) rows) ↔
      Agree key same before many visited rows := by
  induction rows generalizing visited many with
  | nil => exact iff_of_true rfl trivial
  | cons a rest ih =>
    by_cases hMany : many = some 0
    · subst hMany
      exact iff_of_true (by rw [limited_zero, limited_zero]) (Or.inl rfl)
    rw [firsts, firsts, Agree, or_iff_right hMany, List.append_assoc]
    have hSeen : a ∈ visited ++ [a] := List.mem_append_right _ List.mem_cons_self
    have hSeen' : a ∈ before ++ (visited ++ [a]) := List.mem_append_right _ hSeen
    cases hRepeats : visited.any (key a) with
    | true =>
      cases hRepeats' : (before ++ visited).any (same a) with
      | true =>
        rw [if_pos rfl, if_pos rfl, if_pos rfl]
        exact (ih _ _).trans (and_iff_right rfl).symm
      | false =>
        rw [if_pos rfl, if_neg Bool.false_ne_true, limited_cons hMany]
        refine iff_of_false (fun hEq => ?_) fun h => absurd h.1 (Bool.false_ne_true ∘ Eq.symm)
        have hMem : a ∈ limited many (firsts key (visited ++ [a]) rest) := hEq ▸ List.mem_cons_self
        exact not_mem_firsts (hKey a) hSeen (mem_of_mem_limited hMem)
    | false =>
      cases hRepeats' : (before ++ visited).any (same a) with
      | true =>
        rw [if_neg Bool.false_ne_true, if_pos rfl, limited_cons hMany]
        refine iff_of_false (fun hEq => ?_) fun h => absurd h.1 Bool.false_ne_true
        have hMem : a ∈ limited many (firsts same (before ++ (visited ++ [a])) rest) := hEq ▸ List.mem_cons_self
        exact not_mem_firsts (hSame a) hSeen' (mem_of_mem_limited hMem)
      | false =>
        rw [if_neg Bool.false_ne_true, if_neg Bool.false_ne_true, if_neg Bool.false_ne_true, limited_cons hMany,
          limited_cons hMany, List.cons_inj_right]
        exact (ih _ _).trans (and_iff_right rfl).symm

/-- Dropping elements before thinning gives what dropping them afterwards gives when the dropped ones repeat nothing, and
from there on the decisions agree. -/
theorem limited_drop_iff (hKey : ∀ a, key a a = true) (hSame : ∀ a, same a a = true) (count : Nat) :
    limited many (firsts key [] (rows.drop count)) = limited many ((firsts same [] rows).drop count) ↔
      many = some 0 ∨ rows.length ≤ count ∨
        Distinct same (rows.take count) ∧ Agree key same (rows.take count) many [] (rows.drop count) := by
  by_cases hMany : many = some 0
  · subst hMany
    exact iff_of_true (by rw [limited_zero, limited_zero]) (Or.inl rfl)
  rw [or_iff_right hMany]
  by_cases hShort : rows.length ≤ count
  · have hNone : (firsts same [] rows).drop count = [] :=
      List.drop_eq_nil_of_le ((length_firsts_le same [] rows).trans hShort)
    rw [hNone, List.drop_eq_nil_of_le hShort]
    exact iff_of_true rfl (Or.inl hShort)
  rw [or_iff_right hShort]
  have hLength : (rows.take count).length = count := by
    rw [List.length_take]
    omega
  have hSplit : firsts same [] rows = firsts same [] (rows.take count) ++ firsts same (rows.take count) (rows.drop count) := by
    have hAppend := firsts_append same [] (rows.take count) (rows.drop count)
    rwa [List.take_append_drop, List.nil_append] at hAppend
  have hKept := length_firsts_iff same [] (rows.take count)
  rw [hLength] at hKept
  by_cases hDistinct : Distinct same (rows.take count)
  · have hAll := hKept.mpr ⟨fun _ _ => rfl, hDistinct⟩
    have hAgree := limited_firsts_eq_iff hKey hSame many (rows.take count) [] (rows.drop count)
    rw [hSplit, List.drop_append, List.drop_eq_nil_of_le (Nat.le_of_eq hAll), hAll, Nat.sub_self, List.drop_zero,
      List.nil_append, and_iff_right hDistinct, ← hAgree, List.append_nil]
  · -- the first element behind the dropped ones is dropped too, or repeats one of them
    refine iff_of_false (fun hEq => ?_) fun h => hDistinct h.1
    have hLess : (firsts same [] (rows.take count)).length < count := by
      have hLe := length_firsts_le same [] (rows.take count)
      rw [hLength] at hLe
      exact lt_of_le_of_ne hLe fun hSame => hDistinct (hKept.mp hSame).2
    obtain ⟨a, rest, hRest⟩ := List.exists_cons_of_ne_nil (fun h => hShort (List.drop_eq_nil_iff.mp h))
    rw [hSplit, List.drop_append, List.drop_eq_nil_of_le hLess.le, List.nil_append, hRest, firsts, List.any_nil,
      if_neg Bool.false_ne_true, limited_cons hMany] at hEq
    have hMem : a ∈ (firsts same (rows.take count) (a :: rest)).drop (count - (firsts same [] (rows.take count)).length) :=
      mem_of_mem_limited (hEq ▸ List.mem_cons_self)
    obtain ⟨more, hMore⟩ : ∃ more, count - (firsts same [] (rows.take count)).length = more + 1 :=
      ⟨count - (firsts same [] (rows.take count)).length - 1, by omega⟩
    have hNotMem : a ∉ firsts same (rows.take count ++ [a]) rest :=
      not_mem_firsts (hSame a) (List.mem_append_right _ List.mem_cons_self)
    rw [hMore, firsts] at hMem
    split at hMem
    · exact hNotMem (List.mem_of_mem_drop hMem)
    · exact hNotMem (List.mem_of_mem_drop hMem)

end Firsts
