import TupleStone.Lib.LexOrder

/-! # Strings written in padded groups

A string is cut into groups of one size and the last group is filled up with the smallest letter. The mark behind a
group tells how many of its letters count, or that more groups follow. Marks that grow in this order make the written
strings ordered as the strings are, by a difference and not by a prefix.
-/

set_option autoImplicit false

namespace PaddedGroups

open LexOrder

/-- The letter that pads, the marks of the last group, and the mark in front of further groups. -/
structure Marks (α : Type) [LinearOrder α] (size : Nat) where
  zero : α
  count : Nat → α
  more : α
  size_pos : 0 < size
  zero_le : ∀ c, zero ≤ c
  count_lt : ∀ m n, m < n → n ≤ size → count m < count n
  count_lt_more : ∀ n, n ≤ size → count n < more

variable {α : Type} [LinearOrder α] {size : Nat} (M : Marks α size)

namespace Marks

/-- The first `n` letters, filled up. -/
def pad : Nat → List α → List α
  | 0, _ => []
  | n + 1, [] => M.zero :: pad n []
  | n + 1, c :: text => c :: pad n text

/-- The mark behind the first `n` of the letters left, of which `k` stand in the group already. -/
def mark (n k : Nat) (text : List α) : α := if n < text.length then M.more else M.count (k + text.length)

theorem drop_shorter (M : Marks α size) {text : List α} (h : size < text.length) : (text.drop size).length < text.length := by
  have hSize := M.size_pos
  rw [List.length_drop]
  omega

def groups (M : Marks α size) (text : List α) : List α :=
  M.pad size text ++ [M.mark size 0 text] ++
    if h : size < text.length then
      have _ := M.drop_shorter h
      groups M (text.drop size)
    else []
termination_by text.length
decreasing_by assumption

@[simp] theorem length_pad (n : Nat) (text : List α) : (M.pad n text).length = n := by
  induction n generalizing text with
  | zero => rfl
  | succ n ih => cases text <;> rw [pad, List.length_cons, ih]

theorem pad_eq (n : Nat) (text : List α) : M.pad n text = text.take n ++ List.replicate (n - text.length) M.zero := by
  induction n generalizing text with
  | zero => simp [pad]
  | succ n ih =>
    cases text with
    | nil => simp [pad, ih, List.replicate_succ]
    | cons c text => simp [pad, ih]

theorem groups_short {text : List α} (h : text.length ≤ size) :
    M.groups text = M.pad size text ++ [M.count text.length] := by
  rw [groups, mark, if_neg (Nat.not_lt.mpr h), dif_neg (Nat.not_lt.mpr h), List.append_nil, Nat.zero_add]

theorem groups_long {text : List α} (h : size < text.length) :
    M.groups text = text.take size ++ M.more :: M.groups (text.drop size) := by
  have hNone : size - text.length = 0 := by omega
  rw [groups, mark, if_pos h, dif_pos h, pad_eq, hNone, List.replicate_zero, List.append_nil, List.append_assoc]
  rfl

/-- Padding alone is not above anything of its length, so a smaller mark behind it decides. -/
theorem padding_lt {low high : α} (h : low < high) (n : Nat) (text : List α) : M.pad n [] ++ [low] < M.pad n text ++ [high] := by
  induction n generalizing text with
  | zero => exact List.cons_lt_cons_iff.mpr (Or.inl h)
  | succ n ih =>
    cases text with
    | nil => exact List.cons_lt_cons_iff.mpr (Or.inr ⟨rfl, ih []⟩)
    | cons c text =>
      obtain hLess | hEq := lt_or_eq_of_le (M.zero_le c)
      · exact List.cons_lt_cons_iff.mpr (Or.inl hLess)
      · exact List.cons_lt_cons_iff.mpr (Or.inr ⟨hEq, ih text⟩)

theorem mark_cons (n k : Nat) (c : α) (text : List α) : M.mark (n + 1) k (c :: text) = M.mark n (k + 1) text := by
  rw [mark, mark, List.length_cons]
  have hCount : k + (text.length + 1) = k + 1 + text.length := by omega
  simp [hCount]

/-- The first group decides, or it is full of the same letters and more follow in both strings. -/
theorem group_lt {n k : Nat} (hSize : k + n ≤ size) {a b : List α} (h : a < b) :
    M.pad n a ++ [M.mark n k a] < M.pad n b ++ [M.mark n k b] ∨
      (n < a.length ∧ n < b.length ∧ a.take n = b.take n ∧ a.drop n < b.drop n) := by
  induction n generalizing k a b with
  | zero =>
    cases b with
    | nil => exact absurd h (List.not_lt_nil a)
    | cons d b =>
      cases a with
      | nil =>
        left
        exact List.cons_lt_cons_iff.mpr (Or.inl (M.count_lt_more k (by omega)))
      | cons c a => exact Or.inr ⟨by simp, by simp, rfl, h⟩
  | succ n ih =>
    cases b with
    | nil => exact absurd h (List.not_lt_nil a)
    | cons d b =>
      cases a with
      | nil =>
        left
        have hMark : M.mark (n + 1) k [] < M.mark (n + 1) k (d :: b) := by
          rw [mark, mark, if_neg (by simp), List.length_nil, List.length_cons]
          split
          · exact M.count_lt_more _ (by omega)
          · exact M.count_lt _ _ (by omega) (by omega)
        exact M.padding_lt hMark (n + 1) (d :: b)
      | cons c a =>
        rw [mark_cons, mark_cons, pad, pad]
        obtain hHead | ⟨rfl, hTail⟩ := List.cons_lt_cons_iff.mp h
        · exact Or.inl (List.cons_lt_cons_iff.mpr (Or.inl hHead))
        · obtain hLess | ⟨hA, hB, hTake, hDrop⟩ := ih (by omega : k + 1 + n ≤ size) hTail
          · exact Or.inl (List.cons_lt_cons_iff.mpr (Or.inr ⟨rfl, hLess⟩))
          · refine Or.inr ⟨Nat.succ_lt_succ hA, Nat.succ_lt_succ hB, ?_, hDrop⟩
            rw [List.take_succ_cons, List.take_succ_cons, hTake]

/-- Written strings are ordered as the strings, and a difference decides. -/
theorem groups_differsBelow {a b : List α} (h : a < b) : DiffersBelow (M.groups a) (M.groups b) := by
  induction hLength : a.length using Nat.strongRecOn generalizing a b with
  | ind length ih =>
    obtain hLess | ⟨hA, hB, hTake, hDrop⟩ := M.group_lt (Nat.le_of_eq (Nat.zero_add size)) h
    · have hDiffers := differsBelow_of_lt hLess (by simp)
      rw [groups.eq_1 M a, groups.eq_1 M b]
      exact hDiffers.append _ _
    · have hRest := ih (a.drop size).length (hLength ▸ M.drop_shorter hA) hDrop rfl
      rw [M.groups_long hA, M.groups_long hB, hTake]
      exact (hRest.prepend [M.more]).prepend (b.take size)

end Marks

end PaddedGroups
