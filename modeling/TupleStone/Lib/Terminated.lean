import Mathlib.Data.List.Basic
import Mathlib.Algebra.BigOperators.Group.List.Basic
import Mathlib.Algebra.GroupWithZero.Nat
import Mathlib.Algebra.Order.Monoid.Defs

/-! # Pieces with a separator after each

Pieces are read back from their concatenation when at most one position holds pieces that contain the
separator.
-/

set_option autoImplicit false

namespace Terminated

variable {α : Type}

def join (separator : α) (pieces : List (List α)) : List α := pieces.flatMap (fun piece => piece ++ [separator])

theorem join_cons (separator : α) (piece : List α) (pieces : List (List α)) :
    join separator (piece :: pieces) = piece ++ separator :: join separator pieces := by
  rw [join, List.flatMap_cons, List.append_assoc]
  rfl

variable [DecidableEq α]

theorem count_join (separator : α) (pieces : List (List α)) :
    (join separator pieces).count separator = (pieces.map (List.count separator)).sum + pieces.length := by
  induction pieces with
  | nil => rfl
  | cons piece pieces ih =>
    rw [join_cons, List.count_append, List.count_cons_self, ih, List.map_cons, List.sum_cons, List.length_cons]
    omega

/-- The first of two rests with equally many separators starts where the other does. -/
theorem append_inj {separator : α} {s t k l : List α} (h : s ++ separator :: k = t ++ separator :: l)
    (hCount : k.count separator = l.count separator) : s = t ∧ k = l := by
  rcases List.append_eq_append_iff.mp h with ⟨c, hc, hRest⟩ | ⟨c, hc, hRest⟩ <;> cases c with
  | nil =>
    rw [List.append_nil] at hc
    rw [List.nil_append] at hRest
    cases hRest
    exact ⟨by simp [hc], rfl⟩
  | cons first c =>
    have hTail := (List.cons.inj (hRest.trans (List.cons_append ..))).2
    rw [hTail, List.count_append, List.count_cons_self] at hCount
    omega

theorem eq_of_counts {separator : α} {ps qs : List (List α)}
    (hCounts : ps.map (List.count separator) = qs.map (List.count separator))
    (h : join separator ps = join separator qs) : ps = qs := by
  induction ps generalizing qs with
  | nil => exact (List.map_eq_nil_iff.mp hCounts.symm).symm
  | cons p ps ih =>
    cases qs with
    | nil => cases hCounts
    | cons q qs =>
      obtain ⟨_, hRest⟩ := List.cons.inj hCounts
      have hLength : ps.length = qs.length := by simpa using congrArg List.length hRest
      rw [join_cons, join_cons] at h
      have hCount : (join separator ps).count separator = (join separator qs).count separator := by
        rw [count_join, count_join, hRest, hLength]
      obtain ⟨hFirst, hOthers⟩ := append_inj h hCount
      rw [hFirst, ih hRest hOthers]

theorem eq_replicate_of_zeros {xs : List Nat} (h : ∀ i n : Nat, xs[i]? ≠ some (n + 1)) :
    xs = List.replicate xs.length 0 := by
  apply List.eq_replicate_length.mpr
  intro x hx
  obtain ⟨i, hi⟩ := List.mem_iff_getElem?.mp hx
  cases x with
  | zero => rfl
  | succ n => exact absurd hi (h i n)

theorem eq_of_sum_eq_zero {xs ys : List Nat} (hLength : xs.length = ys.length) (hSum : xs.sum = ys.sum)
    (hZero : ∀ i n : Nat, ys[i]? ≠ some (n + 1)) : xs = ys := by
  have hys := eq_replicate_of_zeros hZero
  have hxs : ∀ x ∈ xs, x = 0 := by
    rw [hys] at hSum
    simpa [List.sum_eq_zero_iff_forall_eq_nat] using hSum
  rw [hys, ← hLength]
  exact List.eq_replicate_length.mpr hxs

/-- Lists that are positive at one position only are fixed by their sum. -/
theorem eq_of_sum_eq_at {xs ys : List Nat} {i : Nat} (hLength : xs.length = ys.length) (hSum : xs.sum = ys.sum)
    (hx : ∀ k n : Nat, xs[k]? = some (n + 1) → k = i) (hy : ∀ k n : Nat, ys[k]? = some (n + 1) → k = i) : xs = ys := by
  induction xs generalizing ys i with
  | nil => exact (List.length_eq_zero_iff.mp hLength.symm).symm
  | cons x xs ih =>
    cases ys with
    | nil => cases hLength
    | cons y ys =>
      have hLength : xs.length = ys.length := Nat.succ.inj hLength
      cases i with
      | zero =>
        have hxs := eq_replicate_of_zeros fun k n hk => absurd (hx (k + 1) n hk) (Nat.succ_ne_zero k)
        have hys := eq_replicate_of_zeros fun k n hk => absurd (hy (k + 1) n hk) (Nat.succ_ne_zero k)
        rw [hLength] at hxs
        rw [List.sum_cons, List.sum_cons, hxs, hys] at hSum
        rw [hxs, hys]
        simpa using hSum
      | succ i =>
        have hFirst : ∀ {z : Nat}, (∀ n, z = n + 1 → 0 = i + 1) → z = 0 := by
          intro z hz
          cases z with
          | zero => rfl
          | succ n => exact absurd (hz n rfl) (Nat.succ_ne_zero i).symm
        have hx0 : x = 0 := hFirst fun n hn => hx 0 n (congrArg some hn)
        have hy0 : y = 0 := hFirst fun n hn => hy 0 n (congrArg some hn)
        rw [List.sum_cons, List.sum_cons, hx0, hy0, Nat.zero_add, Nat.zero_add] at hSum
        rw [hx0, hy0, ih hLength hSum (fun k n hk => Nat.succ.inj (hx (k + 1) n hk))
          (fun k n hk => Nat.succ.inj (hy (k + 1) n hk))]

/-- Counts with the same sum are equal when at most one position is positive in either. -/
theorem eq_of_sum_eq {xs ys : List Nat} (hLength : xs.length = ys.length) (hSum : xs.sum = ys.sum)
    (hOne : ∀ i j m n : Nat, xs[i]? = some (m + 1) → ys[j]? = some (n + 1) → i = j) : xs = ys := by
  by_cases hys : ∃ j n : Nat, ys[j]? = some (n + 1)
  · obtain ⟨j, n, hj⟩ := hys
    by_cases hxs : ∃ i m : Nat, xs[i]? = some (m + 1)
    · obtain ⟨i, m, hi⟩ := hxs
      exact eq_of_sum_eq_at hLength hSum (fun k l hk => hOne k j l n hk hj)
        (fun k l hk => (hOne i k m l hi hk).symm.trans (hOne i j m n hi hj))
    · exact (eq_of_sum_eq_zero hLength.symm hSum.symm fun i m hi => hxs ⟨i, m, hi⟩).symm
  · exact eq_of_sum_eq_zero hLength hSum fun j n hj => hys ⟨j, n, hj⟩

/-- The pieces are read back when those with a separator in them stand at one position. -/
theorem join_inj {separator : α} {ps qs : List (List α)} (hLength : ps.length = qs.length)
    (hOne : ∀ (i j : Nat) (p q : List α), ps[i]? = some p → qs[j]? = some q → separator ∈ p → separator ∈ q → i = j)
    (h : join separator ps = join separator qs) : ps = qs := by
  have hSum : (ps.map (List.count separator)).sum = (qs.map (List.count separator)).sum := by
    have hCount := congrArg (List.count separator) h
    rw [count_join, count_join, hLength] at hCount
    exact Nat.add_right_cancel hCount
  have hPiece : ∀ {rs : List (List α)} {k n : Nat}, (rs.map (List.count separator))[k]? = some (n + 1) →
      ∃ r, rs[k]? = some r ∧ separator ∈ r := by
    intro rs k n hk
    rw [List.getElem?_map] at hk
    obtain ⟨r, hr, hCount⟩ := Option.map_eq_some_iff.mp hk
    exact ⟨r, hr, List.count_pos_iff.mp (by omega)⟩
  refine eq_of_counts (eq_of_sum_eq (by simp [hLength]) hSum fun i j m n hi hj => ?_) h
  obtain ⟨p, hp, hMemP⟩ := hPiece hi
  obtain ⟨q, hq, hMemQ⟩ := hPiece hj
  exact hOne i j p q hp hq hMemP hMemQ

end Terminated
