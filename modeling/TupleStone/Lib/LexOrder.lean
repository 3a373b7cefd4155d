import Mathlib.Data.List.Lex
import Mathlib.Order.Lattice
import Mathlib.Order.Monotone.Defs
import Mathlib.Tactic.Common

/-! # The lexicographic order of strings

A proper prefix is the smaller string, and otherwise the first difference decides. Only an order that a difference
decides survives what is appended to the strings, and is reversed when every letter is replaced by one of a reversed
order.
-/

set_option autoImplicit false

namespace LexOrder

variable {α β : Type} [LinearOrder α] [LinearOrder β] {a b x y : List α}

/-- The first string is the smaller one at the first place where the two differ. -/
def DiffersBelow (a b : List α) : Prop := ∃ p c d x y, a = p ++ c :: x ∧ b = p ++ d :: y ∧ c < d

theorem append_left_lt_iff (p : List α) : p ++ x < p ++ y ↔ x < y := by
  induction p with
  | nil => exact Iff.rfl
  | cons c p ih => rw [List.cons_append, List.cons_append, List.cons_lt_cons_self, ih]

theorem lt_of_prefix (h : a <+: b) (hNe : a ≠ b) : a < b := by
  obtain ⟨rest, rfl⟩ := h
  cases rest with
  | nil => exact absurd (List.append_nil a).symm hNe
  | cons c rest =>
    have hLess := (append_left_lt_iff a).mpr (List.nil_lt_cons c rest)
    rwa [List.append_nil] at hLess

theorem prefix_or_differsBelow (h : a < b) : a <+: b ∨ DiffersBelow a b := by
  induction a generalizing b with
  | nil => exact Or.inl List.nil_prefix
  | cons c a ih =>
    cases b with
    | nil => exact absurd h (List.not_lt_nil _)
    | cons d b =>
      obtain hHead | ⟨rfl, hTail⟩ := List.cons_lt_cons_iff.mp h
      · exact Or.inr ⟨[], c, d, a, b, rfl, rfl, hHead⟩
      · obtain hPrefix | ⟨p, c', d', x, y, rfl, rfl, hLess⟩ := ih hTail
        · exact Or.inl ((List.prefix_cons_inj c).mpr hPrefix)
        · exact Or.inr ⟨c :: p, c', d', x, y, rfl, rfl, hLess⟩

namespace DiffersBelow

theorem lt (h : DiffersBelow a b) : a < b := by
  obtain ⟨p, c, d, x, y, rfl, rfl, hLess⟩ := h
  exact (append_left_lt_iff p).mpr (List.cons_lt_cons_iff.mpr (Or.inl hLess))

theorem append (h : DiffersBelow a b) (x y : List α) : DiffersBelow (a ++ x) (b ++ y) := by
  obtain ⟨p, c, d, x', y', rfl, rfl, hLess⟩ := h
  exact ⟨p, c, d, x' ++ x, y' ++ y, by simp, by simp, hLess⟩

theorem prepend (h : DiffersBelow a b) (p : List α) : DiffersBelow (p ++ a) (p ++ b) := by
  obtain ⟨p', c, d, x, y, rfl, rfl, hLess⟩ := h
  exact ⟨p ++ p', c, d, x, y, by simp, by simp, hLess⟩

theorem not_prefix (h : DiffersBelow a b) : ¬ a <+: b := by
  rintro ⟨rest, rfl⟩
  have hSelf := (h.append rest []).lt
  rw [List.append_nil] at hSelf
  exact lt_irrefl _ hSelf

theorem not_prefix_of (h : DiffersBelow a b) : ¬ b <+: a := by
  rintro ⟨rest, rfl⟩
  have hSelf := (h.append [] rest).lt
  rw [List.append_nil] at hSelf
  exact lt_irrefl _ hSelf

theorem map (h : DiffersBelow a b) {f : α → β} (hf : StrictAnti f) : DiffersBelow (b.map f) (a.map f) := by
  obtain ⟨p, c, d, x, y, rfl, rfl, hLess⟩ := h
  exact ⟨p.map f, f d, f c, y.map f, x.map f, by simp, by simp, hf hLess⟩

end DiffersBelow

theorem differsBelow_of_head {c d : α} (h : c < d) (x y : List α) : DiffersBelow (c :: x) (d :: y) :=
  ⟨[], c, d, x, y, rfl, rfl, h⟩

/-- Strings of one length are not proper prefixes of each other. -/
theorem differsBelow_of_lt (h : a < b) (hLength : a.length = b.length) : DiffersBelow a b := by
  obtain hPrefix | hDiffers := prefix_or_differsBelow h
  · rw [hPrefix.eq_of_length hLength] at h
    exact absurd h (lt_irrefl b)
  · exact hDiffers

end LexOrder
