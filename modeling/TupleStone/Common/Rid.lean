import TupleStone.Disk.Page
import Mathlib.Order.Basic
import Mathlib.Order.Defs.LinearOrder

/-! # Row addresses -/

set_option autoImplicit false

namespace TupleStone

structure RID where
  pageId : UInt32 := kInvalidPageId
  slotId : UInt16 := 0
  deriving DecidableEq, Repr

namespace RID

def valid (rid : RID) : Bool := rid.pageId != kInvalidPageId

/-- `operator<`. -/
def less (a b : RID) : Bool :=
  if a.pageId ≠ b.pageId then decide (a.pageId < b.pageId) else decide (a.slotId < b.slotId)

/-- The place in the order. -/
def rank (rid : RID) : Nat := rid.pageId.toNat * 2 ^ 16 + rid.slotId.toNat

theorem less_iff (a b : RID) : a.less b = true ↔ a.rank < b.rank := by
  have hA := a.slotId.toNat_lt
  have hB := b.slotId.toNat_lt
  rw [less, rank, rank]
  split
  · rename_i hPage
    have hNe : a.pageId.toNat ≠ b.pageId.toNat := fun h => hPage (UInt32.toNat_inj.mp h)
    rw [decide_eq_true_iff, UInt32.lt_iff_toNat_lt]
    omega
  · rename_i hPage
    rw [not_not] at hPage
    rw [decide_eq_true_iff, UInt16.lt_iff_toNat_lt, hPage]
    omega

theorem rank_injective : Function.Injective rank := by
  intro a b h
  have hA := a.slotId.toNat_lt
  have hB := b.slotId.toNat_lt
  rw [rank, rank] at h
  cases a
  cases b
  congr
  · apply UInt32.toNat_inj.mp
    dsimp only at *
    omega
  · apply UInt16.toNat_inj.mp
    dsimp only at *
    omega

instance : LinearOrder RID where
  le a b := a.rank ≤ b.rank
  lt a b := a.less b = true
  le_refl a := Nat.le_refl a.rank
  le_trans _ _ _ := Nat.le_trans
  lt_iff_le_not_ge a b := by
    rw [less_iff]
    omega
  le_antisymm _ _ hLe hGe := rank_injective (Nat.le_antisymm hLe hGe)
  le_total a b := Nat.le_total a.rank b.rank
  toDecidableLE := fun a b => inferInstanceAs (Decidable (a.rank ≤ b.rank))
  toDecidableEq := inferInstance
  toDecidableLT := fun a b => inferInstanceAs (Decidable (a.less b = true))

theorem lt_iff (a b : RID) : a < b ↔ a.rank < b.rank := less_iff a b

end RID

end TupleStone
