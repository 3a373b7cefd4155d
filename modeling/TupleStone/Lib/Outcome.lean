import Mathlib.Tactic.Common

/-! # Outcomes of code that may leave the defined behaviour

An execution ends with a value, leaves what the source language defines (`undefined`), or exceeds the
iteration bound that a model gives to a loop (`outOfFuel`). Nothing is ever concluded from the last two.
-/

set_option autoImplicit false

inductive Outcome (α : Type) where
  | done (value : α)
  | undefined
  | outOfFuel
  deriving DecidableEq, Repr

namespace Outcome

variable {α β γ : Type}

protected def bind : Outcome α → (α → Outcome β) → Outcome β
  | done a, f => f a
  | undefined, _ => undefined
  | outOfFuel, _ => outOfFuel

instance : Monad Outcome where
  pure := done
  bind := Outcome.bind

@[simp] theorem pure_eq (a : α) : (pure a : Outcome α) = done a := rfl
@[simp] theorem done_bind (a : α) (f : α → Outcome β) : (done a >>= f) = f a := rfl
@[simp] theorem undefined_bind (f : α → Outcome β) : ((undefined : Outcome α) >>= f) = undefined := rfl
@[simp] theorem outOfFuel_bind (f : α → Outcome β) : ((outOfFuel : Outcome α) >>= f) = outOfFuel := rfl

instance : LawfulMonad Outcome := LawfulMonad.mk' _
  (fun x => by cases x <;> rfl) (fun _ _ => rfl) (fun x _ _ => by cases x <;> rfl)

/-- The value, if the outcome is one. -/
def value? : Outcome α → Option α
  | done a => some a
  | _ => none

theorem value?_eq_some {x : Outcome α} {a : α} : x.value? = some a ↔ x = done a := by
  cases x <;> simp [value?]

theorem bind_eq_done {x : Outcome α} {f : α → Outcome β} {b : β} (h : x >>= f = done b) :
    ∃ a, x = done a ∧ f a = done b := by
  cases x with
  | done a => exact ⟨a, rfl, h⟩
  | undefined => cases h
  | outOfFuel => cases h

@[simp] theorem map_done (f : α → β) (a : α) : f <$> (done a) = done (f a) := rfl

theorem map_eq_done {x : Outcome α} {f : α → β} {b : β} (h : f <$> x = done b) :
    ∃ a, x = done a ∧ f a = b := by
  cases x with
  | done a => exact ⟨a, rfl, by cases h; rfl⟩
  | undefined => cases h
  | outOfFuel => cases h

/-- The value of an outcome that is known to be one. -/
def get : (x : Outcome α) → (∃ a, x = done a) → α
  | done a, _ => a
  | undefined, h => absurd h (fun ⟨_, e⟩ => by cases e)
  | outOfFuel, h => absurd h (fun ⟨_, e⟩ => by cases e)

@[simp] theorem done_get (x : Outcome α) (h : ∃ a, x = done a) : done (x.get h) = x := by
  obtain ⟨a, rfl⟩ := h
  rfl

end Outcome
