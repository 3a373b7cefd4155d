import Mathlib.Tactic.Common

/-! # Kleene's three truth values -/

set_option autoImplicit false

inductive Kleene where
  | no
  | unknown
  | yes
  deriving DecidableEq, Repr

namespace Kleene

def ofBool : Bool → Kleene
  | true => yes
  | false => no

/-- The truth of a comparison that may have no answer. -/
def ofAnswer : Option Bool → Kleene
  | some b => ofBool b
  | none => unknown

protected def not : Kleene → Kleene
  | no => yes
  | unknown => unknown
  | yes => no

protected def and : Kleene → Kleene → Kleene
  | no, _ => no
  | _, no => no
  | yes, yes => yes
  | _, _ => unknown

protected def or : Kleene → Kleene → Kleene
  | yes, _ => yes
  | _, yes => yes
  | no, no => no
  | _, _ => unknown

theorem ofAnswer_eq_yes {answer : Option Bool} : ofAnswer answer = yes ↔ answer = some true := by
  obtain _ | _ | _ := answer <;> decide

theorem ofAnswer_eq_no {answer : Option Bool} : ofAnswer answer = no ↔ answer = some false := by
  obtain _ | _ | _ := answer <;> decide

theorem eq_unknown {a : Kleene} (hYes : a ≠ yes) (hNo : a ≠ no) : a = unknown := by
  cases a with
  | no => exact absurd rfl hNo
  | unknown => rfl
  | yes => exact absurd rfl hYes

theorem or_eq_yes {a b : Kleene} : a.or b = yes ↔ a = yes ∨ b = yes := by
  cases a <;> cases b <;> decide

theorem or_eq_no {a b : Kleene} : a.or b = no ↔ a = no ∧ b = no := by
  cases a <;> cases b <;> decide

/-- A disjunction is true if a part is. -/
theorem foldl_or_eq_yes (first : Kleene) (rest : List Kleene) :
    rest.foldl Kleene.or first = yes ↔ yes ∈ first :: rest := by
  induction rest generalizing first with
  | nil => simp [eq_comm]
  | cons next rest ih =>
    rw [List.foldl_cons, ih, List.mem_cons, List.mem_cons, List.mem_cons, eq_comm, or_eq_yes, or_assoc, eq_comm,
      eq_comm (a := next)]

/-- A disjunction is false if every part is. -/
theorem foldl_or_eq_no (first : Kleene) (rest : List Kleene) :
    rest.foldl Kleene.or first = no ↔ ∀ a ∈ first :: rest, a = no := by
  induction rest generalizing first with
  | nil => simp
  | cons next rest ih =>
    rw [List.foldl_cons, ih, List.forall_mem_cons, List.forall_mem_cons, List.forall_mem_cons, or_eq_no, and_assoc]

end Kleene
