import TupleStone.Api.RowValues
import TupleStone.Lib.StableSort

/-! # The rows of a SELECT

The rows whose predicate is TRUE are sorted, projected and emitted. Where every key has a value the comparison is a
function of the two rows, and the output loop a function of the projected rows.
-/

set_option autoImplicit false

namespace TupleStone

namespace Statement

open Attempt

/-! ## Projection -/

/-- The values of the expressions, if all have one. -/
def projection (context : EvalContext) : List Expr → Option Row
  | [] => some []
  | expr :: expressions => do
    let value ← valueOf context (some expr)
    let rest ← projection context expressions
    pure (value :: rest)

variable {context : EvalContext} {expressions : List Expr} {output : Row} {status status' : Status}

theorem exec_project (h : projection context expressions = some output) :
    exec (project context expressions) .ok = .done (.ok output, .ok) := by
  induction expressions generalizing output with
  | nil =>
    cases h
    rfl
  | cons expr expressions ih =>
    obtain ⟨value, hValue, h⟩ := Option.bind_eq_some_iff.mp h
    obtain ⟨rest, hRest, h⟩ := Option.bind_eq_some_iff.mp h
    cases h
    have hEval : exec (liftM (evalExpr context expr) : RowM (Option Value)) .ok = .done (.ok (some value), .ok) := by
      have hPtr := valueOf_eq_some.mp hValue
      rw [evalPtr] at hPtr
      rw [exec_lift, hPtr]
      rfl
    have hCheck : exec checkRowStatus .ok = .done (.ok (), .ok) := rfl
    rw [project, exec_bind_ok hEval, exec_bind_ok hCheck]
    exact exec_bind_ok (ih hRest)

theorem project_ok (h : exec (project context expressions) .ok = .done (.ok output, status')) :
    projection context expressions = some output ∧ status' = .ok := by
  induction expressions generalizing output status' with
  | nil =>
    cases h
    exact ⟨rfl, rfl⟩
  | cons expr expressions ih =>
    rw [project] at h
    have hPtr : evalExpr context expr = evalPtr context (some expr) := by rw [evalPtr]
    rw [hPtr] at h
    obtain ⟨-, value, hValue, h⟩ := checkedValue_ok h
    obtain ⟨rest, mid, hRest, h⟩ := exec_bind_eq_ok h
    obtain ⟨hTail, rfl⟩ := ih hRest
    cases h
    refine ⟨?_, rfl⟩
    rw [projection, hValue, hTail]
    rfl

theorem length_projection (h : projection context expressions = some output) : output.length = expressions.length := by
  induction expressions generalizing output with
  | nil =>
    cases h
    rfl
  | cons expr expressions ih =>
    obtain ⟨value, -, h⟩ := Option.bind_eq_some_iff.mp h
    obtain ⟨rest, hRest, h⟩ := Option.bind_eq_some_iff.mp h
    cases h
    rw [List.length_cons, List.length_cons, ih hRest]

/-! ## Ordering -/

/-- What evaluation answers, with or without an error. -/
def answerOf (context : EvalContext) (expr : ExprPtr) : Option Value :=
  match evalPtr context expr .ok with
  | .done (value, _) => value
  | _ => none

theorem answerOf_of_valueOf {expr : ExprPtr} {value : Value} (h : valueOf context expr = some value) :
    answerOf context expr = some value := by
  rw [answerOf, valueOf_eq_some.mp h]

/-- The comparison of ORDER BY without the status object. -/
def lessBy (schema : Schema) (params : List Value) (ordering : List (ExprPtr × Bool)) (left right : Row) : Bool :=
  match ordering with
  | [] => false
  | (expr, descending) :: ordering =>
    match answerOf ⟨some schema, some left, params⟩ expr, answerOf ⟨some schema, some right, params⟩ expr with
    | some lv, some rv =>
      match lv.compare rv with
      | none => lessBy schema params ordering left right
      | some 0 => lessBy schema params ordering left right
      | some order => if descending then decide (order > 0) else decide (order < 0)
    | _, _ => false

/-- Every key of the row has a value. -/
def HasKeys (schema : Schema) (params : List Value) (ordering : List (ExprPtr × Bool)) (row : Row) : Prop :=
  ∀ key ∈ ordering, ∃ value, valueOf ⟨some schema, some row, params⟩ key.1 = some value

theorem sortsBefore_of_keys {schema : Schema} {params : List Value} {ordering : List (ExprPtr × Bool)} {left right : Row}
    (hLeft : HasKeys schema params ordering left) (hRight : HasKeys schema params ordering right) :
    sortsBefore schema params left right ordering .ok = .done (lessBy schema params ordering left right, .ok) := by
  induction ordering with
  | nil => rfl
  | cons key ordering ih =>
    obtain ⟨expr, descending⟩ := key
    obtain ⟨⟨lv, hLv⟩, hLeft⟩ := List.forall_mem_cons.mp hLeft
    obtain ⟨⟨rv, hRv⟩, hRight⟩ := List.forall_mem_cons.mp hRight
    have ih := ih hLeft hRight
    rw [sortsBefore, lessBy, answerOf_of_valueOf hLv, answerOf_of_valueOf hRv]
    change (evalPtr _ expr .ok >>= _) = _
    rw [valueOf_eq_some.mp hLv]
    change (evalPtr _ expr .ok >>= _) = _
    rw [valueOf_eq_some.mp hRv, Outcome.done_bind]
    dsimp only
    cases lv.compare rv with
    | none => exact ih
    | some order =>
      cases order with
      | ofNat n =>
        cases n with
        | zero => exact ih
        | succ n => rfl
      | negSucc n => rfl

section Sorting

variable {less : Row → Row → StatusM Bool} {less' : Row → Row → Bool} {rows : List Row}

theorem insertSorted_eq {row : Row} (h : ∀ other ∈ rows, less row other .ok = .done (less' row other, .ok)) :
    insertSorted less row rows .ok = .done (StableSort.insert less' row rows, .ok) := by
  induction rows with
  | nil => rfl
  | cons first rest ih =>
    obtain ⟨hFirst, hRest⟩ := List.forall_mem_cons.mp h
    rw [insertSorted, StableSort.insert]
    change (less row first .ok >>= _) = _
    rw [hFirst, Outcome.done_bind]
    dsimp only
    cases less' row first with
    | true => rfl
    | false =>
      change (insertSorted less row rest .ok >>= _) = _
      rw [ih hRest]
      rfl

theorem stableSort_eq (h : ∀ row ∈ rows, ∀ other ∈ rows, less row other .ok = .done (less' row other, .ok)) :
    stableSort less rows .ok = .done (StableSort.sort less' rows, .ok) := by
  have hFold : ∀ (rest sorted : List Row), (∀ row ∈ rest, row ∈ rows) → (∀ row ∈ sorted, row ∈ rows) →
      (rest.foldlM (fun sorted row => insertSorted less row sorted) sorted : StatusM (List Row)) .ok =
        .done (rest.foldl (fun sorted row => StableSort.insert less' row sorted) sorted, .ok) := by
    intro rest
    induction rest with
    | nil => exact fun _ _ _ => rfl
    | cons row rest ih =>
      intro sorted hRest hSorted
      have hRow := hRest row List.mem_cons_self
      rw [List.foldlM_cons, List.foldl_cons]
      change (insertSorted less row sorted .ok >>= _) = _
      rw [insertSorted_eq fun other hOther => h row hRow other (hSorted other hOther), Outcome.done_bind]
      refine ih _ (fun other hOther => hRest other (List.mem_cons_of_mem _ hOther)) fun other hOther => ?_
      obtain rfl | hOld := StableSort.mem_insert.mp hOther
      · exact hRow
      · exact hSorted other hOld
  exact hFold rows [] (fun _ h => h) fun _ h => by cases h

end Sorting

/-! ## The output loop -/

/-- The output loop on rows projected beforehand, `none` where it reaches a row that has no projection. -/
def emit (plan : SelectPlan) : List (Option Row) → OutputState → Option (List Row)
  | [], s => some s.rows
  | output :: candidates, s =>
    if s.skipped < plan.offset.toInt then emit plan candidates { s with skipped := s.skipped + 1 }
    else if 0 ≤ plan.limit.toInt ∧ plan.limit.toInt ≤ s.rows.length then some s.rows
    else do
      let output ← output
      if plan.distinct && s.seen.contains (distinctKey output) then emit plan candidates s
      else emit plan candidates { s with rows := s.rows ++ [output], seen := distinctKey output :: s.seen }

/-- The row of the table as the statement puts it out. -/
def SelectPlan.outputRow (plan : SelectPlan) (params : List Value) (row : Row) : Option Row :=
  projection ⟨some plan.table.schema, some row, params⟩ plan.outputs

variable {plan : SelectPlan} {params : List Value} {rows candidates : List Row} {s : OutputState}

theorem exec_outputLoop (h : emit plan (candidates.map (plan.outputRow params)) s = some rows) :
    exec (outputLoop plan params candidates s) .ok = .done (.ok rows, .ok) := by
  induction candidates generalizing s with
  | nil =>
    cases h
    rfl
  | cons row candidates ih =>
    rw [List.map_cons, emit] at h
    rw [outputLoop]
    by_cases hSkip : s.skipped < plan.offset.toInt
    · rw [if_pos hSkip] at h ⊢
      exact ih h
    · rw [if_neg hSkip] at h ⊢
      by_cases hFull : 0 ≤ plan.limit.toInt ∧ plan.limit.toInt ≤ s.rows.length
      · rw [if_pos hFull] at h ⊢
        cases h
        rfl
      · rw [if_neg hFull] at h ⊢
        obtain ⟨output, hOutput, h⟩ := Option.bind_eq_some_iff.mp h
        rw [exec_bind_ok (exec_project hOutput)]
        split at h
        · next hSeen =>
          rw [if_pos hSeen]
          exact ih h
        · next hNew =>
          rw [if_neg hNew]
          exact ih h

theorem outputLoop_ok (h : exec (outputLoop plan params candidates s) .ok = .done (.ok rows, status')) :
    emit plan (candidates.map (plan.outputRow params)) s = some rows := by
  induction candidates generalizing s with
  | nil =>
    cases h
    rfl
  | cons row candidates ih =>
    rw [List.map_cons, emit]
    rw [outputLoop] at h
    by_cases hSkip : s.skipped < plan.offset.toInt
    · rw [if_pos hSkip] at h ⊢
      exact ih h
    · rw [if_neg hSkip] at h ⊢
      by_cases hFull : 0 ≤ plan.limit.toInt ∧ plan.limit.toInt ≤ s.rows.length
      · rw [if_pos hFull] at h ⊢
        cases h
        rfl
      · rw [if_neg hFull] at h ⊢
        obtain ⟨output, mid, hProject, h⟩ := exec_bind_eq_ok h
        obtain ⟨hOutput, rfl⟩ := project_ok hProject
        rw [SelectPlan.outputRow, hOutput, Option.bind_eq_bind, Option.bind_some]
        split at h
        · next hSeen =>
          rw [if_pos hSeen]
          exact ih h
        · next hNew =>
          rw [if_neg hNew]
          exact ih h

/-! ## The statement -/

/-- The rows whose predicate is TRUE. -/
def SelectPlan.selected (plan : SelectPlan) (params : List Value) : List Row :=
  plan.table.rows.filter (fun row => isTrue ⟨some plan.table.schema, some row, params⟩ plan.predicate)

/-- The selected rows as ORDER BY leaves them. -/
def SelectPlan.sorted (plan : SelectPlan) (params : List Value) : List Row :=
  StableSort.sort (lessBy plan.table.schema params plan.ordering) (plan.selected params)

/-- Every key of every selected row has a value. -/
def SelectPlan.HasKeys (plan : SelectPlan) (params : List Value) : Prop :=
  ∀ row ∈ plan.selected params, Statement.HasKeys plan.table.schema params plan.ordering row

theorem stableSort_selected (hKeys : plan.HasKeys params) :
    stableSort (fun left right => sortsBefore plan.table.schema params left right plan.ordering) (plan.selected params) .ok =
      .done (plan.sorted params, .ok) :=
  stableSort_eq fun left hLeft right hRight => sortsBefore_of_keys (hKeys left hLeft) (hKeys right hRight)

/-- What a SELECT returns when it returns rows. -/
theorem selectRows_ok (hKeys : plan.HasKeys params) (h : exec (selectRows plan params) status = .done (.ok rows, status')) :
    emit plan ((plan.sorted params).map (plan.outputRow params)) {} = some rows := by
  obtain ⟨candidates, mid, hFilter, h⟩ := exec_bind_eq_ok h
  obtain ⟨sorted, mid', hSort, h⟩ := exec_bind_eq_ok h
  obtain ⟨hKept, rfl, hClear⟩ := filterRows_ok hFilter
  obtain ⟨_, hOk, hStable⟩ := exec_lift_done hSort
  cases hOk
  have hSelected : candidates = plan.selected params := by rw [hKept]; simp [SelectPlan.selected]
  subst hSelected
  by_cases hEmpty : plan.table.rows = []
  · have hNone : plan.selected params = [] := by rw [SelectPlan.selected, hEmpty, List.filter_nil]
    rw [hNone] at hStable
    cases hStable
    cases h
    rw [SelectPlan.sorted, hNone]
    rfl
  · obtain rfl := hClear hEmpty
    rw [stableSort_selected hKeys] at hStable
    cases hStable
    exact outputLoop_ok h

theorem exec_selectRows (hKeys : plan.HasKeys params)
    (hFilter : exec (filterRows plan.table.schema params plan.predicate true plan.table.rows) .ok = .done (.ok (plan.selected params), .ok))
    (h : emit plan ((plan.sorted params).map (plan.outputRow params)) {} = some rows) :
    exec (selectRows plan params) .ok = .done (.ok rows, .ok) := by
  have hSort : exec (liftM (stableSort (fun left right => sortsBefore plan.table.schema params left right plan.ordering)
      (plan.selected params)) : RowM (List Row)) .ok = .done (.ok (plan.sorted params), .ok) := by
    rw [exec_lift, stableSort_selected hKeys]
    rfl
  rw [selectRows, exec_bind_ok hFilter, exec_bind_ok hSort]
  exact exec_outputLoop h

end Statement

end TupleStone
