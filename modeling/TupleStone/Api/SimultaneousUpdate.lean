import TupleStone.Api.RowValues
import TupleStone.Api.FrontEnd
import Mathlib.Data.List.Induction

/-! # UPDATE is a map over the rows

The rows are overwritten one by one while the loop evaluates and validates. The other rows only decide whether the
statement goes on: what it stores for a row depends on the old values of that row.
-/

set_option autoImplicit false

namespace TupleStone

/-- The row in which the last assignment to each column takes its value on the old row. -/
def assignedRow (context : EvalContext) (assignments : List (Nat × ExprPtr)) (row : Row) : Row :=
  row.mapIdx (fun column old =>
    match assignments.reverse.lookup column with
    | none => old
    | some expr => (valueOf context expr).getD old)

namespace Statement

open Attempt

def UpdatePlan.context (plan : UpdatePlan) (params : List Value) (row : Row) : EvalContext :=
  ⟨some plan.table.schema, some row, params⟩

/-- What becomes of a row, whatever the other rows are. -/
def UpdatePlan.updatedRow (plan : UpdatePlan) (params : List Value) (row : Row) : Row :=
  if isTrue (plan.context params row) plan.predicate then assignedRow (plan.context params row) plan.assignments row
  else row

/-- Every assigned expression has a value on the old row. -/
def UpdatePlan.Evaluates (plan : UpdatePlan) (params : List Value) (row : Row) : Prop :=
  isTrue (plan.context params row) plan.predicate = true →
    ∀ assignment ∈ plan.assignments, ∃ value, valueOf (plan.context params row) assignment.2 = some value

/-! ## Assignments in order -/

/-- The assignments carried out from left to right. -/
def assignInOrder (context : EvalContext) (assignments : List (Nat × ExprPtr)) (row : Row) : Row :=
  assignments.foldl (fun next assignment =>
    match valueOf context assignment.2 with
    | none => next
    | some value => next.set assignment.1 value) row

variable {context : EvalContext} {assignments : List (Nat × ExprPtr)} {row next result : Row} {status status' : Status}

theorem assign_ok (h : exec (assign context assignments next) .ok = .done (.ok result, status')) :
    status' = .ok ∧ result = assignInOrder context assignments next ∧
      ∀ assignment ∈ assignments, ∃ value, valueOf context assignment.2 = some value := by
  induction assignments generalizing next with
  | nil =>
    cases h
    exact ⟨rfl, rfl, by simp⟩
  | cons assignment assignments ih =>
    obtain ⟨column, expr⟩ := assignment
    obtain ⟨-, value, hValue, h⟩ := checkedValue_ok h
    obtain ⟨hStatus, hResult, hRest⟩ := ih h
    refine ⟨hStatus, ?_, List.forall_mem_cons.mpr ⟨⟨value, hValue⟩, hRest⟩⟩
    rw [hResult, assignInOrder, assignInOrder, List.foldl_cons, hValue]

/-- Only the last assignment to a column counts. -/
theorem assignInOrder_eq (h : ∀ assignment ∈ assignments, ∃ value, valueOf context assignment.2 = some value) :
    assignInOrder context assignments row = assignedRow context assignments row := by
  induction assignments using List.reverseRecOn with
  | nil =>
    apply List.ext_getElem?
    simp [assignInOrder, assignedRow]
  | append_singleton assignments assignment ih =>
    obtain ⟨value, hValue⟩ := h assignment (by simp)
    have hBefore := ih (fun other hOther => h other (List.mem_append_left _ hOther))
    rw [assignInOrder] at hBefore
    rw [assignInOrder, List.foldl_concat, hBefore, hValue]
    apply List.ext_getElem?
    intro i
    rw [assignedRow, assignedRow, List.getElem?_set, List.getElem?_mapIdx, List.getElem?_mapIdx, List.reverse_concat,
      List.lookup_cons, List.length_mapIdx]
    by_cases hColumn : assignment.1 = i
    · subst hColumn
      rw [if_pos rfl, BEq.rfl]
      by_cases hLess : assignment.1 < row.length
      · rw [if_pos hLess, List.getElem?_eq_getElem hLess, Option.map_some]
        dsimp only
        rw [hValue, Option.getD_some]
      · rw [if_neg hLess, List.getElem?_eq_none (Nat.not_lt.mp hLess), Option.map_none]
    · have hOther : (i == assignment.1) = false := beq_eq_false_iff_ne.mpr (Ne.symm hColumn)
      rw [if_neg hColumn, hOther]

theorem updateRow_ok {plan : UpdatePlan} {params : List Value} {others : List Row}
    (h : exec (updateRow plan params others row) status = .done (.ok next, status')) :
    status' = .ok ∧ next = plan.updatedRow params row ∧ plan.Evaluates params row := by
  obtain ⟨selected, mid, hSelected, h⟩ := exec_bind_eq_ok h
  obtain ⟨rfl, rfl, rfl⟩ := selects_ok hSelected
  rw [UpdatePlan.updatedRow, UpdatePlan.Evaluates, UpdatePlan.context]
  split at h
  · next hTrue =>
    obtain ⟨assigned, mid, hAssigned, h⟩ := exec_bind_eq_ok h
    obtain ⟨valid, mid', hValid, h⟩ := exec_bind_eq_ok h
    obtain ⟨rfl, rfl, hEvaluates⟩ := assign_ok hAssigned
    obtain ⟨_, hOk, hLift⟩ := exec_lift_done hValid
    cases hOk
    obtain ⟨-, rfl⟩ := lift_done hLift
    split at h
    · cases h
      exact ⟨rfl, by rw [if_pos hTrue, assignInOrder_eq hEvaluates], fun _ => hEvaluates⟩
    · cases h
  · next hFalse =>
    cases h
    exact ⟨rfl, by rw [if_neg hFalse], fun hTrue => absurd hTrue hFalse⟩

/-- The rows visited are stored as they are; each of the rest is replaced by what its own values make of it. -/
theorem updateLoop_persist {plan : UpdatePlan} {params : List Value} {visited rest rows : List Row}
    (h : updateLoop plan params visited rest status = .done (.persist, rows)) :
    rows = visited ++ rest.map (plan.updatedRow params) ∧ ∀ row ∈ rest, plan.Evaluates params row := by
  induction rest generalizing visited status with
  | nil =>
    cases h
    exact ⟨by simp, by simp⟩
  | cons row rest ih =>
    obtain ⟨⟨x, status'⟩, hExec, h⟩ := Outcome.bind_eq_done h
    cases x with
    | error returned => cases h
    | ok next =>
      obtain ⟨-, rfl, hEvaluates⟩ := updateRow_ok hExec
      obtain ⟨rfl, hRest⟩ := ih h
      exact ⟨by simp, List.forall_mem_cons.mpr ⟨hEvaluates, hRest⟩⟩

theorem runUpdate_reply {tables tables' : Tables} {params : List Value} {p p' : Parser} {reply : Reply}
    (h : runUpdate tables params p = .done ((reply, tables'), p')) : reply = .persist ∨ reply.Failed := by
  obtain ⟨⟨x, q⟩, hExec, h⟩ := Outcome.bind_eq_done h
  cases x with
  | error returned =>
    cases h
    exact Or.inr ((ensures_updateHeader tables _ _ _ hExec).2 _ rfl)
  | ok plan =>
    obtain ⟨⟨reply', rows⟩, hLoop, h⟩ := Outcome.bind_eq_done h
    cases h
    exact (rewritten_updateLoop ((ensures_updateHeader tables _ _ _ hExec).1 plan rfl).2 hLoop).2

/-- The stored table after an UPDATE that reached its end. -/
theorem runUpdate_persist {tables tables' : Tables} {params : List Value} {p p' : Parser}
    (h : runUpdate tables params p = .done ((.persist, tables'), p')) :
    ∃ plan, exec (updateHeader tables) p = .done (.ok plan, p') ∧ tables.find? plan.name = some plan.table ∧
      tables' = tables.insert plan.name { plan.table with rows := plan.table.rows.map (plan.updatedRow params) } ∧
      ∀ row ∈ plan.table.rows, plan.Evaluates params row := by
  obtain ⟨⟨x, q⟩, hExec, h⟩ := Outcome.bind_eq_done h
  cases x with
  | error returned =>
    cases h
    exact absurd rfl ((ensures_updateHeader tables _ _ _ hExec).2 _ rfl).returned.1
  | ok plan =>
    obtain ⟨⟨reply, rows⟩, hLoop, h⟩ := Outcome.bind_eq_done h
    cases h
    obtain ⟨rfl, hEvaluates⟩ := updateLoop_persist hLoop
    exact ⟨plan, hExec, ((ensures_updateHeader tables _ _ _ hExec).1 plan rfl).1, rfl, hEvaluates⟩

theorem isCount_of_ne {sql command : Bytes} (h : command ≠ ascii "select") : isCount sql command = false := by
  rw [isCount, beq_eq_false_iff_ne.mpr h, Bool.false_and]

end Statement

open Statement

/-- An UPDATE that does not fail maps every row to what its own old values make of it. -/
theorem update_simultaneous {tables tables' : Tables} {sql : Bytes} {params : List Value} {first : Token} {rest : List Token}
    {reply : Reply} {p' : Parser} (hTokens : tokenize sql = .ok (first :: rest)) (hUpdate : first.text = ascii "update")
    (h : runStatement tables sql params = .done ((reply, tables'), p')) (hOk : ¬ reply.Failed) :
    ∃ plan q, Attempt.exec (updateHeader (refreshCatalog tables)) (.reading (first :: rest) 1) = .done (.ok plan, q) ∧
      (refreshCatalog tables).find? plan.name = some plan.table ∧
      tables' = (refreshCatalog tables).insert plan.name
        { plan.table with rows := plan.table.rows.map (plan.updatedRow params) } ∧
      ∀ row ∈ plan.table.rows, plan.Evaluates params row := by
  rw [runStatement_eq_runCommand hTokens (by rw [hUpdate]; decide) (isCount_of_ne (by rw [hUpdate]; decide)),
    runCommand_eq (by rw [hUpdate]; decide), if_neg (by rw [hUpdate]; decide), if_pos hUpdate] at h
  obtain rfl := (runUpdate_reply h).resolve_right hOk
  obtain ⟨plan, hHeader, hFound, hTables, hEvaluates⟩ := runUpdate_persist h
  exact ⟨plan, p', hHeader, hFound, hTables, hEvaluates⟩

/-- `CREATE TABLE t (a INTEGER, b INTEGER)` with two rows. -/
def pairTables : Tables :=
  OrderedMap.empty.insert (ascii "t")
    ⟨⟨[⟨ascii "a", .kInteger, true, false, false⟩, ⟨ascii "b", .kInteger, true, false, false⟩]⟩,
     [[.integer 1, .integer 2], [.integer 3, .null]]⟩

def swapSql : Bytes := ascii "UPDATE t SET a = b, b = a WHERE a = 1"

def swapCommand : Token := ⟨.kWord, ascii "update", 0⟩

theorem swapSql_tokens : ∃ rest, tokenize swapSql = .ok (swapCommand :: rest) := by
  have h : (match tokenize swapSql with
      | .ok tokens => tokens.head?
      | .error _ => none) = some swapCommand := by decide +kernel
  cases hTokens : tokenize swapSql with
  | error status => simp [hTokens] at h
  | ok tokens =>
    rw [hTokens] at h
    cases tokens with
    | nil => cases h
    | cons first rest =>
      cases h
      exact ⟨rest, rfl⟩

theorem swapSql_run : ∃ tables' p', runStatement pairTables swapSql [] = .done ((.persist, tables'), p') ∧
    (tables'.find? (ascii "t")).map Table.rows = some [[.integer 2, .integer 1], [.integer 3, .null]] := by
  have h : (runStatement pairTables swapSql []).value?.map
      (fun result => (result.1.1, (result.1.2.find? (ascii "t")).map Table.rows)) =
        some (.persist, some [[.integer 2, .integer 1], [.integer 3, .null]]) := by decide +kernel
  obtain ⟨⟨⟨reply, tables'⟩, p'⟩, hResult, hBoth⟩ := Option.map_eq_some_iff.mp h
  obtain ⟨rfl, hRows⟩ := Prod.mk.inj hBoth
  exact ⟨tables', p', Outcome.value?_eq_some.mp hResult, hRows⟩

/-- The columns are swapped in the selected row. -/
theorem swap_simultaneous : ∃ (tables' : Tables) (plan : UpdatePlan),
    (tables'.find? (ascii "t")).map Table.rows = some [[.integer 2, .integer 1], [.integer 3, .null]] ∧
      tables' = (refreshCatalog pairTables).insert plan.name
        { plan.table with rows := plan.table.rows.map (plan.updatedRow []) } := by
  obtain ⟨rest, hTokens⟩ := swapSql_tokens
  obtain ⟨tables', p', hRun, hRows⟩ := swapSql_run
  have hOk : ¬ Reply.persist.Failed := by
    rintro ⟨code, message, h⟩
    cases h
  obtain ⟨plan, -, -, -, hTables, -⟩ := update_simultaneous hTokens rfl hRun hOk
  exact ⟨tables', plan, hRows, hTables⟩

end TupleStone
