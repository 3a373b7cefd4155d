import TupleStone.Api.StatementWords

/-! # Expressions and predicates on a row

What a statement makes of a row whose expressions evaluate without an error, apart from the status object and the order
of evaluation.
-/

set_option autoImplicit false

namespace TupleStone

variable {context : EvalContext} {expr predicate : ExprPtr} {value : Value} {status status' : Status}

/-- What the expression evaluates to, if it does so without an error. -/
def valueOf (context : EvalContext) (expr : ExprPtr) : Option Value :=
  match evalPtr context expr .ok with
  | .done (value, .ok) => value
  | _ => none

theorem valueOf_eq_some : valueOf context expr = some value ↔ evalPtr context expr .ok = .done (some value, .ok) := by
  rw [valueOf]
  constructor
  · intro h
    split at h
    · next hEval => rw [hEval, h]
    · cases h
  · intro h
    rw [h]

/-- Evaluation that ends without an error began without one. -/
theorem evalPtr_clear {value : Option Value} (h : evalPtr context expr status = .done (value, .ok)) :
    status = .ok ∧ valueOf context expr = value := by
  have hDown : status = .ok := (reports_evalPtr context expr _ _ _ h rfl).1
  subst hDown
  exact ⟨rfl, by rw [valueOf, h]⟩

/-- The predicate, if there is one, is TRUE. -/
def isTrue (context : EvalContext) (predicate : ExprPtr) : Bool :=
  predicate.isNone || valueOf context predicate == some (.boolean true)

namespace Statement

open Attempt

/-! ## From the text to the statement -/

variable {tables : Tables} {sql : Bytes} {params : List Value} {first : Token} {rest : List Token}

theorem runStatement_eq_runCommand (hTokens : tokenize sql = .ok (first :: rest)) (hExplain : first.text ≠ ascii "explain")
    (hCount : isCount sql first.text = false) :
    runStatement tables sql params = runCommand (refreshCatalog tables) params (.reading (first :: rest) 0) := by
  rw [runStatement, run, hTokens]
  change (if first.text = ascii "explain" then _ else if isCount sql first.text = true then _ else _) = _
  rw [if_neg hExplain, if_neg (by rw [hCount]; exact Bool.false_ne_true)]
  rfl

/-- Behind a command word that is neither `create` nor `drop`, the statement of that word runs. -/
theorem runCommand_eq (hCommand : first.text ∈ [ascii "insert", ascii "update", ascii "delete", ascii "select"]) :
    runCommand tables params (.reading (first :: rest) 0) =
      (if first.text = ascii "insert" then runInsert tables params (.reading (first :: rest) 1)
      else if first.text = ascii "update" then runUpdate tables params (.reading (first :: rest) 1)
      else if first.text = ascii "delete" then runDelete tables params (.reading (first :: rest) 1)
      else runSelect tables params (.reading (first :: rest) 1)) := by
  have hPeekAt : ∀ offset, ∃ token, Parser.peekAt offset (.reading (first :: rest) 0) = .done (token, Parser.reading (first :: rest) 0) := by
    intro offset
    have hLess : min (0 + offset) ((first :: rest).length - 1) < (first :: rest).length := by
      rw [List.length_cons]
      omega
    refine ⟨(first :: rest).get ⟨_, hLess⟩, ?_⟩
    rw [Parser.peekAt, Parser.reading]
    dsimp only
    rw [List.getElem?_eq_getElem hLess]
    rfl
  obtain ⟨second, hSecond⟩ := hPeekAt 1
  obtain ⟨third, hThird⟩ := hPeekAt 2
  have hFirst : Parser.peek (.reading (first :: rest) 0) = .done (first, Parser.reading (first :: rest) 0) := rfl
  have hAccept : first.text ≠ ascii ")" →
      Parser.accept first.text (.reading (first :: rest) 0) = .done (true, .reading (first :: rest) 1) := by
    intro hText
    simp [Parser.accept, Parser.reading, hText]
  simp only [runCommand, hFirst, hSecond, hThird, Outcome.done_bind]
  simp only [List.mem_cons, List.not_mem_nil, or_false] at hCommand
  obtain hText | hText | hText | hText := hCommand <;> rw [hText] at hAccept ⊢ <;> rw [hAccept (by decide)] <;> rfl

/-! ## Rows -/

theorem checkRowStatus_ok {x : Unit} (h : exec checkRowStatus status = .done (.ok x, status')) :
    status = .ok ∧ status' = .ok := by
  change exec (if status = .ok then pure () else throw status : RowM Unit) status = _ at h
  split at h
  · next hOk =>
    cases h
    exact ⟨hOk, hOk⟩
  · cases h

theorem truthy_any (value : Option Value) : value.any truthy = (value == some (.boolean true)) := by
  cases value with
  | none => rfl
  | some value =>
    cases value with
    | boolean b => cases b <;> rfl
    | _ => rfl

theorem selects_ok {selected : Bool} (h : exec (selects context predicate) status = .done (.ok selected, status')) :
    status = .ok ∧ status' = .ok ∧ selected = isTrue context predicate := by
  obtain ⟨value, mid, hValue, h⟩ := exec_bind_eq_ok h
  obtain ⟨_, mid', hCheck, h⟩ := exec_bind_eq_ok h
  obtain ⟨rfl, rfl⟩ := checkRowStatus_ok hCheck
  cases h
  obtain ⟨_, hOk, hEval⟩ := exec_lift_done hValue
  cases hOk
  cases predicate with
  | none =>
    cases hEval
    exact ⟨rfl, rfl, rfl⟩
  | some expr =>
    obtain ⟨rfl, hValueOf⟩ := evalPtr_clear hEval
    exact ⟨rfl, rfl, by rw [truthy_any, isTrue, hValueOf]; rfl⟩

/-- The rows a predicate selects or leaves are those on which it is or is not TRUE. -/
theorem filterRows_ok {schema : Schema} {params : List Value} {wanted : Bool} {rows kept : List Row}
    (h : exec (filterRows schema params predicate wanted rows) status = .done (.ok kept, status')) :
    kept = rows.filter (fun row => isTrue ⟨some schema, some row, params⟩ predicate == wanted) ∧ status' = status ∧
      (rows ≠ [] → status = .ok) := by
  induction rows generalizing kept status status' with
  | nil =>
    cases h
    exact ⟨rfl, rfl, fun hRows => absurd rfl hRows⟩
  | cons row rows ih =>
    obtain ⟨selected, mid, hSelected, h⟩ := exec_bind_eq_ok h
    obtain ⟨rest, mid', hRest, h⟩ := exec_bind_eq_ok h
    obtain ⟨rfl, rfl, rfl⟩ := selects_ok hSelected
    obtain ⟨rfl, rfl, -⟩ := ih hRest
    cases h
    refine ⟨?_, rfl, fun _ => rfl⟩
    rw [List.filter_cons]
    split
    · next hWanted => rw [if_pos (beq_iff_eq.mpr hWanted)]
    · next hWanted => rw [if_neg (mt beq_iff_eq.mp hWanted)]

/-- An expression whose value is checked evaluates without an error. -/
theorem checkedValue_ok {α : Type} {k : Value → RowM α} {result : α}
    (h : exec (do
      let value ← (evalPtr context expr : StatusM (Option Value))
      checkRowStatus
      match value with
      | none => throw .ok
      | some value => k value : RowM α) status = .done (.ok result, status')) :
    status = .ok ∧ ∃ value, valueOf context expr = some value ∧ exec (k value) .ok = .done (.ok result, status') := by
  obtain ⟨value, mid, hValue, h⟩ := exec_bind_eq_ok h
  obtain ⟨_, mid', hCheck, h⟩ := exec_bind_eq_ok h
  obtain ⟨rfl, rfl⟩ := checkRowStatus_ok hCheck
  obtain ⟨_, hOk, hEval⟩ := exec_lift_done hValue
  cases hOk
  obtain ⟨rfl, hValueOf⟩ := evalPtr_clear hEval
  cases value with
  | none => cases h
  | some value => exact ⟨rfl, value, hValueOf, h⟩

end Statement

end TupleStone
