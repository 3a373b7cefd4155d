import TupleStone.Api.Eval
import TupleStone.Api.ParserResults
import TupleStone.Lib.Attempt

/-! # Every failure is in the status

The parser returns null and evaluation returns no value only after they have set the status object, and neither ever
resets it. An expression is whole when no pointer in it is null.
-/

set_option autoImplicit false

namespace TupleStone

open Flag

inductive Whole : ExprPtr → Prop where
  | mk {kind : ExprKind} {literal : Value} {name op : Bytes} {index : Nat} {args : List ExprPtr}
      (hArgs : ∀ arg ∈ args, Whole arg) : Whole (some (.mk kind literal name op index args))

theorem not_whole_none : ¬ Whole none := fun h => by cases h

theorem whole_leaf (kind : ExprKind) (literal : Value) (name op : Bytes) (index : Nat) :
    Whole (some (.mk kind literal name op index [])) := .mk (by simp)

theorem whole_unary {kind : ExprKind} {op : Bytes} {arg : ExprPtr} (h : Whole arg) :
    Whole (some (.mk kind .null [] op 0 [arg])) := .mk (by simpa using h)

theorem whole_args {kind : ExprKind} {literal : Value} {name op : Bytes} {index : Nat} {args : List ExprPtr}
    (h : Whole (some (.mk kind literal name op index args))) : ∀ arg ∈ args, Whole arg := by
  cases h with
  | mk hArgs => exact hArgs

theorem whole_binary {op : Bytes} {left right : ExprPtr} (h : Whole left) (h' : Whole right) :
    Whole (some (.binary op left right)) := .mk (by simpa using ⟨h, h'⟩)

namespace Parser

/-- Parsing code that reports its failures in the status. -/
abbrev Reports {α : Type} (pre : Prop) (m : ParseM α) (post : α → Prop) : Prop :=
  Honest (fun p : Parser => p.status = .ok) pre m post

variable {pre : Prop}

theorem reports_peek : Reports pre peek (fun _ => True) := by
  intro p p' token h hDown
  rw [peek] at h
  split at h
  · cases h
    exact ⟨hDown, fun _ => trivial⟩
  · cases h

theorem reports_advance : Reports pre advance (fun _ => True) := by
  rintro p p' _ ⟨⟩ hDown
  exact ⟨hDown, fun _ => trivial⟩

theorem reports_fail {status : Status} (h : status ≠ .ok) : Reports pre (fail status) (fun _ => False) := by
  refine honest_raised ?_
  rintro p p' _ ⟨⟩
  exact h

theorem accept_status {text : Bytes} {p p' : Parser} {accepted : Bool} (h : accept text p = .done (accepted, p')) :
    p'.status = p.status := by
  have hFlag : (if text = ascii ")" then p else { p with closedParen := false }).status = p.status := by split <;> rfl
  rw [accept] at h
  generalize (if text = ascii ")" then p else { p with closedParen := false }) = q at h hFlag
  split at h
  · cases h
  split at h
  · cases h
    exact hFlag
  split at h
  · cases h
    exact hFlag
  · cases h
    exact hFlag

theorem reports_accept (text : Bytes) : Reports pre (accept text) (fun _ => True) := fun _ _ _ h hDown =>
  ⟨(accept_status h).symm.trans hDown, fun _ => trivial⟩

theorem reports_modify {f : Parser → Parser} (h : ∀ p, (f p).status = p.status) :
    Reports pre (modify f : ParseM PUnit) (fun _ => True) := by
  rintro p p' _ ⟨⟩ hDown
  exact ⟨(h p).symm.trans hDown, fun _ => trivial⟩

/-- What was expected and is not there has been reported. -/
theorem reports_expect (text : Bytes) : Reports pre (expect text) (fun accepted => accepted = true) := by
  refine (reports_accept text).bind (fun accepted => honest_ite (fun _ => ?_) (fun _ => ?_))
  · refine honest_ite (fun _ => ?_) (fun _ => honest_pure (fun _ => rfl))
    exact (reports_modify (f := fun p => { p with closedParen := true }) (fun _ => rfl)).bind (fun _ => honest_pure (fun _ => rfl))
  · exact (reports_fail Status.noConfusion).bind (fun _ => honest_pure (fun hPre => hPre.2.elim))

theorem reports_identifier : Reports pre identifier (fun _ => True) := by
  refine reports_peek.bind (fun token => honest_ite (fun _ => ?_) (fun _ => ?_))
  · exact (reports_fail Status.noConfusion).bind (fun _ => honest_pure (fun _ => trivial))
  · exact reports_advance.bind (fun _ => honest_pure (fun _ => trivial))

theorem reports_get : Reports pre (get : ParseM Parser) (fun _ => True) := by
  rintro p p' _ ⟨⟩ hDown
  exact ⟨hDown, fun _ => trivial⟩

/-- A null pointer is not whole, so it is returned after a failure only. -/
theorem describes_whole : Describes (fun p => p.status = .ok) TupleStone.Whole (fun _ => True) where
  peek := reports_peek.weaken id fun _ _ _ _ => trivial
  advance := reports_advance
  accept := reports_accept
  expect text := (reports_expect text).weaken id fun _ _ => Or.inl
  fail status hStatus := (reports_fail hStatus).weaken id fun _ _ => False.elim
  counted _ := id
  textOperator _ _ := trivial
  literal value := whole_leaf _ value _ _ _
  column name := whole_leaf _ _ name _ _
  parameter index := whole_leaf _ _ _ _ index
  unary _ _ _ := whole_unary
  isNull _ _ := whole_unary
  binary _ _ _ _ := whole_binary
  function _ _ := .mk

/-- A status that is still ok after an expression was parsed means that the expression is whole. -/
theorem reports_expression : Reports pre expression TupleStone.Whole := honest_of_true describes_whole.expression

end Parser

namespace Eval

/-- Evaluation that reports in the status whenever it returns no value. -/
abbrev Reports (pre : Prop) (m : StatusM (Option Value)) : Prop :=
  Honest (fun status : Status => status = .ok) pre m (fun value => value.isSome)

variable {pre : Prop}

theorem reports_some (value : Value) : Reports pre (pure (some value)) := honest_pure (fun _ => rfl)

theorem reports_fail {status : Status} (h : status ≠ .ok) : Reports pre (fail status) := by
  refine honest_raised ?_
  rintro p p' _ ⟨⟩
  exact h

theorem reports_undefined : Reports pre undefined := by
  rintro s s' value ⟨⟩

theorem reports_integer (n : Int) : Reports pre (integer n) :=
  honest_ite (fun _ => reports_some _) (fun _ => reports_undefined)

theorem reports_parameter (context : EvalContext) (index : Nat) : Reports pre (parameter context index) := by
  rw [parameter]
  split
  · exact reports_some _
  · exact reports_fail Status.noConfusion

theorem reports_column (context : EvalContext) (name : Bytes) : Reports pre (column context name) := by
  rw [column]
  split
  · exact reports_some _
  · exact reports_fail Status.noConfusion

theorem reports_unary (op : Bytes) (value : Value) : Reports pre (unary op value) := by
  refine honest_ite (fun _ => ?_) (fun _ => ?_)
  · split
    · exact reports_some _
    · exact reports_some _
    · exact reports_fail Status.noConfusion
  · split
    · exact honest_ite (fun _ => reports_some _) (fun _ => reports_integer _)
    · exact reports_some _
    · exact reports_fail Status.noConfusion

theorem reports_function (name : Bytes) (value : Value) : Reports pre (function name value) := by
  refine honest_ite (fun hAbs => ?_) (fun _ => honest_ite (fun _ => reports_some _) (fun _ => honest_ite (fun _ => ?_) (fun _ => ?_)))
  · cases value with
    | integer n => exact honest_ite (fun _ => reports_integer _) (fun _ => reports_some _)
    | real x => exact reports_some _
    | null => simp [Value.type] at hAbs
    | boolean b => simp [Value.type] at hAbs
    | text s => simp [Value.type] at hAbs
    | blob b => simp [Value.type] at hAbs
  · split
    · exact reports_some _
    · exact reports_fail Status.noConfusion
  · exact reports_fail Status.noConfusion

theorem reports_logical (op : Bytes) (left right : Value) : Reports pre (logical op left right) := by
  refine honest_ite (fun _ => reports_fail Status.noConfusion) (fun _ => honest_ite (fun _ => ?_) (fun _ => ?_))
  · exact honest_ite (fun _ => reports_some _) (fun _ => reports_some _)
  · exact honest_ite (fun _ => reports_some _) (fun _ => reports_some _)

theorem reports_integerArithmetic (op : Bytes) (a b : Int64) : Reports pre (integerArithmetic op a b) := by
  refine honest_ite (fun _ => reports_integer _) (fun _ => honest_ite (fun _ => reports_integer _) (fun _ => ?_))
  refine honest_ite (fun _ => reports_integer _) (fun _ => ?_)
  exact honest_ite (fun _ => reports_undefined) (fun _ => reports_integer _)

theorem reports_arithmetic (op : Bytes) (left right : Value) : Reports pre (arithmetic op left right) := by
  rw [arithmetic]
  split
  · refine honest_ite (fun _ => reports_fail Status.noConfusion) (fun _ => ?_)
    split
    · exact honest_ite (fun _ => reports_some _) (fun _ => reports_integerArithmetic _ _ _)
    · exact reports_some _
  · exact reports_fail Status.noConfusion

theorem reports_like (value pattern : Bytes) :
    Honest (fun status : Status => status = .ok) pre (liftM (like value pattern) : StatusM Bool) (fun _ => True) := by
  intro s s' matched h hDown
  obtain ⟨-, rfl⟩ := Attempt.lift_done h
  exact ⟨hDown, fun _ => trivial⟩

theorem reports_none (h : ¬ pre) : Reports pre (pure none) := honest_pure (fun hPre => absurd hPre h)

theorem reports_binary (op : Bytes) (left right : Value) : Reports pre (binary op left right) := by
  refine honest_ite (fun _ => reports_logical _ _ _) (fun _ => honest_ite (fun _ => ?_) (fun _ => ?_))
  · split
    · exact reports_some _
    · exact reports_some _
  refine honest_ite (fun _ => honest_ite (fun _ => reports_some _) (fun _ => ?_)) (fun _ => honest_ite (fun _ => ?_) (fun _ => ?_))
  · split
    · exact (reports_like _ _).bind (fun _ => reports_some _)
    · exact reports_fail Status.noConfusion
  · split
    · exact reports_fail Status.noConfusion
    · exact reports_some _
  · exact reports_arithmetic _ _ _

end Eval

open Eval in
mutual

theorem reports_evalExpr (context : EvalContext) : ∀ expr, Eval.Reports (Whole (some expr)) (evalExpr context expr)
  | .mk .kLiteral literal _ _ _ _ => by
    rw [evalExpr]
    exact reports_some _
  | .mk .kColumn _ name _ index _ => by
    rw [evalExpr]
    exact honest_ite (fun _ => reports_parameter _ _) (fun _ => reports_column _ _)
  | .mk .kIsNull _ _ op _ args => by
    rw [evalExpr]
    refine ((reports_evalFirst context args).weaken whole_args (fun _ _ h => h)).bind (fun value => ?_)
    cases value with
    | none => exact Eval.reports_none (fun hPre => by cases hPre.2)
    | some value => exact reports_some _
  | .mk .kUnary _ _ op _ args => by
    rw [evalExpr]
    refine ((reports_evalFirst context args).weaken whole_args (fun _ _ h => h)).bind (fun value => ?_)
    cases value with
    | none => exact Eval.reports_none (fun hPre => by cases hPre.2)
    | some value => exact reports_unary _ _
  | .mk .kFunction literal name op index args => by
    rw [evalExpr]
    have hFirst : Eval.Reports (Whole (some (.mk .kFunction literal name op index args))) (evalFirst context args) :=
      (reports_evalFirst context args).weaken whole_args (fun _ _ h => h)
    refine honest_ite (fun _ => hFirst.bind (fun value => ?_)) (fun _ => ?_)
    · cases value with
      | none => exact reports_some _
      | some needle => cases needle <;> first
          | exact reports_some _
          | exact (reports_evalMembers context _ args).weaken (fun hPre => whole_args hPre.1) (fun _ _ h => h)
    · refine honest_ite (fun _ => (reports_evalCoalesce context args).weaken whole_args (fun _ _ h => h)) (fun _ => ?_)
      refine honest_ite (fun _ => Eval.reports_fail Status.noConfusion) (fun _ => hFirst.bind (fun value => ?_))
      cases value with
      | none => exact reports_some _
      | some value => cases value <;> first | exact reports_some _ | exact reports_function _ _
  | .mk .kBinary _ _ op _ args => by
    rw [evalExpr]
    refine ((reports_evalFirst context args).weaken whole_args (fun _ _ h => h)).bind (fun left => ?_)
    refine ((reports_evalSecond context args).weaken (fun hPre => whole_args hPre.1) (fun _ _ h => h)).bind (fun right => ?_)
    cases left with
    | none => exact Eval.reports_none (fun hPre => by cases hPre.1.2)
    | some left =>
      cases right with
      | none => exact Eval.reports_none (fun hPre => by cases hPre.2)
      | some right => exact reports_binary _ _ _

theorem reports_evalPtr (context : EvalContext) : ∀ expr, Eval.Reports (Whole expr) (evalPtr context expr)
  | none => by
    rw [evalPtr]
    exact Eval.reports_none not_whole_none
  | some expr => by
    rw [evalPtr]
    exact reports_evalExpr context expr

theorem reports_evalFirst (context : EvalContext) :
    ∀ args, Eval.Reports (∀ arg ∈ args, Whole arg) (evalFirst context args)
  | [] => by
    rw [evalFirst]
    exact reports_undefined
  | arg :: args => by
    rw [evalFirst]
    exact (reports_evalPtr context arg).weaken (fun h => h arg List.mem_cons_self) (fun _ _ h => h)

theorem reports_evalSecond (context : EvalContext) :
    ∀ args, Eval.Reports (∀ arg ∈ args, Whole arg) (evalSecond context args)
  | [] => by
    rw [evalSecond]
    · exact reports_undefined
    · simp
  | [arg] => by
    rw [evalSecond]
    · exact reports_undefined
    · simp
  | _ :: arg :: args => by
    rw [evalSecond]
    exact (reports_evalPtr context arg).weaken (fun h => h arg (by simp)) (fun _ _ h => h)

theorem reports_evalMembers (context : EvalContext) (needle : Value) :
    ∀ args, Eval.Reports (∀ arg ∈ args, Whole arg) (evalMembers context needle args)
  | [] => by
    rw [evalMembers]
    exact reports_some _
  | _ :: args => by
    rw [evalMembers]
    exact (reports_evalMember context needle args).weaken (fun h arg hArg => h arg (List.mem_cons_of_mem _ hArg))
      (fun _ _ h => h)

theorem reports_evalMember (context : EvalContext) (needle : Value) :
    ∀ args, Eval.Reports (∀ arg ∈ args, Whole arg) (evalMember context needle args)
  | [] => by
    rw [evalMember]
    exact reports_some _
  | arg :: args => by
    rw [evalMember]
    refine ((reports_evalPtr context arg).weaken (fun h => h arg List.mem_cons_self) (fun _ _ h => h)).bind (fun value => ?_)
    cases value with
    | none => exact Eval.reports_none (fun hPre => by cases hPre.2)
    | some candidate =>
      refine honest_ite (fun _ => reports_some _) (fun _ => ?_)
      exact (reports_evalMember context needle args).weaken (fun h arg hArg => h.1 arg (List.mem_cons_of_mem _ hArg))
        (fun _ _ h => h)

theorem reports_evalCoalesce (context : EvalContext) :
    ∀ args, Eval.Reports (∀ arg ∈ args, Whole arg) (evalCoalesce context args)
  | [] => by
    rw [evalCoalesce]
    exact reports_some _
  | arg :: args => by
    rw [evalCoalesce]
    refine ((reports_evalPtr context arg).weaken (fun h => h arg List.mem_cons_self) (fun _ _ h => h)).bind (fun value => ?_)
    have hRest : Eval.Reports ((∀ a ∈ arg :: args, Whole a) ∧ value.isSome) (evalCoalesce context args) :=
      (reports_evalCoalesce context args).weaken (fun h arg hArg => h.1 arg (List.mem_cons_of_mem _ hArg)) (fun _ _ h => h)
    cases value with
    | none => exact Eval.reports_none (fun hPre => by cases hPre.2)
    | some value => cases value <;> first | exact hRest | exact reports_some _

end

end TupleStone
