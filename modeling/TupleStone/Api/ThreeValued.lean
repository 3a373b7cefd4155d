import TupleStone.Api.IntegerArithmetic
import TupleStone.Api.RowValues
import TupleStone.Lib.Kleene

/-! # Three-valued logic

Conditions over columns, literals and parameters, with a reference meaning in which a comparison with NULL is unknown,
and what `Eval` makes of their trees.
-/

set_option autoImplicit false

namespace TupleStone

/-- UNKNOWN is the value NULL. -/
def Value.ofTruth : Kleene → Value
  | .no => .boolean false
  | .unknown => .null
  | .yes => .boolean true

/-- The truth value of a BOOLEAN or NULL. -/
def Value.truth : Value → Option Kleene
  | .null => some .unknown
  | .boolean b => some (.ofBool b)
  | _ => none

inductive Comparison where
  | eq
  | ne
  | lt
  | le
  | gt
  | ge
  deriving DecidableEq, Repr

namespace Comparison

def text : Comparison → Bytes
  | eq => ascii "="
  | ne => ascii "!="
  | lt => ascii "<"
  | le => ascii "<="
  | gt => ascii ">"
  | ge => ascii ">="

/-- Whether the comparison holds of operands that compare so. -/
def holds : Comparison → Int → Bool
  | eq, order => order == 0
  | ne, order => order != 0
  | lt, order => decide (order < 0)
  | le, order => decide (order ≤ 0)
  | gt, order => decide (0 < order)
  | ge, order => decide (0 ≤ order)

/-- The comparisons other than `=` and `!=`. -/
def isOrdering (op : Comparison) : Prop := op ≠ eq ∧ op ≠ ne

end Comparison

/-- A condition; a column whose name is `?` is a parameter. -/
inductive Condition where
  | literal (value : Value)
  | column (name : Bytes) (hName : name ≠ ascii "?")
  | parameter (index : Nat)
  | compare (op : Comparison) (left right : Condition)
  | isNull (arg : Condition)
  | isNotNull (arg : Condition)
  | not (arg : Condition)
  | and (left right : Condition)
  | or (left right : Condition)

namespace Condition

def toExpr : Condition → Expr
  | literal value => .ofLiteral value
  | column name _ => .ofColumn name
  | parameter index => .ofParameter index
  | compare op left right => .binary op.text (some left.toExpr) (some right.toExpr)
  | isNull arg => .isNull (ascii "is null") (some arg.toExpr)
  | isNotNull arg => .isNull (ascii "is not null") (some arg.toExpr)
  | not arg => .unary (ascii "not") (some arg.toExpr)
  | and left right => .binary (ascii "and") (some left.toExpr) (some right.toExpr)
  | or left right => .binary (ascii "or") (some left.toExpr) (some right.toExpr)

/-- A comparison is unknown with a NULL operand, and needs operands that compare otherwise. -/
def compared (op : Comparison) (left right : Value) : Option Value :=
  if left = .null ∨ right = .null then some .null else (left.compare right).map (fun order => .boolean (op.holds order))

def connected (connective : Kleene → Kleene → Kleene) (left right : Value) : Option Value := do
  let a ← left.truth
  let b ← right.truth
  pure (.ofTruth (connective a b))

/-- The reference value, `none` where an operand is missing or has not the type the operator needs. -/
def value (context : EvalContext) : Condition → Option Value
  | literal value => some value
  | column name _ => do
    let schema ← context.schema
    let row ← context.row
    let index ← schema.find (lower name)
    row[index]?
  | parameter index => context.params[index]?
  | compare op left right => do compared op (← left.value context) (← right.value context)
  | isNull arg => do pure (.boolean (decide ((← arg.value context) = .null)))
  | isNotNull arg => do pure (.boolean (decide ((← arg.value context) ≠ .null)))
  | not arg => do pure (.ofTruth (← (← arg.value context).truth).not)
  | and left right => do connected .and (← left.value context) (← right.value context)
  | or left right => do connected .or (← left.value context) (← right.value context)

/-- No ordering comparison has a NULL operand. -/
def OrdersKnown (context : EvalContext) : Condition → Prop
  | literal _ | column _ _ | parameter _ => True
  | compare op left right => left.OrdersKnown context ∧ right.OrdersKnown context ∧
      (op.isOrdering → left.value context ≠ some .null ∧ right.value context ≠ some .null)
  | isNull arg | isNotNull arg | not arg => arg.OrdersKnown context
  | and left right | or left right => left.OrdersKnown context ∧ right.OrdersKnown context

end Condition

namespace Eval

variable {context : EvalContext} {left right arg : Expr} {a b value : Value} {op : Bytes}

/-- An operator of operands that may have no value. -/
def binaryOf (op : Bytes) : Option Value → Option Value → StatusM (Option Value)
  | some a, some b => binary op a b
  | _, _ => pure none

def unaryOf (op : Bytes) : Option Value → StatusM (Option Value)
  | some value => unary op value
  | none => pure none

/-- Both operands are evaluated, whatever the first one comes to. -/
theorem evalExpr_binary {status mid status' : Status} {x y : Option Value}
    (hLeft : evalExpr context left status = .done (x, mid)) (hRight : evalExpr context right mid = .done (y, status')) :
    evalExpr context (.binary op (some left) (some right)) status = binaryOf op x y status' := by
  rw [Expr.binary, evalExpr, evalFirst, evalSecond, evalPtr, evalPtr, bind_of_done hLeft, bind_of_done hRight]
  cases x <;> cases y <;> rfl

theorem gives_binary (hLeft : Gives (evalExpr context left) a) (hRight : Gives (evalExpr context right) b)
    (h : Gives (binary op a b) value) : Gives (evalExpr context (.binary op (some left) (some right))) value :=
  fun status => (evalExpr_binary (hLeft status) (hRight status)).trans (h status)

theorem rejected_binary_left (hLeft : Rejected (evalExpr context left))
    (hRight : Rejected (evalExpr context right) ∨ Gives (evalExpr context right) b) :
    Rejected (evalExpr context (.binary op (some left) (some right))) := by
  intro status
  obtain ⟨failure, hFailure, hEval⟩ := hLeft status
  obtain hRight | hRight := hRight
  · obtain ⟨failure', hFailure', hEval'⟩ := hRight failure
    exact ⟨failure', hFailure', evalExpr_binary hEval hEval'⟩
  · exact ⟨failure, hFailure, evalExpr_binary hEval (hRight failure)⟩

theorem rejected_binary_right (hLeft : Gives (evalExpr context left) a) (hRight : Rejected (evalExpr context right)) :
    Rejected (evalExpr context (.binary op (some left) (some right))) := by
  intro status
  obtain ⟨failure, hFailure, hEval⟩ := hRight status
  exact ⟨failure, hFailure, evalExpr_binary (hLeft status) hEval⟩

theorem rejected_binary (hLeft : Gives (evalExpr context left) a) (hRight : Gives (evalExpr context right) b)
    (h : Rejected (binary op a b)) : Rejected (evalExpr context (.binary op (some left) (some right))) := by
  intro status
  obtain ⟨failure, hFailure, hBinary⟩ := h status
  exact ⟨failure, hFailure, (evalExpr_binary (hLeft status) (hRight status)).trans hBinary⟩

theorem evalExpr_unary {status status' : Status} {x : Option Value} (h : evalExpr context arg status = .done (x, status')) :
    evalExpr context (.unary op (some arg)) status = unaryOf op x status' := by
  rw [Expr.unary, evalExpr, evalFirst, evalPtr, bind_of_done h]
  cases x <;> rfl

theorem evalExpr_isNull {status status' : Status} {x : Option Value} (h : evalExpr context arg status = .done (x, status')) :
    evalExpr context (.isNull op (some arg)) status =
      .done (x.map (fun value => .boolean (if op = ascii "is null" then value.isNull else !value.isNull)), status') := by
  rw [Expr.isNull, evalExpr, evalFirst, evalPtr, bind_of_done h]
  cases x <;> rfl

/-- An operator that is not reached without a value of its operand. -/
theorem rejected_unary (h : Rejected (evalExpr context arg)) : Rejected (evalExpr context (.unary op (some arg))) := by
  intro status
  obtain ⟨failure, hFailure, hEval⟩ := h status
  exact ⟨failure, hFailure, evalExpr_unary hEval⟩

theorem rejected_isNull (h : Rejected (evalExpr context arg)) : Rejected (evalExpr context (.isNull op (some arg))) := by
  intro status
  obtain ⟨failure, hFailure, hEval⟩ := h status
  exact ⟨failure, hFailure, evalExpr_isNull hEval⟩

theorem compare_null (h : a = .null ∨ b = .null) : a.compare b = none := by
  obtain rfl | rfl := h
  · cases b <;> rfl
  · cases a <;> rfl

theorem gives_compared {op : Comparison} (h : Condition.compared op a b = some value)
    (hKnown : op.isOrdering → a ≠ .null ∧ b ≠ .null) : Gives (binary op.text a b) value := by
  intro status
  rw [Condition.compared] at h
  split at h
  · next hNull =>
    cases h
    have hOp : ¬ op.isOrdering := fun hOrdering => hNull.elim (hKnown hOrdering).1 (hKnown hOrdering).2
    have hEquals : a.equals b = none := by rw [Value.equals, compare_null hNull, Option.map_none]
    cases op with
    | eq | ne =>
      unfold binary
      rw [hEquals]
      rfl
    | lt | le | gt | ge => exact absurd ⟨Comparison.noConfusion, Comparison.noConfusion⟩ hOp
  · obtain ⟨order, hOrder, rfl⟩ := Option.map_eq_some_iff.mp h
    have hEquals : a.equals b = some (order == 0) := by rw [Value.equals, hOrder, Option.map_some]
    cases op with
    | eq | ne =>
      unfold binary
      rw [hEquals]
      rfl
    | lt | le | gt | ge =>
      unfold binary
      rw [hOrder]
      rfl

theorem rejected_ordering {op : Comparison} (hOp : op.isOrdering) (h : a = .null ∨ b = .null) :
    Rejected (binary op.text a b) := by
  cases op with
  | eq => exact absurd rfl hOp.1
  | ne => exact absurd rfl hOp.2
  | lt | le | gt | ge =>
    intro status
    refine ⟨.typeError (ascii "values are not comparable"), Status.noConfusion, ?_⟩
    unfold binary
    rw [compare_null h]
    rfl

theorem truth_eq_some {truth : Kleene} : value.truth = some truth ↔ value = .ofTruth truth := by
  cases value with
  | boolean b => cases b <;> cases truth <;> simp [Value.truth, Value.ofTruth, Kleene.ofBool]
  | _ => cases truth <;> simp [Value.truth, Value.ofTruth]

theorem gives_not (truth : Kleene) : Gives (unary (ascii "not") (.ofTruth truth)) (.ofTruth truth.not) := by
  cases truth <;> exact fun _ => rfl

theorem gives_and (a b : Kleene) : Gives (binary (ascii "and") (.ofTruth a) (.ofTruth b)) (.ofTruth (a.and b)) := by
  cases a <;> cases b <;> exact fun _ => rfl

theorem gives_or (a b : Kleene) : Gives (binary (ascii "or") (.ofTruth a) (.ofTruth b)) (.ofTruth (a.or b)) := by
  cases a <;> cases b <;> exact fun _ => rfl

/-- The evaluation gives the value or is rejected, depending on `known`. -/
def Settles (known : Prop) (m : StatusM (Option Value)) (value : Value) : Prop :=
  known ∧ Gives m value ∨ ¬ known ∧ Rejected m

theorem Settles.of_gives {known : Prop} {m : StatusM (Option Value)} (hKnown : known) (h : Gives m value) :
    Settles known m value := Or.inl ⟨hKnown, h⟩

theorem Settles.binary {known knownLeft knownRight knownHere : Prop} (hKnown : known ↔ knownLeft ∧ knownRight ∧ knownHere)
    (hLeft : Settles knownLeft (evalExpr context left) a) (hRight : Settles knownRight (evalExpr context right) b)
    (h : Settles knownHere (binary op a b) value) :
    Settles known (evalExpr context (.binary op (some left) (some right))) value := by
  obtain ⟨hKnownLeft, hLeft⟩ | ⟨hUnknown, hLeft⟩ := hLeft
  · obtain ⟨hKnownRight, hRight⟩ | ⟨hUnknown, hRight⟩ := hRight
    · obtain ⟨hKnownHere, h⟩ | ⟨hUnknown, h⟩ := h
      · exact Or.inl ⟨hKnown.mpr ⟨hKnownLeft, hKnownRight, hKnownHere⟩, gives_binary hLeft hRight h⟩
      · exact Or.inr ⟨fun hAll => hUnknown (hKnown.mp hAll).2.2, rejected_binary hLeft hRight h⟩
    · exact Or.inr ⟨fun hAll => hUnknown (hKnown.mp hAll).2.1, rejected_binary_right hLeft hRight⟩
  · refine Or.inr ⟨fun hAll => hUnknown (hKnown.mp hAll).1, rejected_binary_left (b := b) hLeft ?_⟩
    exact hRight.elim (fun h => Or.inr h.2) (fun h => Or.inl h.2)

theorem Settles.unary {known : Prop} (h : Settles known (evalExpr context arg) a) (hOp : Gives (unary op a) value) :
    Settles known (evalExpr context (.unary op (some arg))) value := by
  obtain ⟨hKnown, h⟩ | ⟨hUnknown, h⟩ := h
  · exact Or.inl ⟨hKnown, fun status => (evalExpr_unary (h status)).trans (hOp status)⟩
  · exact Or.inr ⟨hUnknown, rejected_unary h⟩

theorem Settles.isNull {known : Prop} (h : Settles known (evalExpr context arg) a) :
    Settles known (evalExpr context (.isNull op (some arg)))
      (.boolean (if op = ascii "is null" then a.isNull else !a.isNull)) := by
  obtain ⟨hKnown, h⟩ | ⟨hUnknown, h⟩ := h
  · exact Or.inl ⟨hKnown, fun status => evalExpr_isNull (h status)⟩
  · exact Or.inr ⟨hUnknown, rejected_isNull h⟩

end Eval

open Eval

variable {context : EvalContext}

theorem settles_compared {op : Comparison} {a b value : Value} (h : Condition.compared op a b = some value) :
    Settles (op.isOrdering → a ≠ .null ∧ b ≠ .null) (binary op.text a b) value := by
  by_cases hKnown : op.isOrdering → a ≠ .null ∧ b ≠ .null
  · exact Or.inl ⟨hKnown, gives_compared h hKnown⟩
  · obtain ⟨hOrdering, hNull⟩ := Classical.not_imp.mp hKnown
    exact Or.inr ⟨hKnown, rejected_ordering hOrdering ((not_and_or.mp hNull).imp not_not.mp not_not.mp)⟩

theorem gives_leaf {name : Bytes} (hName : name ≠ ascii "?") {value : Value}
    (h : (Condition.column name hName).value context = some value) : Gives (evalExpr context (.ofColumn name)) value := by
  intro status
  obtain ⟨schema, hSchema, h⟩ := Option.bind_eq_some_iff.mp h
  obtain ⟨row, hRow, h⟩ := Option.bind_eq_some_iff.mp h
  obtain ⟨index, hIndex, hValue⟩ := Option.bind_eq_some_iff.mp h
  rw [Expr.ofColumn, evalExpr, if_neg hName, column]
  simp only [hSchema, hRow, Option.bind_some, hIndex, hValue]
  rfl

theorem gives_parameter {index : Nat} {value : Value} (h : context.params[index]? = some value) :
    Gives (evalExpr context (.ofParameter index)) value := by
  intro status
  rw [Expr.ofParameter, evalExpr, if_pos rfl, parameter, h]
  rfl

/-- By induction on the condition: its tree evaluates to the reference value or fails, as the orderings in it tell. -/
theorem Condition.settles (c : Condition) {value : Value} (h : c.value context = some value) :
    Settles (c.OrdersKnown context) (evalExpr context c.toExpr) value := by
  induction c generalizing value with
  | literal literal =>
    cases h
    exact .of_gives trivial fun _ => rfl
  | column name hName => exact .of_gives trivial (gives_leaf hName h)
  | parameter index => exact .of_gives trivial (gives_parameter h)
  | compare op left right ihLeft ihRight =>
    obtain ⟨a, ha, h⟩ := Option.bind_eq_some_iff.mp h
    obtain ⟨b, hb, h⟩ := Option.bind_eq_some_iff.mp h
    refine (ihLeft ha).binary ?_ (ihRight hb) (settles_compared h)
    simp [OrdersKnown, ha, hb]
  | isNull arg ih =>
    obtain ⟨a, ha, h⟩ := Option.bind_eq_some_iff.mp h
    cases h
    have hSame : a.isNull = decide (a = .null) := by cases a <;> simp [Value.isNull]
    have hTest : Settles _ (evalExpr context (.isNull (ascii "is null") (some arg.toExpr))) (.boolean a.isNull) := (ih ha).isNull
    exact hSame ▸ hTest
  | isNotNull arg ih =>
    obtain ⟨a, ha, h⟩ := Option.bind_eq_some_iff.mp h
    cases h
    have hSame : (!a.isNull) = decide (a ≠ .null) := by cases a <;> simp [Value.isNull]
    have hTest : Settles _ (evalExpr context (.isNull (ascii "is not null") (some arg.toExpr))) (.boolean !a.isNull) := (ih ha).isNull
    exact hSame ▸ hTest
  | not arg ih =>
    obtain ⟨a, ha, h⟩ := Option.bind_eq_some_iff.mp h
    obtain ⟨truth, hTruth, h⟩ := Option.bind_eq_some_iff.mp h
    cases h
    obtain rfl := truth_eq_some.mp hTruth
    exact (ih ha).unary (gives_not truth)
  | and left right ihLeft ihRight =>
    obtain ⟨a, ha, h⟩ := Option.bind_eq_some_iff.mp h
    obtain ⟨b, hb, h⟩ := Option.bind_eq_some_iff.mp h
    obtain ⟨x, hx, h⟩ := Option.bind_eq_some_iff.mp h
    obtain ⟨y, hy, h⟩ := Option.bind_eq_some_iff.mp h
    cases h
    obtain rfl := truth_eq_some.mp hx
    obtain rfl := truth_eq_some.mp hy
    exact (ihLeft ha).binary (by simp [OrdersKnown]) (ihRight hb) (.of_gives trivial (gives_and x y))
  | or left right ihLeft ihRight =>
    obtain ⟨a, ha, h⟩ := Option.bind_eq_some_iff.mp h
    obtain ⟨b, hb, h⟩ := Option.bind_eq_some_iff.mp h
    obtain ⟨x, hx, h⟩ := Option.bind_eq_some_iff.mp h
    obtain ⟨y, hy, h⟩ := Option.bind_eq_some_iff.mp h
    cases h
    obtain rfl := truth_eq_some.mp hx
    obtain rfl := truth_eq_some.mp hy
    exact (ihLeft ha).binary (by simp [OrdersKnown]) (ihRight hb) (.of_gives trivial (gives_or x y))

/-- A condition has its reference value, and selects the row if that is TRUE, unless it orders a NULL. -/
theorem three_valued_iff {c : Condition} {value : Value} (h : c.value context = some value) :
    (evalExpr context c.toExpr .ok = .done (some value, .ok) ∧
      Attempt.exec (Statement.selects context (some c.toExpr)) .ok = .done (.ok (decide (value = .boolean true)), .ok)) ↔
    c.OrdersKnown context := by
  constructor
  · rintro ⟨hEval, -⟩
    obtain ⟨hKnown, -⟩ | ⟨-, hRejected⟩ := c.settles h
    · exact hKnown
    · obtain ⟨failure, -, hFailed⟩ := hRejected .ok
      rw [hFailed] at hEval
      cases hEval
  · intro hKnown
    have hGives := ((c.settles h).resolve_right (fun hNot => hNot.1 hKnown)).2
    refine ⟨hGives .ok, ?_⟩
    have hSelected : Attempt.exec (liftM (evalPtr context (some c.toExpr)) : RowM (Option Value)) .ok =
        .done (.ok (some value), .ok) := by
      rw [Attempt.exec_lift, evalPtr, hGives]
      rfl
    rw [Statement.selects, Attempt.exec_bind_ok hSelected]
    change Outcome.done (Except.ok ((some value).any truthy), Status.ok) = _
    rw [Statement.truthy_any]
    simp [Bool.beq_eq_decide_eq]

/-- A row with NULL, and a condition on it. -/
def nullContext : EvalContext := ⟨some ⟨[⟨ascii "a", .kInteger, true, false, false⟩]⟩, some [.null], []⟩

def nullEquals : Condition := .compare .eq (.column (ascii "a") (by decide)) (.literal (.integer 1))

theorem nullEquals_unknown :
    evalExpr nullContext nullEquals.toExpr .ok = .done (some .null, .ok) ∧
      Attempt.exec (Statement.selects nullContext (some nullEquals.toExpr)) .ok = .done (.ok false, .ok) := by
  have hValue : nullEquals.value nullContext = some .null := rfl
  exact (three_valued_iff hValue).mpr ⟨trivial, trivial, fun hOrdering => absurd rfl hOrdering.1⟩

/-- `a < 1` fails where `a` is NULL. -/
theorem null_ordering_fails : ¬ ∀ (context : EvalContext) (c : Condition) (value : Value), c.value context = some value →
    evalExpr context c.toExpr .ok = .done (some value, .ok) ∧
      Attempt.exec (Statement.selects context (some c.toExpr)) .ok = .done (.ok (decide (value = .boolean true)), .ok) := by
  intro h
  have hEval := (h nullContext (.compare .lt (.column (ascii "a") (by decide)) (.literal (.integer 1))) .null rfl).1
  have hFails : evalExpr nullContext
      (Condition.compare .lt (.column (ascii "a") (by decide)) (.literal (.integer 1))).toExpr .ok =
        .done (none, .typeError (ascii "values are not comparable")) := by rfl
  rw [hFails] at hEval
  cases hEval

end TupleStone
