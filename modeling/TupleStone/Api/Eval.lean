import TupleStone.Api.Parser
import TupleStone.Api.Tables

/-! # Evaluation of expressions

`Eval` returns no value when it fails, with or without an error in the status object it is given. Signed overflow
and an argument that is not there are undefined.
-/

set_option autoImplicit false

namespace TupleStone

/-- Code that may set the status object it is given. -/
abbrev StatusM (α : Type) := StateT Status Outcome α

structure EvalContext where
  schema : Option Schema
  row : Option Row
  params : List Value

namespace Eval

def undefined {α : Type} : StatusM α := fun _ => .undefined

/-- Sets the status and returns no value. -/
def fail (status : Status) : StatusM (Option Value) := fun _ => .done (none, status)

def integer (n : Int) : StatusM (Option Value) :=
  if -2 ^ 63 ≤ n ∧ n < 2 ^ 63 then pure (some (.integer (Int64.ofInt n))) else undefined

def parameter (context : EvalContext) (index : Nat) : StatusM (Option Value) :=
  match context.params[index]? with
  | some value => pure (some value)
  | none => fail (.invalidArgument (ascii "unbound parameter"))

def column (context : EvalContext) (name : Bytes) : StatusM (Option Value) :=
  let found := context.schema.bind (fun schema => schema.find (lower name))
  match found.bind (fun index => context.row.bind (fun row => row[index]?)) with
  | some value => pure (some value)
  | none => fail (.notFound (ascii "unknown column '" ++ name ++ ascii "'"))

def unary (op : Bytes) (value : Value) : StatusM (Option Value) :=
  if op = ascii "not" then
    match value with
    | .null => pure (some .null)
    | .boolean b => pure (some (.boolean (!b)))
    | _ => fail (.typeError (ascii "NOT requires BOOLEAN"))
  else
    match value with
    | .integer n => if op = ascii "+" then pure (some (.integer n)) else integer (-n.toInt)
    | .real x => pure (some (.real (if op = ascii "+" then x else x.neg)))
    | _ => fail (.typeError (ascii "unary operator requires a number"))

/-- The functions other than `in` and `coalesce`, applied to their first argument. -/
def function (name : Bytes) (value : Value) : StatusM (Option Value) :=
  if name = ascii "abs" ∧ value.type = .kInteger ∨ name = ascii "abs" ∧ value.type = .kReal then
    match value with
    | .integer n => if n < 0 then integer (-n.toInt) else pure (some (.integer n))
    | .real x => pure (some (.real x.abs))
    | _ => pure none
  else if name = ascii "length" then pure (some (.integer (Int64.ofNat value.toString.length)))
  else if name = ascii "upper" ∨ name = ascii "lower" then
    match value with
    | .text s => pure (some (.text (if name = ascii "upper" then s.map toUpper else s.map toLower)))
    | _ => fail (.typeError (ascii "text function requires TEXT"))
  else fail (.notSupported (ascii "function '" ++ name ++ ascii "' is not implemented"))

def logical (op : Bytes) (left right : Value) : StatusM (Option Value) :=
  if left.type ≠ .kBoolean ∧ left.isNull = false ∨ right.type ≠ .kBoolean ∧ right.isNull = false then
    fail (.typeError (ascii "logical operator requires BOOLEAN"))
  else if op = ascii "and" then
    if left = .boolean false ∨ right = .boolean false then pure (some (.boolean false))
    else pure (some (if left.isNull || right.isNull then .null else .boolean true))
  else if left = .boolean true ∨ right = .boolean true then pure (some (.boolean true))
  else pure (some (if left.isNull || right.isNull then .null else .boolean false))

/-- The variables of the LIKE loop; `wildcard` is the last `%` passed, with the value index it stood for. -/
structure LikeState where
  valueIndex : Nat
  patternIndex : Nat
  wildcard : Option Nat
  wildcardValue : Nat

/-- The loop over the value, returning the pattern index it ends with, or `none` for a mismatch. -/
def likeLoop (value pattern : Bytes) : Nat → LikeState → Outcome (Option Nat)
  | 0, _ => .outOfFuel
  | fuel + 1, s =>
    match value[s.valueIndex]? with
    | none => .done (some s.patternIndex)
    | some c =>
      let p := pattern[s.patternIndex]?
      if p = some 95 ∨ p = some c then
        likeLoop value pattern fuel { s with patternIndex := s.patternIndex + 1, valueIndex := s.valueIndex + 1 }
      else if p = some 37 then
        likeLoop value pattern fuel
          { s with wildcard := some s.patternIndex, patternIndex := s.patternIndex + 1, wildcardValue := s.valueIndex }
      else
        match s.wildcard with
        | some wildcard =>
          likeLoop value pattern fuel
            ⟨s.wildcardValue + 1, wildcard + 1, some wildcard, s.wildcardValue + 1⟩
        | none => .done none

def likeBound (value pattern : Bytes) : Nat :=
  (value.length + 2) * (value.length + pattern.length + 2)

def like (value pattern : Bytes) : Outcome Bool := do
  match ← likeLoop value pattern (likeBound value pattern) ⟨0, 0, none, 0⟩ with
  | none => pure false
  | some index => pure ((pattern.drop index).all (· == 37))

def comparison (op : Bytes) (order : Int) : Bool :=
  if op = ascii "<" then decide (order < 0)
  else if op = ascii "<=" then decide (order ≤ 0)
  else if op = ascii ">" then decide (order > 0)
  else decide (order ≥ 0)

def realArithmetic (op : Bytes) (a b : Binary64) : Binary64 :=
  if op = ascii "+" then a.add b
  else if op = ascii "-" then a.sub b
  else if op = ascii "*" then a.mul b
  else a.div b

def integerArithmetic (op : Bytes) (a b : Int64) : StatusM (Option Value) :=
  if op = ascii "+" then integer (a.toInt + b.toInt)
  else if op = ascii "-" then integer (a.toInt - b.toInt)
  else if op = ascii "*" then integer (a.toInt * b.toInt)
  -- the remainder is undefined when the quotient is
  else if b = 0 ∨ a.toInt = -2 ^ 63 ∧ b = -1 then undefined
  else integer (a.toInt.tmod b.toInt)

def arithmetic (op : Bytes) (left right : Value) : StatusM (Option Value) :=
  match left.asDouble?, right.asDouble? with
  | some a, some b =>
    if (op = ascii "/" ∨ op = ascii "%") ∧ b.isZero then fail (.outOfRange (ascii "division by zero"))
    else
      match left, right with
      | .integer m, .integer n =>
        if op = ascii "/" then pure (some (.real (realArithmetic op a b))) else integerArithmetic op m n
      | _, _ => pure (some (.real (realArithmetic op a b)))
  | _, _ => fail (.typeError (ascii "arithmetic requires non-NULL numbers"))

def binary (op : Bytes) (left right : Value) : StatusM (Option Value) :=
  if op = ascii "and" ∨ op = ascii "or" then logical op left right
  else if op = ascii "=" ∨ op = ascii "==" ∨ op = ascii "!=" ∨ op = ascii "<>" then
    match left.equals right with
    | none => pure (some .null)
    | some equal => pure (some (.boolean (if op = ascii "=" ∨ op = ascii "==" then equal else !equal)))
  else if op = ascii "like" then
    if left.isNull || right.isNull then pure (some .null)
    else
      match left, right with
      | .text value, .text pattern => do
        let matched ← like value pattern
        pure (some (.boolean matched))
      | _, _ => fail (.typeError (ascii "LIKE requires TEXT values"))
  else if op = ascii "<" ∨ op = ascii "<=" ∨ op = ascii ">" ∨ op = ascii ">=" then
    match left.compare right with
    | none => fail (.typeError (ascii "values are not comparable"))
    | some order => pure (some (.boolean (comparison op order)))
  else arithmetic op left right

end Eval

open Eval in
mutual

def evalExpr (context : EvalContext) : Expr → StatusM (Option Value)
  | .mk .kLiteral literal _ _ _ _ => pure (some literal)
  | .mk .kColumn _ name _ index _ =>
    if name = ascii "?" then parameter context index else column context name
  | .mk .kIsNull _ _ op _ args => do
    match ← evalFirst context args with
    | none => pure none
    | some value => pure (some (.boolean (if op = ascii "is null" then value.isNull else !value.isNull)))
  | .mk .kUnary _ _ op _ args => do
    match ← evalFirst context args with
    | none => pure none
    | some value => unary op value
  | .mk .kFunction _ name _ _ args =>
    if name = ascii "in" then do
      match ← evalFirst context args with
      | none => pure (some .null)
      | some .null => pure (some .null)
      | some needle => evalMembers context needle args
    else if name = ascii "coalesce" then evalCoalesce context args
    else if args.isEmpty then fail (.invalidArgument (ascii "function requires an argument"))
    else do
      match ← evalFirst context args with
      | none => pure (some .null)
      | some .null => pure (some .null)
      | some value => function name value
  | .mk .kBinary _ _ op _ args => do
    let left ← evalFirst context args
    let right ← evalSecond context args
    match left, right with
    | some left, some right => binary op left right
    | _, _ => pure none

def evalPtr (context : EvalContext) : ExprPtr → StatusM (Option Value)
  | none => pure none
  | some expr => evalExpr context expr

/-- `Eval(args[0])` -/
def evalFirst (context : EvalContext) : List ExprPtr → StatusM (Option Value)
  | [] => undefined
  | arg :: _ => evalPtr context arg

/-- `Eval(args[1])` -/
def evalSecond (context : EvalContext) : List ExprPtr → StatusM (Option Value)
  | _ :: arg :: _ => evalPtr context arg
  | _ => undefined

/-- The loop of `in` over the arguments from the second on. -/
def evalMembers (context : EvalContext) (needle : Value) : List ExprPtr → StatusM (Option Value)
  | [] => pure (some (.boolean false))
  | _ :: args => evalMember context needle args

def evalMember (context : EvalContext) (needle : Value) : List ExprPtr → StatusM (Option Value)
  | [] => pure (some (.boolean false))
  | arg :: args => do
    match ← evalPtr context arg with
    | none => pure none
    | some candidate =>
      if (needle.equals candidate).getD false then pure (some (.boolean true)) else evalMember context needle args

def evalCoalesce (context : EvalContext) : List ExprPtr → StatusM (Option Value)
  | [] => pure (some .null)
  | arg :: args => do
    match ← evalPtr context arg with
    | none => pure none
    | some .null => evalCoalesce context args
    | some value => pure (some value)

end

def truthy : Value → Bool
  | .boolean b => b
  | _ => false

end TupleStone
