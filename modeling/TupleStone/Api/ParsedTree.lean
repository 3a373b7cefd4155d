import TupleStone.Api.Diagnostics

/-! # The trees that the parser builds

Every node has the arguments its kind asks for, and its operator is one the grammar knows or the text of an operator
token.
-/

set_option autoImplicit false

namespace TupleStone

open Flag

namespace Expr

def args : Expr → List ExprPtr
  | mk _ _ _ _ _ args => args

def op : Expr → Bytes
  | mk _ _ _ op _ _ => op

/-- The node is the root or one below it. -/
inductive Node : Expr → Expr → Prop where
  | root (expr : Expr) : Node expr expr
  | deeper {expr child node : Expr} (hChild : some child ∈ expr.args) (h : Node child node) : Node expr node

end Expr

/-! ## Trees are compared -/

mutual

def decEqExpr : (a b : Expr) → Decidable (a = b)
  | .mk kind literal name op index args, .mk kind' literal' name' op' index' args' =>
    have : Decidable (args = args') := decEqArgs args args'
    decidable_of_iff (kind = kind' ∧ literal = literal' ∧ name = name' ∧ op = op' ∧ index = index' ∧ args = args') (by simp)

def decEqPtr : (a b : ExprPtr) → Decidable (a = b)
  | none, none => .isTrue rfl
  | none, some _ => .isFalse nofun
  | some _, none => .isFalse nofun
  | some a, some b =>
    have : Decidable (a = b) := decEqExpr a b
    decidable_of_iff (a = b) (by simp)

def decEqArgs : (a b : List ExprPtr) → Decidable (a = b)
  | [], [] => .isTrue rfl
  | [], _ :: _ => .isFalse nofun
  | _ :: _, [] => .isFalse nofun
  | a :: as, b :: bs =>
    have : Decidable (a = b) := decEqPtr a b
    have : Decidable (as = bs) := decEqArgs as bs
    decidable_of_iff (a = b ∧ as = bs) (by simp)

end

instance : DecidableEq Expr := decEqExpr

/-! ## The grammar -/

/-- What the methods build from a token list. -/
inductive Formed (tokens : List Token) : ExprPtr → Prop where
  | null : Formed tokens none
  | literal (value : Value) : Formed tokens (some (.ofLiteral value))
  | column (name : Bytes) : Formed tokens (some (.ofColumn name))
  | parameter (index : Nat) : Formed tokens (some (.ofParameter index))
  | unary {op : Bytes} {arg : ExprPtr} (hOp : op ∈ Parser.unaryOperators) (hArg : Formed tokens arg) :
      Formed tokens (some (.unary op arg))
  | isNull (op : Bytes) {arg : ExprPtr} (hArg : Formed tokens arg) : Formed tokens (some (.isNull op arg))
  | binary {op : Bytes} {left right : ExprPtr}
      (hOp : op ∈ Parser.textOperators ∨ ∃ token ∈ tokens, token.kind = .kOperator ∧ token.text = op)
      (hLeft : Formed tokens left) (hRight : Formed tokens right) : Formed tokens (some (.binary op left right))
  | function (name : Bytes) {args : List ExprPtr} (hArgs : ∀ arg ∈ args, Formed tokens arg) :
      Formed tokens (some (.ofFunction name args))

namespace Parser

variable {tokens : List Token}

theorem honest_tokens {α : Type} {pre : Prop} {m : ParseM α} (h : ∀ p p' a, m p = .done (a, p') → p'.tokens = p.tokens) :
    Honest (fun p => p.tokens = tokens) pre m (fun _ => True) := fun p p' a hExec hTokens =>
  ⟨(h p p' a hExec).symm.trans hTokens, fun _ => trivial⟩

theorem accept_tokens {text : Bytes} {p p' : Parser} {accepted : Bool} (h : accept text p = .done (accepted, p')) :
    p'.tokens = p.tokens := by
  have hFlag : (if text = ascii ")" then p else { p with closedParen := false }).tokens = p.tokens := by split <;> rfl
  rw [accept] at h
  generalize (if text = ascii ")" then p else { p with closedParen := false }) = q at h hFlag
  split at h
  · cases h
  split at h
  · cases h
    exact hFlag
  split at h
  · cases h
    exact hFlag
  · cases h
    exact hFlag

theorem peek_token {p p' : Parser} {token : Token} (h : peek p = .done (token, p')) : p' = p ∧ token ∈ p.tokens := by
  rw [peek] at h
  split at h
  · rename_i hToken
    cases h
    exact ⟨rfl, List.mem_of_getElem? hToken⟩
  · cases h

theorem describes_formed (tokens : List Token) : Describes (fun p => p.tokens = tokens) (Formed tokens)
    (fun op => op ∈ textOperators ∨ ∃ token ∈ tokens, token.kind = .kOperator ∧ token.text = op) where
  peek p p' token hExec hTokens := by
    obtain ⟨rfl, hToken⟩ := peek_token hExec
    exact ⟨hTokens, fun _ hKind => Or.inr ⟨token, hTokens ▸ hToken, hKind, rfl⟩⟩
  advance := honest_tokens fun _ _ _ hExec => by cases hExec; rfl
  accept text := honest_tokens fun _ _ _ => accept_tokens
  expect text := by
    refine (honest_tokens fun _ _ _ => accept_tokens).bind fun accepted => honest_ite (fun _ => ?_) fun _ => ?_
    · refine honest_ite (fun _ => ?_) fun _ => honest_pure fun _ => Or.inl rfl
      exact (honest_tokens fun _ _ _ hExec => by cases hExec; rfl).bind fun _ => honest_pure fun _ => Or.inl rfl
    · exact (honest_tokens fun _ _ _ hExec => by cases hExec; rfl).bind fun _ => honest_pure fun _ => Or.inr .null
  fail status _ := (honest_tokens fun _ _ _ hExec => by cases hExec; rfl).weaken id fun _ _ _ => .null
  counted _ := id
  textOperator _ := Or.inl
  literal := .literal
  column := .column
  parameter := .parameter
  unary _ hOp _ := .unary hOp
  isNull op _ := .isNull op
  binary _ hOp _ _ := .binary hOp
  function name _ := .function name

theorem formed_of_expression {p p' : Parser} {value : ExprPtr} (h : expression p = .done (value, p')) :
    Formed p.tokens value := by
  obtain ⟨hTokens, hFormed⟩ := (describes_formed p'.tokens).expression p p' value h rfl
  have hSame : p.tokens = p'.tokens := hTokens
  rw [hSame]
  exact hFormed trivial

theorem whole_of_expression {p p' : Parser} {value : ExprPtr} (h : expression p = .done (value, p')) (hOk : p'.status = .ok) :
    Whole value := by
  have hReports : Reports True expression Whole := reports_expression
  exact (hReports p p' value h hOk).2 trivial

end Parser

variable {tokens : List Token} {expr node : Expr}

theorem Formed.args (h : Formed tokens (some expr)) {arg : ExprPtr} (hArg : arg ∈ expr.args) : Formed tokens arg := by
  cases h with
  | literal value => cases hArg
  | column name => cases hArg
  | parameter index => cases hArg
  | unary hOp hChild => exact List.mem_singleton.mp hArg ▸ hChild
  | isNull op hChild => exact List.mem_singleton.mp hArg ▸ hChild
  | binary hOp hLeft hRight =>
    obtain rfl | hRest := List.mem_cons.mp hArg
    · exact hLeft
    · exact List.mem_singleton.mp hRest ▸ hRight
  | function name hArgs => exact hArgs arg hArg

theorem Formed.of_node (h : Formed tokens (some expr)) (hNode : expr.Node node) : Formed tokens (some node) := by
  induction hNode with
  | root => exact h
  | deeper hChild _ ih => exact ih (h.args hChild)

theorem Whole.of_node (h : Whole (some expr)) (hNode : expr.Node node) : Whole (some node) := by
  induction hNode with
  | root => exact h
  | deeper hChild _ ih =>
    cases h with
    | mk hArgs => exact ih (hArgs _ hChild)

end TupleStone
