import TupleStone.Api.ParsedTree

/-! # Which arguments evaluation reads

`Eval` indexes the arguments of a node without asking how many there are. The nodes of a parsed tree have the arguments
that are read, but for `in()`, which the grammar takes for a call.
-/

set_option autoImplicit false

namespace TupleStone

namespace Eval

variable (context : EvalContext)

/-- Evaluation of the pointer returns. -/
def Yields (arg : ExprPtr) (value : Option Value) : Prop :=
  ∃ status status', evalPtr context arg status = .done (value, status')

/-- Evaluation of the node reads its argument of that index, whether or not it is there. -/
inductive Reads : Expr → Nat → Prop where
  | isNull {literal : Value} {name op : Bytes} {index : Nat} {args : List ExprPtr} :
      Reads (.mk .kIsNull literal name op index args) 0
  | unary {literal : Value} {name op : Bytes} {index : Nat} {args : List ExprPtr} :
      Reads (.mk .kUnary literal name op index args) 0
  | left {literal : Value} {name op : Bytes} {index : Nat} {args : List ExprPtr} :
      Reads (.mk .kBinary literal name op index args) 0
  | right {literal : Value} {name op : Bytes} {index : Nat} {args : List ExprPtr} {arg : ExprPtr} {value : Option Value}
      (hArg : args[0]? = some arg) (hLeft : Yields context arg value) : Reads (.mk .kBinary literal name op index args) 1
  | needle {literal : Value} {op : Bytes} {index : Nat} {args : List ExprPtr} :
      Reads (.mk .kFunction literal (ascii "in") op index args) 0
  -- the loop goes on while the candidates are values different from the needle
  | candidate {literal : Value} {op : Bytes} {index : Nat} {args : List ExprPtr} {arg : ExprPtr} {needle : Value} {i : Nat}
      (hArg : args[0]? = some arg) (hNeedle : Yields context arg (some needle)) (hNull : needle ≠ .null) (hPos : 0 < i)
      (hLt : i < args.length) (hBefore : ∀ j other, 0 < j → j < i → args[j]? = some other →
        ∃ candidate, Yields context other (some candidate) ∧ (needle.equals candidate).getD false = false) :
      Reads (.mk .kFunction literal (ascii "in") op index args) i
  | coalesce {literal : Value} {op : Bytes} {index : Nat} {args : List ExprPtr} {i : Nat} (hLt : i < args.length)
      (hBefore : ∀ j other, j < i → args[j]? = some other → Yields context other (some .null)) :
      Reads (.mk .kFunction literal (ascii "coalesce") op index args) i
  | argument {literal : Value} {name op : Bytes} {index : Nat} {args : List ExprPtr} (hIn : name ≠ ascii "in")
      (hCoalesce : name ≠ ascii "coalesce") (hArgs : args ≠ []) : Reads (.mk .kFunction literal name op index args) 0

/-- Evaluation of the first node comes to the second. -/
inductive Visits : Expr → Expr → Prop where
  | root (expr : Expr) : Visits expr expr
  | deeper {expr child node : Expr} {i : Nat} (hReads : Reads context expr i) (hChild : expr.args[i]? = some (some child))
      (h : Visits child node) : Visits expr node

/-- Whatever evaluation reads of the node is there. -/
def ArgumentsPresent (node : Expr) : Prop := ∀ i, Reads context node i → i < node.args.length

end Eval

namespace Expr

/-- The number of arguments of a node whose kind fixes it. -/
structure Arity (expr : Expr) : Prop where
  binary : expr.kind = .kBinary → expr.args.length = 2
  unary : expr.kind = .kUnary → expr.args.length = 1
  isNull : expr.kind = .kIsNull → expr.args.length = 1

/-- `in()` -/
def BareIn (expr : Expr) : Prop := expr.kind = .kFunction ∧ expr.name = ascii "in" ∧ expr.args = []

end Expr

open Eval

variable {tokens : List Token} {expr node : Expr} {context : EvalContext}

theorem Formed.arity (h : Formed tokens (some expr)) : expr.Arity := by
  cases h with
  | unary hOp hArg => exact ⟨nofun, fun _ => rfl, nofun⟩
  | isNull op hArg => exact ⟨nofun, nofun, fun _ => rfl⟩
  | binary hOp hLeft hRight => exact ⟨fun _ => rfl, nofun, nofun⟩
  | _ => exact ⟨nofun, nofun, nofun⟩

theorem Eval.Reads.inside_or_bareIn {i : Nat} (h : Reads context expr i) (hArity : expr.Arity) :
    i < expr.args.length ∨ expr.BareIn := by
  cases h with
  | isNull => exact Or.inl (hArity.isNull rfl ▸ Nat.one_pos)
  | unary => exact Or.inl (hArity.unary rfl ▸ Nat.one_pos)
  | left => exact Or.inl (hArity.binary rfl ▸ Nat.two_pos)
  | right hArg hLeft => exact Or.inl (hArity.binary rfl ▸ Nat.one_lt_two)
  | @needle literal op index args =>
    cases args with
    | nil => exact Or.inr ⟨rfl, rfl, rfl⟩
    | cons arg rest => exact Or.inl (Nat.succ_pos _)
  | candidate hArg hNeedle hNull hPos hLt hBefore => exact Or.inl hLt
  | coalesce hLt hBefore => exact Or.inl hLt
  | argument hIn hCoalesce hArgs => exact Or.inl (List.length_pos_iff.mpr hArgs)

theorem Expr.BareIn.not_argumentsPresent (h : expr.BareIn) : ¬ ArgumentsPresent context expr := by
  obtain ⟨hKind, hName, hArgs⟩ := h
  cases expr with
  | mk kind literal name op index args =>
    cases hKind
    cases hName
    cases hArgs
    exact fun hPresent => absurd (hPresent 0 .needle) (Nat.not_lt_zero 0)

theorem Formed.argumentsPresent_iff (h : Formed tokens (some expr)) : ArgumentsPresent context expr ↔ ¬ expr.BareIn := by
  constructor
  · exact fun hPresent hBare => hBare.not_argumentsPresent hPresent
  · exact fun hBare i hReads => (hReads.inside_or_bareIn h.arity).resolve_right hBare

/-- Evaluation stays in the tree. -/
theorem Eval.Visits.isNode (h : Visits context expr node) : expr.Node node := by
  induction h with
  | root expr => exact .root expr
  | deeper hReads hChild _ ih => exact .deeper (List.mem_of_getElem? hChild) ih

/-! ## Reading a missing argument is undefined -/

namespace Eval

/-- The code sets the status it is given or leaves it, whatever it is. -/
def Blind {α : Type} (m : StatusM α) : Prop :=
  ∃ result : Outcome (α × Option Status), ∀ status, m status = (fun r => (r.1, r.2.getD status)) <$> result

theorem blind_pure {α : Type} (a : α) : Blind (pure a : StatusM α) := ⟨.done (a, none), fun _ => rfl⟩

theorem blind_fail (status : Status) : Blind (fail status) := ⟨.done (none, some status), fun _ => rfl⟩

theorem blind_undefined {α : Type} : Blind (undefined : StatusM α) := ⟨.undefined, fun _ => rfl⟩

theorem blind_lift {α : Type} (x : Outcome α) : Blind (liftM x : StatusM α) :=
  ⟨(fun a => (a, none)) <$> x, fun _ => by cases x <;> rfl⟩

theorem Blind.bind {α β : Type} {m : StatusM α} {k : α → StatusM β} (hm : Blind m) (hk : ∀ a, Blind (k a)) :
    Blind (m >>= k) := by
  obtain ⟨result, hResult⟩ := hm
  choose rest hRest using hk
  refine ⟨result >>= fun r => (fun r' => (r'.1, r'.2.or r.2)) <$> rest r.1, fun status => ?_⟩
  change (m status >>= fun r => k r.1 r.2) = _
  rw [hResult]
  cases result with
  | done r =>
    change k r.1 (r.2.getD status) = _
    rw [hRest, Outcome.done_bind]
    cases rest r.1 with
    | done r' => cases hSet : r'.2 <;> simp [hSet]
    | undefined => rfl
    | outOfFuel => rfl
  | undefined => rfl
  | outOfFuel => rfl

theorem blind_integer (n : Int) : Blind (integer n) := by
  rw [integer]
  split
  · exact blind_pure _
  · exact blind_undefined

theorem blind_parameter (context : EvalContext) (index : Nat) : Blind (parameter context index) := by
  rw [parameter]
  split
  · exact blind_pure _
  · exact blind_fail _

theorem blind_column (context : EvalContext) (name : Bytes) : Blind (column context name) := by
  rw [column]
  split
  · exact blind_pure _
  · exact blind_fail _

theorem blind_ite {α : Type} {c : Prop} [Decidable c] {m n : StatusM α} (hm : Blind m) (hn : Blind n) :
    Blind (if c then m else n) := by
  split
  · exact hm
  · exact hn

theorem blind_unary (op : Bytes) (value : Value) : Blind (unary op value) := by
  apply blind_ite
  · cases value <;> first | exact blind_pure _ | exact blind_fail _
  · cases value with
    | integer n => exact blind_ite (blind_pure _) (blind_integer _)
    | real x => exact blind_pure _
    | _ => exact blind_fail _

theorem blind_function (name : Bytes) (value : Value) : Blind (function name value) := by
  apply blind_ite
  · cases value with
    | integer n => exact blind_ite (blind_integer _) (blind_pure _)
    | _ => exact blind_pure _
  apply blind_ite (blind_pure _)
  apply blind_ite
  · cases value <;> first | exact blind_pure _ | exact blind_fail _
  · exact blind_fail _

theorem blind_logical (op : Bytes) (left right : Value) : Blind (logical op left right) := by
  apply blind_ite (blind_fail _)
  exact blind_ite (blind_ite (blind_pure _) (blind_pure _)) (blind_ite (blind_pure _) (blind_pure _))

theorem blind_integerArithmetic (op : Bytes) (a b : Int64) : Blind (integerArithmetic op a b) := by
  apply blind_ite (blind_integer _)
  apply blind_ite (blind_integer _)
  apply blind_ite (blind_integer _)
  exact blind_ite blind_undefined (blind_integer _)

theorem blind_arithmetic (op : Bytes) (left right : Value) : Blind (arithmetic op left right) := by
  rw [arithmetic]
  split
  · apply blind_ite (blind_fail _)
    split
    · exact blind_ite (blind_pure _) (blind_integerArithmetic _ _ _)
    · exact blind_pure _
  · exact blind_fail _

theorem blind_binary (op : Bytes) (left right : Value) : Blind (binary op left right) := by
  apply blind_ite (blind_logical _ _ _)
  apply blind_ite
  · split <;> exact blind_pure _
  apply blind_ite
  · apply blind_ite (blind_pure _)
    split
    · exact (blind_lift _).bind fun _ => blind_pure _
    · exact blind_fail _
  apply blind_ite
  · split
    · exact blind_fail _
    · exact blind_pure _
  · exact blind_arithmetic _ _ _

end Eval

open Eval in
mutual

theorem blind_evalExpr (context : EvalContext) : ∀ expr, Blind (evalExpr context expr)
  | .mk .kLiteral literal _ _ _ _ => by
    rw [evalExpr]
    exact blind_pure _
  | .mk .kColumn _ name _ index _ => by
    rw [evalExpr]
    split
    · exact blind_parameter _ _
    · exact blind_column _ _
  | .mk .kIsNull _ _ op _ args => by
    rw [evalExpr]
    refine (blind_evalFirst context args).bind fun value => ?_
    cases value <;> exact blind_pure _
  | .mk .kUnary _ _ op _ args => by
    rw [evalExpr]
    refine (blind_evalFirst context args).bind fun value => ?_
    cases value with
    | none => exact blind_pure _
    | some value => exact blind_unary _ _
  | .mk .kFunction literal name op index args => by
    rw [evalExpr]
    split
    · refine (blind_evalFirst context args).bind fun value => ?_
      split
      · exact blind_pure _
      · exact blind_pure _
      · exact blind_evalMembers context _ args
    split
    · exact blind_evalCoalesce context args
    split
    · exact blind_fail _
    · refine (blind_evalFirst context args).bind fun value => ?_
      split
      · exact blind_pure _
      · exact blind_pure _
      · exact blind_function _ _
  | .mk .kBinary _ _ op _ args => by
    rw [evalExpr]
    refine (blind_evalFirst context args).bind fun left => (blind_evalSecond context args).bind fun right => ?_
    split
    · exact blind_binary _ _ _
    · exact blind_pure _

theorem blind_evalPtr (context : EvalContext) : ∀ arg, Blind (evalPtr context arg)
  | none => by
    rw [evalPtr]
    exact blind_pure _
  | some expr => by
    rw [evalPtr]
    exact blind_evalExpr context expr

theorem blind_evalFirst (context : EvalContext) : ∀ args, Blind (evalFirst context args)
  | [] => by
    rw [evalFirst]
    exact blind_undefined
  | arg :: args => by
    rw [evalFirst]
    exact blind_evalPtr context arg

theorem blind_evalSecond (context : EvalContext) : ∀ args, Blind (evalSecond context args)
  | [] => by
    rw [evalSecond]
    · exact blind_undefined
    · simp
  | [arg] => by
    rw [evalSecond]
    · exact blind_undefined
    · simp
  | _ :: arg :: args => by
    rw [evalSecond]
    exact blind_evalPtr context arg

theorem blind_evalMembers (context : EvalContext) (needle : Value) : ∀ args, Blind (evalMembers context needle args)
  | [] => by
    rw [evalMembers]
    exact blind_pure _
  | _ :: args => by
    rw [evalMembers]
    exact blind_evalMember context needle args

theorem blind_evalMember (context : EvalContext) (needle : Value) : ∀ args, Blind (evalMember context needle args)
  | [] => by
    rw [evalMember]
    exact blind_pure _
  | arg :: args => by
    rw [evalMember]
    refine (blind_evalPtr context arg).bind fun value => ?_
    split
    · exact blind_pure _
    · split
      · exact blind_pure _
      · exact blind_evalMember context needle args

theorem blind_evalCoalesce (context : EvalContext) : ∀ args, Blind (evalCoalesce context args)
  | [] => by
    rw [evalCoalesce]
    exact blind_pure _
  | arg :: args => by
    rw [evalCoalesce]
    refine (blind_evalPtr context arg).bind fun value => ?_
    split
    · exact blind_pure _
    · exact blind_evalCoalesce context args
    · exact blind_pure _

end

namespace Eval

def Undefined {α : Type} (m : StatusM α) : Prop := ∀ status, m status = .undefined

theorem Undefined.bind {α β : Type} {m : StatusM α} (h : Undefined m) (k : α → StatusM β) : Undefined (m >>= k) := by
  intro status
  change (m status >>= fun r => k r.1 r.2) = _
  rw [h]
  rfl

variable {args : List ExprPtr} {arg : ExprPtr} {value : Option Value} {status : Status}

theorem Yields.done (h : Yields context arg value) (status : Status) :
    ∃ status', evalPtr context arg status = .done (value, status') := by
  obtain ⟨result, hResult⟩ := blind_evalPtr context arg
  obtain ⟨before, after, hDone⟩ := h
  rw [hResult] at hDone
  obtain ⟨r, rfl, hPair⟩ := Outcome.map_eq_done hDone
  cases hPair
  exact ⟨r.2.getD status, by rw [hResult, Outcome.map_done]⟩

/-- After an argument that yields, evaluation goes on. -/
theorem Yields.bind_undefined {β : Type} (h : Yields context arg value) {k : Option Value → StatusM β}
    (hk : Undefined (k value)) : Undefined (evalPtr context arg >>= k) := by
  intro status
  obtain ⟨status', hDone⟩ := h.done status
  change (evalPtr context arg status >>= fun r => k r.1 r.2) = _
  rw [hDone]
  exact hk status'

/-- The argument of that index is missing, or its evaluation is undefined. -/
def UndefinedAt (context : EvalContext) (args : List ExprPtr) (i : Nat) : Prop :=
  ∀ arg, args[i]? = some arg → Undefined (evalPtr context arg)

theorem undefined_evalFirst (h : UndefinedAt context args 0) : Undefined (evalFirst context args) := by
  cases args with
  | nil =>
    rw [evalFirst]
    exact fun _ => rfl
  | cons arg rest =>
    rw [evalFirst]
    exact h arg rfl

theorem undefined_evalSecond (h : UndefinedAt context args 1) : Undefined (evalSecond context args) := by
  cases args with
  | nil =>
    rw [evalSecond]
    · exact fun _ => rfl
    · simp
  | cons first rest =>
    cases rest with
    | nil =>
      rw [evalSecond]
      · exact fun _ => rfl
      · simp
    | cons second rest =>
      rw [evalSecond]
      exact h second rfl

theorem evalFirst_of_head (hArg : args[0]? = some arg) : evalFirst context args = evalPtr context arg := by
  cases args with
  | nil => cases hArg
  | cons first rest =>
    cases hArg
    rw [evalFirst]

theorem undefined_evalMember {needle : Value} {i : Nat} (hLt : i < args.length) (h : UndefinedAt context args i)
    (hBefore : ∀ j other, j < i → args[j]? = some other →
      ∃ candidate, Yields context other (some candidate) ∧ (needle.equals candidate).getD false = false) :
    Undefined (evalMember context needle args) := by
  induction args generalizing i with
  | nil => exact absurd hLt (Nat.not_lt_zero i)
  | cons arg rest ih =>
    rw [evalMember]
    cases i with
    | zero => exact (h arg rfl).bind _
    | succ i =>
      obtain ⟨candidate, hYields, hDifferent⟩ := hBefore 0 arg (Nat.succ_pos i) rfl
      refine hYields.bind_undefined ?_
      simp only [hDifferent, Bool.false_eq_true, if_false]
      refine ih (Nat.lt_of_succ_lt_succ hLt) h fun j other hj hOther => ?_
      exact hBefore (j + 1) other (Nat.succ_lt_succ hj) hOther

theorem undefined_evalCoalesce {i : Nat} (hLt : i < args.length) (h : UndefinedAt context args i)
    (hBefore : ∀ j other, j < i → args[j]? = some other → Yields context other (some .null)) :
    Undefined (evalCoalesce context args) := by
  induction args generalizing i with
  | nil => exact absurd hLt (Nat.not_lt_zero i)
  | cons arg rest ih =>
    rw [evalCoalesce]
    cases i with
    | zero => exact (h arg rfl).bind _
    | succ i =>
      refine (hBefore 0 arg (Nat.succ_pos i) rfl).bind_undefined ?_
      refine ih (Nat.lt_of_succ_lt_succ hLt) h fun j other hj hOther => ?_
      exact hBefore (j + 1) other (Nat.succ_lt_succ hj) hOther

/-- A node is undefined where an argument that it reads is. -/
theorem Reads.undefined {i : Nat} (hReads : Reads context expr i) (h : UndefinedAt context expr.args i) :
    Undefined (evalExpr context expr) := by
  cases hReads with
  | isNull =>
    rw [evalExpr]
    exact (undefined_evalFirst h).bind _
  | unary =>
    rw [evalExpr]
    exact (undefined_evalFirst h).bind _
  | left =>
    rw [evalExpr]
    exact (undefined_evalFirst h).bind _
  | right hArg hLeft =>
    rw [evalExpr, evalFirst_of_head hArg]
    exact hLeft.bind_undefined ((undefined_evalSecond h).bind _)
  | needle =>
    rw [evalExpr, if_pos rfl]
    exact (undefined_evalFirst h).bind _
  | @candidate _ _ _ args arg needle i hArg hNeedle hNull hPos hLt hBefore =>
    rw [evalExpr, if_pos rfl, evalFirst_of_head hArg]
    refine hNeedle.bind_undefined ?_
    cases args with
    | nil => cases hArg
    | cons first rest =>
      obtain ⟨i, rfl⟩ := Nat.exists_eq_succ_of_ne_zero hPos.ne'
      have hMember : Undefined (evalMembers context needle (first :: rest)) := by
        rw [evalMembers]
        refine undefined_evalMember (Nat.lt_of_succ_lt_succ hLt) h fun j other hj hOther => ?_
        exact hBefore (j + 1) other (Nat.succ_pos j) (Nat.succ_lt_succ hj) hOther
      cases needle with
      | null => exact absurd rfl hNull
      | _ => exact hMember
  | coalesce hLt hBefore =>
    rw [evalExpr, if_neg (by decide), if_pos rfl]
    exact undefined_evalCoalesce hLt h hBefore
  | argument hIn hCoalesce hArgs =>
    rw [evalExpr, if_neg hIn, if_neg hCoalesce, if_neg (by rwa [List.isEmpty_iff])]
    exact (undefined_evalFirst h).bind _

theorem Visits.undefined (h : Visits context expr node) (hNode : Undefined (evalExpr context node)) :
    Undefined (evalExpr context expr) := by
  induction h with
  | root => exact hNode
  | deeper hReads hChild _ ih =>
    refine hReads.undefined fun arg hArg => ?_
    rw [hChild] at hArg
    cases hArg
    rw [evalPtr]
    exact ih hNode

/-- Evaluation that comes to a node without an argument that it reads leaves the defined behaviour. -/
theorem undefined_of_missing (h : Visits context expr node) (hMissing : ¬ ArgumentsPresent context node) :
    Undefined (evalExpr context expr) := by
  obtain ⟨i, hMissing⟩ := not_forall.mp hMissing
  obtain ⟨hReads, hLe⟩ := Classical.not_imp.mp hMissing
  refine h.undefined (hReads.undefined fun arg hArg => ?_)
  rw [List.getElem?_eq_none (Nat.not_lt.mp hLe)] at hArg
  cases hArg

end Eval

def bareCall : Parser :=
  { tokens := [⟨.kWord, ascii "in", 0⟩, ⟨.kPunctuation, ascii "(", 2⟩, ⟨.kPunctuation, ascii ")", 3⟩, ⟨.kEnd, [], 4⟩] }

theorem bareCall_parsed : Parser.expression bareCall = .done (some (.ofFunction (ascii "in") []), { bareCall with index := 3 }) := by
  decide +kernel

end TupleStone
