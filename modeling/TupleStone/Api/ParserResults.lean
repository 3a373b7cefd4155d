import TupleStone.Api.Parser
import TupleStone.Lib.Flag

/-! # What every parsed tree satisfies

A property of trees that the constructors of the parser keep, and that the null pointer has unless a failure was
reported, holds of whatever a method returns.
-/

set_option autoImplicit false

namespace TupleStone

open Flag

namespace Parser

def unaryOperators : List Bytes := [ascii "not", ascii "-", ascii "+"]

/-- The operators that are recognized by their text, of whatever kind the token is. -/
def textOperators : List Bytes :=
  [ascii "or", ascii "and", ascii "like", ascii "+", ascii "-", ascii "*", ascii "/", ascii "%"]

/-- `down` says of a parser that no failure counts so far. -/
structure Describes (down : Parser → Prop) (P : ExprPtr → Prop) (isOperator : Bytes → Prop) : Prop where
  peek : Honest down True peek (fun token => token.kind = .kOperator → isOperator token.text)
  advance : Honest down True advance (fun _ => True)
  accept : ∀ text, Honest down True (accept text) (fun _ => True)
  expect : ∀ text, Honest down True (expect text) (fun accepted => accepted = true ∨ P none)
  fail : ∀ status, status ≠ .ok → Honest down True (fail status) (fun _ => P none)
  counted : ∀ p : Parser, down { p with parameterCount := p.parameterCount + 1 } → down p
  textOperator : ∀ op ∈ textOperators, isOperator op
  literal : ∀ value, P (some (.ofLiteral value))
  column : ∀ name, P (some (.ofColumn name))
  parameter : ∀ index, P (some (.ofParameter index))
  unary : ∀ op ∈ unaryOperators, ∀ arg, P arg → P (some (.unary op arg))
  isNull : ∀ op arg, P arg → P (some (.isNull op arg))
  binary : ∀ op, isOperator op → ∀ left right, P left → P right → P (some (.binary op left right))
  function : ∀ name args, (∀ arg ∈ args, P arg) → P (some (.ofFunction name args))

/-- What a method is given satisfies the property. -/
def Method.Holds (P : ExprPtr → Prop) : Method → Prop
  | .orLoop left => P left
  | .andLoop left => P left
  | .addLoop left => P left
  | .mulLoop left => P left
  | .inLoop args => ∀ arg ∈ args, P arg
  | .argumentLoop _ args => ∀ arg ∈ args, P arg
  | _ => True

def Describing (down : Parser → Prop) (P : ExprPtr → Prop) (call : Method → ParseM ExprPtr) : Prop :=
  ∀ method, Honest down (method.Holds P) (call method) P

section Bodies

variable {down : Parser → Prop} {P : ExprPtr → Prop} {isOperator : Bytes → Prop} {call : Method → ParseM ExprPtr}
variable {pre : Prop}

theorem honest_of_true {α : Type} {m : ParseM α} {post : α → Prop} (h : Honest down True m post) : Honest down pre m post :=
  h.weaken (fun _ => trivial) (fun _ _ h => h)

theorem Describing.of (h : Describing down P call) (method : Method) (hHolds : pre → method.Holds P) :
    Honest down pre (call method) P := (h method).weaken hHolds (fun _ _ h => h)

theorem holds_append {args : List ExprPtr} (h : ∀ arg ∈ args, P arg) {arg : ExprPtr} (hArg : P arg) :
    ∀ a ∈ args ++ [arg], P a := by
  intro a ha
  obtain hOld | hNew := List.mem_append.mp ha
  · exact h a hOld
  · exact List.mem_singleton.mp hNew ▸ hArg

/-- What was expected and is not there is a failure. -/
theorem honest_missing {accepted : Bool} (h : ¬ accepted = true) (hPre : pre → accepted = true ∨ P none) :
    Honest down pre (pure none : ParseM ExprPtr) P :=
  honest_pure fun hGiven => (hPre hGiven).resolve_left h

variable (hD : Describes down P isOperator) (hC : Describing down P call)

include hD hC

omit hD in
theorem honest_chain (first : Method) (loop : ExprPtr → Method) (hFirst : first.Holds P)
    (hLoop : ∀ left, P left → (loop left).Holds P) :
    Honest down pre (call first >>= fun left => call (loop left)) P :=
  (hC.of first fun _ => hFirst).bind fun left => hC.of (loop left) fun hPre => hLoop left hPre.2

theorem honest_wordLoop (left : ExprPtr) {word : Bytes} (hWord : word ∈ textOperators) (operand : Method)
    (loop : ExprPtr → Method) (hOperand : operand.Holds P) (hLoop : ∀ left, P left → (loop left).Holds P) :
    Honest down (P left) (do
      if left.isNone then pure left
      else if ← accept word then
        let right ← call operand
        call (loop (some (.binary word left right)))
      else pure left) P := by
  refine honest_ite (fun _ => honest_pure id) fun _ => ?_
  refine (honest_of_true (hD.accept word)).bind fun accepted => honest_ite (fun _ => ?_) fun _ => honest_pure fun hPre => hPre.1
  refine (hC.of operand fun _ => hOperand).bind fun right => hC.of (loop _) fun hPre => hLoop _ ?_
  exact hD.binary word (hD.textOperator word hWord) left right hPre.1.1 hPre.2

theorem honest_tokenLoop (left : ExprPtr) (isText : Token → Prop) [DecidablePred isText]
    (hText : ∀ token, isText token → token.text ∈ textOperators) (operand : Method) (loop : ExprPtr → Method)
    (hOperand : operand.Holds P) (hLoop : ∀ left, P left → (loop left).Holds P) :
    Honest down (P left) (do
      let token ← peek
      if isText token then
        advance
        let right ← call operand
        call (loop (some (.binary token.text left right)))
      else pure left) P := by
  refine (honest_of_true hD.peek).bind fun token => honest_ite (fun hToken => ?_) fun _ => honest_pure fun hPre => hPre.1
  refine (honest_of_true hD.advance).bind fun _ => (hC.of operand fun _ => hOperand).bind fun right => ?_
  refine hC.of (loop _) fun hPre => hLoop _ ?_
  exact hD.binary token.text (hD.textOperator _ (hText token hToken)) left right hPre.1.1.1 hPre.2

omit hC in
theorem honest_parseIs {left : ExprPtr} (h : pre → P left) : Honest down pre (parseIs left) P := by
  refine (honest_of_true (hD.accept _)).bind fun negated => (honest_of_true (hD.expect _)).bind fun accepted => ?_
  refine honest_ite (fun _ => ?_) fun hMissing => honest_missing hMissing fun hPre => hPre.2
  exact honest_pure fun hPre => hD.isNull _ left (h hPre.1.1)

theorem honest_parseCompare : Honest down pre (parseCompare call) P := by
  refine (hC.of .parseLike fun _ => trivial).bind fun left => ?_
  refine honest_ite (fun hNone => ?_) fun _ => ?_
  · rw [Option.isNone_iff_eq_none.mp hNone]
    exact honest_pure fun hPre => hPre.2
  refine (honest_of_true hD.peek).bind fun token => honest_ite (fun hOperator => ?_) fun _ => honest_pure fun hPre => hPre.1.2
  refine (honest_of_true hD.advance).bind fun _ => honest_ite (fun _ => honest_parseIs hD fun hPre => hPre.1.1.2) fun hIs => ?_
  refine honest_ite (fun _ => ?_) fun hIn => ?_
  · refine (honest_of_true (hD.expect _)).bind fun accepted => honest_ite (fun _ => ?_) fun hMissing => ?_
    · exact hC.of (.inLoop [left]) fun hPre arg hArg => List.mem_singleton.mp hArg ▸ hPre.1.1.1.2
    · exact honest_missing hMissing fun hPre => hPre.2
  · have hKind : token.kind = .kOperator := by
      obtain hKind | hText | hText := hOperator
      · exact hKind
      · exact absurd hText hIs
      · exact absurd hText hIn
    refine (hC.of .parseAdd fun _ => trivial).bind fun right => honest_pure fun hPre => ?_
    exact hD.binary token.text (hPre.1.1.2 hKind) left right hPre.1.1.1.2 hPre.2

theorem honest_inLoop (args : List ExprPtr) : Honest down (∀ arg ∈ args, P arg) (inLoop call args) P := by
  refine (honest_of_true (hD.accept _)).bind fun closed => honest_ite (fun _ => ?_) fun _ => ?_
  · exact honest_pure fun hPre => hD.function _ args hPre.1
  refine (hC.of .parseOr fun _ => trivial).bind fun arg => (honest_of_true (hD.accept _)).bind fun comma => ?_
  refine honest_ite (fun _ => ?_) fun _ => ?_
  · exact hC.of (.inLoop _) fun hPre => holds_append hPre.1.1.1 hPre.1.2
  refine (honest_of_true (hD.expect _)).bind fun accepted => honest_ite (fun _ => ?_) fun hMissing => ?_
  · exact hC.of (.inLoop _) fun hPre => holds_append hPre.1.1.1.1 hPre.1.1.2
  · exact honest_missing hMissing fun hPre => hPre.2

theorem honest_parseLike : Honest down pre (parseLike call) P := by
  refine (hC.of .parseAdd fun _ => trivial).bind fun left => ?_
  refine honest_ite (fun _ => honest_pure fun hPre => hPre.2) fun _ => (honest_of_true (hD.accept _)).bind fun accepted => ?_
  refine honest_ite (fun _ => ?_) fun _ => honest_pure fun hPre => hPre.1.2
  refine (hC.of .parseAdd fun _ => trivial).bind fun right => honest_pure fun hPre => ?_
  exact hD.binary _ (hD.textOperator _ (by decide)) left right hPre.1.1.2 hPre.2

omit hC in
theorem honest_unaryOperator : Honest down pre unaryOperator (fun op => ∀ text, op = some text → text ∈ unaryOperators) := by
  refine (honest_of_true (hD.accept _)).bind fun _ => honest_ite (fun _ => honest_pure fun _ => ?_) fun _ => ?_
  · exact fun _ hText => Option.some.inj hText ▸ by decide
  refine (honest_of_true (hD.accept _)).bind fun _ => honest_ite (fun _ => honest_pure fun _ => ?_) fun _ => ?_
  · exact fun _ hText => Option.some.inj hText ▸ by decide
  refine (honest_of_true (hD.accept _)).bind fun _ => honest_ite (fun _ => honest_pure fun _ => ?_) fun _ => ?_
  · exact fun _ hText => Option.some.inj hText ▸ by decide
  · exact honest_pure fun _ _ hText => by cases hText

theorem honest_parseUnary : Honest down pre (parseUnary call) P := by
  refine (honest_unaryOperator hD).bind fun op => ?_
  cases op with
  | some op =>
    refine (hC.of .parseUnary fun _ => trivial).bind fun arg => honest_pure fun hPre => ?_
    exact hD.unary op (hPre.1.2 op rfl) arg hPre.2
  | none => exact hC.of .parsePrimary fun _ => trivial

omit hC in
theorem honest_parseNumber (text : Bytes) : Honest down pre (parseNumber text) P := by
  refine (honest_of_true hD.advance).bind fun _ => ?_
  cases numericLiteral text with
  | some value => exact honest_pure fun _ => hD.literal value
  | none => exact (honest_of_true (hD.fail _ Status.noConfusion)).bind fun _ => honest_pure fun hPre => hPre.2

omit hC in
theorem honest_parseParameter : Honest down pre parseParameter P := by
  refine (honest_of_true hD.advance).bind fun _ => ?_
  rintro p p' expr ⟨⟩ hDown
  exact ⟨hD.counted p hDown, fun _ => hD.parameter _⟩

omit hC in
theorem honest_identifier : Honest down pre identifier (fun _ => True) := by
  refine (honest_of_true hD.peek).bind fun token => honest_ite (fun _ => ?_) fun _ => ?_
  · exact (honest_of_true (hD.fail _ Status.noConfusion)).bind fun _ => honest_pure fun _ => trivial
  · exact (honest_of_true hD.advance).bind fun _ => honest_pure fun _ => trivial

omit hC in
theorem honest_qualifiedName (name : Bytes) : Honest down pre (qualifiedName name) (fun _ => True) := by
  refine (honest_of_true (hD.accept _)).bind fun _ => honest_ite (fun _ => ?_) fun _ => honest_pure fun _ => trivial
  exact (honest_identifier hD).bind fun _ => honest_pure fun _ => trivial

theorem honest_parseWord : Honest down pre (parseWord call) P := by
  refine (honest_identifier hD).bind fun name => honest_ite (fun _ => honest_pure fun _ => hD.literal _) fun _ => ?_
  refine honest_ite (fun _ => honest_pure fun _ => hD.literal _) fun _ => ?_
  refine (honest_qualifiedName hD name).bind fun name => (honest_of_true (hD.accept _)).bind fun opened => ?_
  refine honest_ite (fun _ => ?_) fun _ => honest_pure fun _ => hD.column _
  refine (honest_of_true (hD.accept _)).bind fun closed => honest_ite (fun _ => ?_) fun _ => ?_
  · exact honest_pure fun _ => hD.function _ [] (by simp)
  · exact hC.of (.argumentLoop name []) fun _ => by simp [Method.Holds]

theorem honest_parsePrimary : Honest down pre (parsePrimary call) P := by
  refine (honest_of_true (hD.accept _)).bind fun opened => honest_ite (fun _ => ?_) fun _ => ?_
  · refine (hC.of .parseOr fun _ => trivial).bind fun value => (honest_of_true (hD.expect _)).bind fun accepted => ?_
    refine honest_ite (fun _ => honest_pure fun hPre => hPre.1.2) fun hMissing => ?_
    exact honest_missing hMissing fun hPre => hPre.2
  refine (honest_of_true hD.peek).bind fun token => ?_
  have hOther : ∀ {pre : Prop}, Honest down pre (do
      fail (.syntaxError (ascii "expected expression"))
      pure (none : ExprPtr)) P :=
    (honest_of_true (hD.fail _ Status.noConfusion)).bind fun _ => honest_pure fun hPre => hPre.2
  cases token.kind with
  | kNumber => exact honest_parseNumber hD _
  | kString => exact (honest_of_true hD.advance).bind fun _ => honest_pure fun _ => hD.literal _
  | kParameter => exact honest_parseParameter hD
  | kWord => exact honest_parseWord hD hC
  | kOperator => exact hOther
  | kPunctuation => exact hOther
  | kEnd => exact hOther

theorem honest_argument : Honest down pre (argument call) P := by
  refine (honest_of_true (hD.accept _)).bind fun _ => honest_ite (fun _ => ?_) fun _ => ?_
  · exact honest_pure fun _ => hD.column _
  · exact hC.of .parseOr fun _ => trivial

theorem honest_argumentLoop (name : Bytes) (args : List ExprPtr) :
    Honest down (∀ arg ∈ args, P arg) (argumentLoop call name args) P := by
  refine (honest_argument hD hC).bind fun arg => (honest_of_true (hD.accept _)).bind fun closed => ?_
  refine honest_ite (fun _ => ?_) fun _ => ?_
  · exact honest_pure fun hPre => hD.function name _ (holds_append hPre.1.1 hPre.1.2)
  refine (honest_of_true (hD.expect _)).bind fun comma => honest_ite (fun _ => ?_) fun hMissing => ?_
  · exact hC.of (.argumentLoop name _) fun hPre => holds_append hPre.1.1.1 hPre.1.1.2
  · exact honest_missing hMissing fun hPre => hPre.2

theorem describing_body : Describing down P (body call) := by
  have hAdd : ∀ token : Token, token.text = ascii "+" ∨ token.text = ascii "-" → token.text ∈ textOperators := by
    rintro token (hText | hText) <;> (rw [hText]; decide)
  have hMul : ∀ token : Token, token.text = ascii "*" ∨ token.text = ascii "/" ∨ token.text = ascii "%" →
      token.text ∈ textOperators := by
    rintro token (hText | hText | hText) <;> (rw [hText]; decide)
  intro method
  cases method with
  | parseOr => exact honest_chain hC .parseAnd .orLoop trivial fun _ => id
  | orLoop left => exact honest_wordLoop hD hC left (by decide) .parseAnd .orLoop trivial fun _ => id
  | parseAnd => exact honest_chain hC .parseCompare .andLoop trivial fun _ => id
  | andLoop left => exact honest_wordLoop hD hC left (by decide) .parseCompare .andLoop trivial fun _ => id
  | parseCompare => exact honest_parseCompare hD hC
  | inLoop args => exact honest_inLoop hD hC args
  | parseLike => exact honest_parseLike hD hC
  | parseAdd => exact honest_chain hC .parseMul .addLoop trivial fun _ => id
  | addLoop left => exact honest_tokenLoop hD hC left _ hAdd .parseMul .addLoop trivial fun _ => id
  | parseMul => exact honest_chain hC .parseUnary .mulLoop trivial fun _ => id
  | mulLoop left => exact honest_tokenLoop hD hC left _ hMul .parseUnary .mulLoop trivial fun _ => id
  | parseUnary => exact honest_parseUnary hD hC
  | parsePrimary => exact honest_parsePrimary hD hC
  | argumentLoop name args => exact honest_argumentLoop hD hC name args

end Bodies

variable {down : Parser → Prop} {P : ExprPtr → Prop} {isOperator : Bytes → Prop}

theorem Describes.parse (h : Describes down P isOperator) (fuel : Nat) : Describing down P (parse fuel) := by
  induction fuel with
  | zero => exact fun _ _ _ _ hExec => by cases hExec
  | succ fuel ih => exact describing_body h ih

theorem Describes.expression (h : Describes down P isOperator) : Honest down True expression P := by
  intro p p' value hExec hDown
  exact (h.parse p.depth .parseOr p p' value hExec hDown).imp id fun hValue _ => hValue trivial

end Parser

end TupleStone
