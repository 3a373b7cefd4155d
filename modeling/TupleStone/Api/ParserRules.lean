import TupleStone.Api.ParserTotality
import TupleStone.Lib.Unroll

/-! # Equations of the parser

Unrolled without a bound, the methods call themselves, and `expression` is the first of them. What a method does depends
on what is left of the tokens and not on where they stand.
-/

set_option autoImplicit false

namespace TupleStone

open Unroll

namespace Parser

section Regular

variable {α : Type}

theorem regular_chain (first : Method) (loop : ExprPtr → Method) :
    Regular (fun call : Method → ParseM ExprPtr => call first >>= fun left => call (loop left)) :=
  (regular_call first).bind fun left => regular_call (loop left)

theorem regular_wordLoop (left : ExprPtr) (word : Bytes) (operand : Method) (loop : ExprPtr → Method) :
    Regular (fun call : Method → ParseM ExprPtr => do
      if left.isNone then pure left
      else if ← accept word then
        let right ← call operand
        call (loop (some (.binary word left right)))
      else pure left) := by
  refine regular_ite (regular_const _) ((regular_const _).bind fun accepted => regular_ite ?_ (regular_const _))
  exact (regular_call operand).bind fun right => regular_call _

theorem regular_tokenLoop (left : ExprPtr) (isText : Token → Prop) [DecidablePred isText] (operand : Method)
    (loop : ExprPtr → Method) :
    Regular (fun call : Method → ParseM ExprPtr => do
      let token ← peek
      if isText token then
        advance
        let right ← call operand
        call (loop (some (.binary token.text left right)))
      else pure left) := by
  refine (regular_const _).bind fun token => regular_ite ((regular_const _).bind fun _ => ?_) (regular_const _)
  exact (regular_call operand).bind fun right => regular_call _

theorem regular_parseCompare : Regular parseCompare := by
  refine (regular_call Method.parseLike).bind fun left => regular_ite (regular_const _) ?_
  refine (regular_const _).bind fun token => regular_ite ((regular_const _).bind fun _ => ?_) (regular_const _)
  refine regular_ite (regular_const _) (regular_ite ?_ ?_)
  · exact (regular_const _).bind fun accepted => regular_ite (regular_call _) (regular_const _)
  · exact (regular_call Method.parseAdd).bind fun right => regular_const _

theorem regular_inLoop (args : List ExprPtr) : Regular (fun call => inLoop call args) := by
  refine (regular_const _).bind fun closed => regular_ite (regular_const _) ?_
  refine (regular_call Method.parseOr).bind fun arg => (regular_const _).bind fun comma => regular_ite (regular_call _) ?_
  exact (regular_const _).bind fun accepted => regular_ite (regular_call _) (regular_const _)

theorem regular_parseLike : Regular parseLike := by
  refine (regular_call Method.parseAdd).bind fun left => regular_ite (regular_const _) ?_
  refine (regular_const _).bind fun accepted => regular_ite ?_ (regular_const _)
  exact (regular_call Method.parseAdd).bind fun right => regular_const _

theorem regular_parseUnary : Regular parseUnary := by
  refine (regular_const _).bind fun op => ?_
  cases op with
  | some op => exact (regular_call Method.parseUnary).bind fun arg => regular_const _
  | none => exact regular_call Method.parsePrimary

theorem regular_parseWord : Regular parseWord := by
  refine (regular_const _).bind fun name => regular_ite (regular_const _) (regular_ite (regular_const _) ?_)
  refine (regular_const _).bind fun name => (regular_const _).bind fun opened => regular_ite ?_ (regular_const _)
  exact (regular_const _).bind fun closed => regular_ite (regular_const _) (regular_call _)

theorem regular_parsePrimary : Regular parsePrimary := by
  refine (regular_const _).bind fun opened => regular_ite ?_ ((regular_const _).bind fun token => ?_)
  · exact (regular_call Method.parseOr).bind fun value => (regular_const _).bind fun accepted =>
      regular_ite (regular_const _) (regular_const _)
  · cases token.kind with
    | kWord => exact regular_parseWord
    | _ => exact regular_const _

theorem regular_argumentLoop (name : Bytes) (args : List ExprPtr) : Regular (fun call => argumentLoop call name args) := by
  have hArgument : Regular argument :=
    (regular_const _).bind fun star => regular_ite (regular_const _) (regular_call Method.parseOr)
  refine hArgument.bind fun arg => (regular_const _).bind fun closed => regular_ite (regular_const _) ?_
  exact (regular_const _).bind fun comma => regular_ite (regular_call _) (regular_const _)

theorem regular_body (method : Method) : Regular (fun call => body call method) := by
  cases method with
  | parseOr => exact regular_chain _ _
  | orLoop left => exact regular_wordLoop _ _ _ _
  | parseAnd => exact regular_chain _ _
  | andLoop left => exact regular_wordLoop _ _ _ _
  | parseCompare => exact regular_parseCompare
  | inLoop args => exact regular_inLoop args
  | parseLike => exact regular_parseLike
  | parseAdd => exact regular_chain _ _
  | addLoop left => exact regular_tokenLoop _ _ _ _
  | parseMul => exact regular_chain _ _
  | mulLoop left => exact regular_tokenLoop _ _ _ _
  | parseUnary => exact regular_parseUnary
  | parsePrimary => exact regular_parsePrimary
  | argumentLoop name args => exact regular_argumentLoop name args

end Regular

/-! ## The methods without a bound -/

theorem parse_eq_unroll (fuel : Nat) : parse fuel = unroll body fuel := by
  induction fuel with
  | zero => rfl
  | succ fuel ih =>
    change body (parse fuel) = body (unroll body fuel)
    rw [ih]

noncomputable def parsed : Method → ParseM ExprPtr := limit body

theorem parsed_eq (method : Method) : parsed method = body parsed method := limit_eq regular_body method

theorem parsed_of_parse {fuel : Nat} {method : Method} {p : Parser} {r : ExprPtr × Parser}
    (h : parse fuel method p = .done r) : parsed method p = .done r := by
  rw [parse_eq_unroll] at h
  have hExtends := unroll_extends_limit regular_body fuel method p (by rw [h]; exact nofun)
  exact hExtends.trans h

theorem expression_eq_parsed {p : Parser} (h : Ready p) : expression p = parsed .parseOr p := by
  obtain ⟨value, p', hExec, -, -⟩ := returns_expression h
  exact hExec.trans (parsed_of_parse hExec).symm

/-! ## What is left to read -/

/-- A token without its position. -/
abbrev Shape := TokenKind × Bytes

def shape (token : Token) : Shape := (token.kind, token.text)

def rest (p : Parser) : List Shape := (p.tokens.drop p.index).map shape

/-- Tokens were consumed and parameters counted. -/
def after (p : Parser) (tokens parameters : Nat) (closed : Bool) : Parser :=
  { p with index := p.index + tokens, parameterCount := p.parameterCount + parameters, closedParen := closed }

section Rest

variable {p : Parser} {kind : TokenKind} {text other : Bytes} {tail : List Shape} {closed : Bool}

@[simp] theorem after_after (tokens parameters tokens' parameters' : Nat) (closed' : Bool) :
    (p.after tokens parameters closed).after tokens' parameters' closed' =
      p.after (tokens + tokens') (parameters + parameters') closed' := by
  simp only [after, Nat.add_assoc]

@[simp] theorem status_after (tokens parameters : Nat) : (p.after tokens parameters closed).status = p.status := rfl

@[simp] theorem parameterCount_after (tokens parameters : Nat) :
    (p.after tokens parameters closed).parameterCount = p.parameterCount + parameters := rfl

@[simp] theorem closedParen_after (tokens parameters : Nat) : (p.after tokens parameters closed).closedParen = closed := rfl

@[simp] theorem rest_after (tokens parameters : Nat) : (p.after tokens parameters closed).rest = p.rest.drop tokens := by
  rw [rest, rest, ← List.map_drop, List.drop_drop]
  rfl

theorem token_of_rest (h : p.rest = (kind, text) :: tail) :
    ∃ position, p.tokens[p.index]? = some ⟨kind, text, position⟩ := by
  have hHead : p.rest[0]? = some (kind, text) := by rw [h]; rfl
  rw [rest, List.getElem?_map, List.getElem?_drop, Nat.add_zero, Option.map_eq_some_iff] at hHead
  obtain ⟨token, hToken, hShape⟩ := hHead
  cases hShape
  exact ⟨token.position, hToken⟩

theorem peek_rest (h : p.rest = (kind, text) :: tail) : ∃ position, peek p = .done (⟨kind, text, position⟩, p) := by
  obtain ⟨position, hToken⟩ := token_of_rest h
  exact ⟨position, by rw [peek, hToken]⟩

theorem advance_eq : advance p = .done ((), p.after 1 0 p.closedParen) := rfl

theorem accept_hit (h : p.rest = (kind, text) :: tail) (hText : text ≠ ascii ")") :
    accept text p = .done (true, p.after 1 0 false) := by
  obtain ⟨position, hToken⟩ := token_of_rest h
  simp only [accept, hToken, hText, false_and, if_false, if_true]
  rfl

theorem accept_miss (h : p.rest = (kind, other) :: tail) (hText : text ≠ ascii ")") (hOther : other ≠ text) :
    accept text p = .done (false, p.after 0 0 false) := by
  obtain ⟨position, hToken⟩ := token_of_rest h
  simp only [accept, hToken, hText, false_and, if_false, hOther]
  rfl

theorem accept_close (h : p.rest = (kind, ascii ")") :: tail) : accept (ascii ")") p = .done (true, p.after 1 0 p.closedParen) := by
  obtain ⟨position, hToken⟩ := token_of_rest h
  simp only [accept, if_true, hToken, ne_eq, not_true_eq_false, and_false, if_false]
  rfl

theorem accept_other (h : p.rest = (kind, other) :: tail) (hOther : other ≠ ascii ")") (hClosed : p.closedParen = false) :
    accept (ascii ")") p = .done (false, p) := by
  obtain ⟨position, hToken⟩ := token_of_rest h
  simp only [accept, if_true, hToken, hClosed, Bool.false_eq_true, false_and, and_false, if_false, hOther]

theorem expect_hit (h : p.rest = (kind, text) :: tail) (hText : text ≠ ascii ")") :
    expect text p = .done (true, p.after 1 0 false) := by
  refine (bind_of_done (accept_hit h hText)).trans ?_
  simp only [if_true, if_neg hText]
  rfl

theorem expect_close (h : p.rest = (kind, ascii ")") :: tail) : expect (ascii ")") p = .done (true, p.after 1 0 true) := by
  refine (bind_of_done (accept_close h)).trans ?_
  simp only [if_true]
  rfl

theorem unaryOperator_hit (hOp : text ∈ [ascii "not", ascii "-", ascii "+"]) (h : p.rest = (kind, text) :: tail) :
    unaryOperator p = .done (some text, p.after 1 0 false) := by
  have hNot : text ≠ ascii ")" := by
    rintro rfl
    exact absurd hOp (by decide)
  have hAgain : (p.after 0 0 false).rest = (kind, text) :: tail := by rw [rest_after, List.drop_zero, h]
  by_cases hFirst : text = ascii "not"
  · subst hFirst
    exact (bind_of_done (accept_hit h hNot)).trans rfl
  refine (bind_of_done (accept_miss h (by decide) hFirst)).trans ?_
  change (do if ← accept (ascii "-") then pure (some (ascii "-")) else _ : ParseM (Option Bytes)) _ = _
  by_cases hSecond : text = ascii "-"
  · subst hSecond
    refine (bind_of_done (accept_hit hAgain hNot)).trans ?_
    rw [after_after]
    rfl
  refine (bind_of_done (accept_miss hAgain (by decide) hSecond)).trans ?_
  rw [after_after]
  have hThird : text = ascii "+" := by
    simp only [List.mem_cons, List.not_mem_nil, or_false] at hOp
    exact (hOp.resolve_left hFirst).resolve_left hSecond
  subst hThird
  change (do if ← accept (ascii "+") then pure (some (ascii "+")) else pure none : ParseM (Option Bytes)) _ = _
  refine (bind_of_done (accept_hit hAgain hNot)).trans ?_
  rw [after_after]
  rfl

theorem unaryOperator_miss (hOp : text ∉ [ascii "not", ascii "-", ascii "+"]) (h : p.rest = (kind, text) :: tail) :
    unaryOperator p = .done (none, p.after 0 0 false) := by
  simp only [List.mem_cons, List.not_mem_nil, or_false, not_or] at hOp
  have hAgain : (p.after 0 0 false).rest = (kind, text) :: tail := by rw [rest_after, List.drop_zero, h]
  refine (bind_of_done (accept_miss h (by decide) hOp.1)).trans ?_
  change (do if ← accept (ascii "-") then pure (some (ascii "-")) else _ : ParseM (Option Bytes)) _ = _
  refine (bind_of_done (accept_miss hAgain (by decide) hOp.2.1)).trans ?_
  rw [after_after]
  change (do if ← accept (ascii "+") then pure (some (ascii "+")) else pure none : ParseM (Option Bytes)) _ = _
  refine (bind_of_done (accept_miss hAgain (by decide) hOp.2.2)).trans ?_
  rw [after_after]
  rfl

end Rest

end Parser

end TupleStone
