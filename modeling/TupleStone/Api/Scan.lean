import TupleStone.Api.ParserRules

/-! # A scan over the tokens of an expression

What an expression does with its closing parentheses shows in its tokens alone: the scan keeps which of the open ones
belong to an `IN` list, and whether the last token closed such a list with items in it.
-/

set_option autoImplicit false

namespace TupleStone

namespace Parser

/-- What the next token is read as. -/
inductive Mode where
  | operand
  | opening
  | operator
  | afterDot
  | afterIs
  | afterIn
  deriving DecidableEq, Repr

/-- The open parentheses, the innermost first, with `true` for those of an `IN` list. -/
structure Scan where
  mode : Mode := .operand
  lists : List Bool := []
  listClosed : Bool := false
  deriving DecidableEq, Repr

namespace Scan

/-- A name for the instance that membership in a list of texts is decided with. -/
local instance lawfulBEq_text : LawfulBEq (List UInt8) := inferInstance

def readOperand (lists : List Bool) (text : Bytes) : Scan :=
  if text ∈ [ascii "not", ascii "-", ascii "+"] then ⟨.operand, lists, false⟩
  else if text = ascii "(" then ⟨.operand, false :: lists, false⟩
  else ⟨.operator, lists, false⟩

/-- A list may end behind a comma. -/
def afterComma : Bool → Mode
  | true => .opening
  | false => .operand

/-- Behind an operand; a parenthesis opens arguments. -/
def readOperator (lists : List Bool) (listClosed : Bool) (text : Bytes) : Option Scan :=
  if text = ascii ")" then
    if listClosed then some ⟨.operator, lists, false⟩
    else match lists with
      | [] => none
      | list :: outer => some ⟨.operator, outer, list⟩
  else if text = ascii "," then
    match lists with
    | [] => none
    | list :: outer => some ⟨afterComma list, list :: outer, false⟩
  else if text = ascii "." then some ⟨.afterDot, lists, false⟩
  else if text = ascii "(" then some ⟨.opening, false :: lists, false⟩
  else if text = ascii "is" then some ⟨.afterIs, lists, false⟩
  else if text = ascii "in" then some ⟨.afterIn, lists, false⟩
  else some ⟨.operand, lists, false⟩

def readOpening (lists : List Bool) (text : Bytes) : Option Scan :=
  if text = ascii ")" then
    match lists with
    | [] => none
    | _ :: outer => some ⟨.operator, outer, false⟩
  else some (readOperand lists text)

def step (s : Scan) (text : Bytes) : Option Scan :=
  match s.mode with
  | .operand => some (readOperand s.lists text)
  | .opening => readOpening s.lists text
  | .operator => readOperator s.lists s.listClosed text
  | .afterDot => some ⟨.operator, s.lists, false⟩
  | .afterIs => some ⟨if text = ascii "not" then .afterIs else .operator, s.lists, false⟩
  | .afterIn => some ⟨.opening, true :: s.lists, false⟩

def run (s : Scan) : List Shape → Option Scan
  | [] => some s
  | token :: tokens => (s.step token.2).bind fun s => run s tokens

variable {s s' : Scan} {tokens more : List Shape}

theorem run_append (s : Scan) (tokens more : List Shape) : s.run (tokens ++ more) = (s.run tokens).bind fun s => s.run more := by
  induction tokens generalizing s with
  | nil => rfl
  | cons token tokens ih =>
    rw [List.cons_append, run, run]
    cases s.step token.2 with
    | none => rfl
    | some s => exact ih s

theorem run_append_of (h : s.run tokens = some s') (more : List Shape) : s.run (tokens ++ more) = s'.run more := by
  rw [run_append, h, Option.bind_some]

theorem run_cons_of {token : Shape} (h : s.step token.2 = some s') (tokens : List Shape) :
    s.run (token :: tokens) = s'.run tokens := by
  rw [run, h, Option.bind_some]

theorem run_singleton (s : Scan) (token : Shape) : s.run [token] = s.step token.2 := by
  rw [run]
  cases s.step token.2 <;> rfl

/-- Parentheses that were open before. -/
def below (s : Scan) (lists : List Bool) : Scan := ⟨s.mode, s.lists ++ lists, s.listClosed⟩

theorem step_below {text : Bytes} (h : s.step text = some s') (lists : List Bool) :
    (s.below lists).step text = some (s'.below lists) := by
  obtain ⟨mode, open', closed⟩ := s
  cases mode with
  | operand =>
    cases h
    simp only [step, below, readOperand]
    split_ifs <;> rfl
  | opening =>
    simp only [step, below, readOpening] at h ⊢
    split_ifs at h ⊢ with hClose
    · cases open' with
      | nil => cases h
      | cons list outer =>
        cases h
        rfl
    · cases h
      simp only [readOperand]
      split_ifs <;> rfl
  | operator =>
    cases closed <;> cases open' <;> simp only [step, below, readOperator] at h ⊢ <;> split_ifs at h ⊢ <;> cases h <;> rfl
  | afterDot =>
    cases h
    rfl
  | afterIs =>
    cases h
    rfl
  | afterIn =>
    cases h
    rfl

theorem run_below (h : s.run tokens = some s') (lists : List Bool) : (s.below lists).run tokens = some (s'.below lists) := by
  induction tokens generalizing s with
  | nil =>
    cases h
    rfl
  | cons token tokens ih =>
    rw [run] at h
    obtain ⟨next, hStep, hRest⟩ := Option.bind_eq_some_iff.mp h
    rw [run_cons_of (step_below hStep lists)]
    exact ih hRest

theorem step_listClosed {text : Bytes} (h : s.step text = some s') (hClosed : s'.listClosed = true) : s'.mode = .operator := by
  obtain ⟨mode, open', closed⟩ := s
  have hOperand : (readOperand open' text).listClosed = false := by
    rw [readOperand]
    split_ifs <;> rfl
  cases mode with
  | operand =>
    cases h
    cases hClosed.symm.trans hOperand
  | opening =>
    simp only [step, readOpening] at h
    split_ifs at h
    · cases open' with
      | nil => cases h
      | cons list outer =>
        cases h
        cases hClosed
    · cases h
      cases hClosed.symm.trans hOperand
  | operator =>
    cases closed <;> cases open' <;> simp only [step, readOperator] at h <;> split_ifs at h <;> cases h <;>
      first | rfl | cases hClosed
  | afterDot | afterIs | afterIn =>
    cases h
    cases hClosed

theorem run_listClosed (h : s.run tokens = some s') (hStart : s.listClosed = true → s.mode = .operator)
    (hClosed : s'.listClosed = true) : s'.mode = .operator := by
  induction tokens generalizing s with
  | nil =>
    cases h
    exact hStart hClosed
  | cons token tokens ih =>
    obtain ⟨next, hStep, hRest⟩ := Option.bind_eq_some_iff.mp h
    exact ih hRest fun hNext => step_listClosed hStep hNext

/-- The last token closes the list of an `IN` with items in it. -/
def endsWithList (tokens : List Shape) : Bool := (({} : Scan).run tokens).any Scan.listClosed

end Scan

/-- The scan of the tokens consumed so far. -/
def scanned (p : Parser) : Option Scan := ({} : Scan).run ((p.tokens.take p.index).map shape)

/-- Where only the end token is left, all others were scanned. -/
theorem scanned_of_end {p : Parser} {token : Shape} (h : rest p = [token]) :
    p.scanned = ({} : Scan).run (p.tokens.dropLast.map shape) := by
  obtain ⟨last, hLast, -⟩ := List.map_eq_singleton_iff.mp h
  have hLength := congrArg List.length hLast
  rw [List.length_drop, List.length_singleton] at hLength
  have hIndex : p.index = p.tokens.length - 1 := by omega
  rw [scanned, List.dropLast_eq_take, hIndex]

theorem scanned_refresh (p : Parser) (parameters : Nat) (closed : Bool) : (p.after 0 parameters closed).scanned = p.scanned := rfl

theorem scanned_next {p : Parser} {token : Shape} {tail : List Shape} (h : rest p = token :: tail) (parameters : Nat) (closed : Bool) :
    (p.after 1 parameters closed).scanned = p.scanned.bind fun s => s.step token.2 := by
  have hRest : p.rest = (token.1, token.2) :: tail := h
  obtain ⟨position, hToken⟩ := token_of_rest hRest
  have hTake : p.tokens.take (p.index + 1) = p.tokens.take p.index ++ [⟨token.1, token.2, position⟩] := by
    rw [List.take_add_one, hToken]
    rfl
  rw [scanned, scanned]
  change ({} : Scan).run ((p.tokens.take (p.index + 1)).map shape) = _
  rw [hTake, List.map_append, Scan.run_append]
  congr 1
  funext s
  exact Scan.run_singleton s token

end Parser

end TupleStone
