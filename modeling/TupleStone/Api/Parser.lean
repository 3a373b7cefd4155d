import TupleStone.Api.Tokenize
import TupleStone.Common.Value
import TupleStone.Lib.Outcome

/-! # The expression parser

A recursive-descent parser over the token list. Each method is written once over a parameter for the methods it
calls; `parse` ties the knot with an explicit bound on the depth of the calls. Reading past the token list is
undefined.
-/

set_option autoImplicit false

namespace TupleStone

inductive ExprKind where
  | kLiteral
  | kColumn
  | kUnary
  | kBinary
  | kIsNull
  | kFunction
  deriving DecidableEq, Repr

inductive Expr where
  | mk (kind : ExprKind) (literal : Value) (name op : Bytes) (parameterIndex : Nat) (args : List (Option Expr))

/-- `std::shared_ptr<Expr>` -/
abbrev ExprPtr := Option Expr

namespace Expr

def kind : Expr → ExprKind
  | mk kind _ _ _ _ _ => kind

def name : Expr → Bytes
  | mk _ _ name _ _ _ => name

def ofLiteral (value : Value) : Expr := mk .kLiteral value [] [] 0 []

def ofColumn (name : Bytes) : Expr := mk .kColumn .null name [] 0 []

def ofParameter (index : Nat) : Expr := mk .kColumn .null (ascii "?") [] index []

def ofFunction (name : Bytes) (args : List ExprPtr) : Expr := mk .kFunction .null name [] 0 args

def unary (op : Bytes) (arg : ExprPtr) : Expr := mk .kUnary .null [] op 0 [arg]

def isNull (op : Bytes) (arg : ExprPtr) : Expr := mk .kIsNull .null [] op 0 [arg]

def binary (op : Bytes) (left right : ExprPtr) : Expr := mk .kBinary .null [] op 0 [left, right]

end Expr

/-- The parser with the status object its caller passes to every call. -/
structure Parser where
  tokens : List Token
  index : Nat := 0
  parameterCount : Nat := 0
  closedParen : Bool := false
  status : Status := .ok
  deriving DecidableEq, Repr

abbrev ParseM (α : Type) := StateT Parser Outcome α

namespace Parser

def peek : ParseM Token := fun p =>
  match p.tokens[p.index]? with
  | some token => .done (token, p)
  | none => .undefined

/-- `Peek(offset)`, which never looks past the last token. -/
def peekAt (offset : Nat) : ParseM Token := fun p =>
  match p.tokens[min (p.index + offset) (p.tokens.length - 1)]? with
  | some token => .done (token, p)
  | none => .undefined

def advance : ParseM Unit := fun p => .done ((), { p with index := p.index + 1 })

def fail (status : Status) : ParseM Unit := fun p => .done ((), { p with status := status })

/-- After a closing parenthesis was expected, one more is accepted without being there. -/
def accept (text : Bytes) : ParseM Bool := fun p =>
  let p := if text = ascii ")" then p else { p with closedParen := false }
  match p.tokens[p.index]? with
  | none => .undefined
  | some token =>
    if text = ascii ")" ∧ p.closedParen ∧ token.text ≠ ascii ")" then .done (true, { p with closedParen := false })
    else if token.text = text then .done (true, { p with index := p.index + 1 })
    else .done (false, p)

def expect (text : Bytes) : ParseM Bool := do
  if ← accept text then
    if text = ascii ")" then modify (fun p => { p with closedParen := true })
    pure true
  else
    fail (.syntaxError (ascii "expected '" ++ text ++ ascii "'"))
    pure false

def identifier : ParseM Bytes := do
  let token ← peek
  if token.kind ≠ .kWord then
    fail (.syntaxError (ascii "expected identifier"))
    pure []
  else
    advance
    pure token.text

/-! ## Numeric literals -/

def decimalValue (digits : Bytes) : Nat := digits.foldl (fun n c => 10 * n + (c.toNat - 48)) 0

/-- `std::stoll` of digits, `none` for the range error. -/
def stoll (text : Bytes) : Option Int64 :=
  let n := decimalValue text
  if n < 2 ^ 63 then some (Int64.ofNat n) else none

/-- `std::stod` reads up to a second point. -/
def stod (text : Bytes) : Option Binary64 :=
  let whole := text.takeWhile isDigit
  let fraction := ((text.dropWhile isDigit).drop 1).takeWhile isDigit
  Binary64.ofDecimal (decimalValue (whole ++ fraction)) (10 ^ fraction.length)

def numericLiteral (text : Bytes) : Option Value :=
  if text.contains 46 then (stod text).map Value.real else (stoll text).map Value.integer

/-! ## Grammar methods -/

/-- The methods, with the continuation of each loop as a method of its own. -/
inductive Method where
  | parseOr
  | orLoop (left : ExprPtr)
  | parseAnd
  | andLoop (left : ExprPtr)
  | parseCompare
  | inLoop (args : List ExprPtr)
  | parseLike
  | parseAdd
  | addLoop (left : ExprPtr)
  | parseMul
  | mulLoop (left : ExprPtr)
  | parseUnary
  | parsePrimary
  | argumentLoop (name : Bytes) (args : List ExprPtr)

section Bodies

variable (call : Method → ParseM ExprPtr)

def parseOr : ParseM ExprPtr := do
  let left ← call .parseAnd
  call (.orLoop left)

def orLoop (left : ExprPtr) : ParseM ExprPtr := do
  if left.isNone then pure left
  else if ← accept (ascii "or") then
    let right ← call .parseAnd
    call (.orLoop (some (.binary (ascii "or") left right)))
  else pure left

def parseAnd : ParseM ExprPtr := do
  let left ← call .parseCompare
  call (.andLoop left)

def andLoop (left : ExprPtr) : ParseM ExprPtr := do
  if left.isNone then pure left
  else if ← accept (ascii "and") then
    let right ← call .parseCompare
    call (.andLoop (some (.binary (ascii "and") left right)))
  else pure left

def parseIs (left : ExprPtr) : ParseM ExprPtr := do
  let negated ← accept (ascii "not")
  if ← expect (ascii "null") then
    pure (some (.isNull (if negated then ascii "is not null" else ascii "is null") left))
  else pure none

def parseCompare : ParseM ExprPtr := do
  let left ← call .parseLike
  if left.isNone then pure none
  else
    let token ← peek
    if token.kind = .kOperator ∨ token.text = ascii "is" ∨ token.text = ascii "in" then
      advance
      if token.text = ascii "is" then parseIs left
      else if token.text = ascii "in" then
        if ← expect (ascii "(") then call (.inLoop [left]) else pure none
      else
        let right ← call .parseAdd
        pure (some (.binary token.text left right))
    else pure left

def inLoop (args : List ExprPtr) : ParseM ExprPtr := do
  if ← accept (ascii ")") then pure (some (.ofFunction (ascii "in") args))
  else
    let arg ← call .parseOr
    if ← accept (ascii ",") then call (.inLoop (args ++ [arg]))
    else if ← expect (ascii ")") then call (.inLoop (args ++ [arg]))
    else pure none

def parseLike : ParseM ExprPtr := do
  let left ← call .parseAdd
  if left.isNone then pure left
  else if ← accept (ascii "like") then
    let right ← call .parseAdd
    pure (some (.binary (ascii "like") left right))
  else pure left

def parseAdd : ParseM ExprPtr := do
  let left ← call .parseMul
  call (.addLoop left)

def addLoop (left : ExprPtr) : ParseM ExprPtr := do
  let token ← peek
  if token.text = ascii "+" ∨ token.text = ascii "-" then
    advance
    let right ← call .parseMul
    call (.addLoop (some (.binary token.text left right)))
  else pure left

def parseMul : ParseM ExprPtr := do
  let left ← call .parseUnary
  call (.mulLoop left)

def mulLoop (left : ExprPtr) : ParseM ExprPtr := do
  let token ← peek
  if token.text = ascii "*" ∨ token.text = ascii "/" ∨ token.text = ascii "%" then
    advance
    let right ← call .parseUnary
    call (.mulLoop (some (.binary token.text left right)))
  else pure left

/-- The operator that one of the three accepts consumed, `tokens_[index_ - 1]`. -/
def unaryOperator : ParseM (Option Bytes) := do
  if ← accept (ascii "not") then pure (some (ascii "not"))
  else if ← accept (ascii "-") then pure (some (ascii "-"))
  else if ← accept (ascii "+") then pure (some (ascii "+"))
  else pure none

def parseUnary : ParseM ExprPtr := do
  match ← unaryOperator with
  | some op =>
    let arg ← call .parseUnary
    pure (some (.unary op arg))
  | none => call .parsePrimary

def parseNumber (text : Bytes) : ParseM ExprPtr := do
  advance
  match numericLiteral text with
  | some value => pure (some (.ofLiteral value))
  | none =>
    fail (.outOfRange (ascii "invalid numeric literal"))
    pure none

def parseParameter : ParseM ExprPtr := do
  advance
  let p ← get
  set { p with parameterCount := p.parameterCount + 1 }
  pure (some (.ofParameter p.parameterCount))

def qualifiedName (name : Bytes) : ParseM Bytes := do
  if ← accept (ascii ".") then
    let part ← identifier
    pure (name ++ ascii "." ++ part)
  else pure name

def parseWord : ParseM ExprPtr := do
  let name ← identifier
  if name = ascii "null" then pure (some (.ofLiteral .null))
  else if name = ascii "true" ∨ name = ascii "false" then
    pure (some (.ofLiteral (.boolean (name == ascii "true"))))
  else
    let name ← qualifiedName name
    if ← accept (ascii "(") then
      if ← accept (ascii ")") then pure (some (.ofFunction name []))
      else call (.argumentLoop name [])
    else pure (some (.ofColumn name))

def parsePrimary : ParseM ExprPtr := do
  if ← accept (ascii "(") then
    let value ← call .parseOr
    if ← expect (ascii ")") then pure value else pure none
  else
    let token ← peek
    match token.kind with
    | .kNumber => parseNumber token.text
    | .kString =>
      advance
      pure (some (.ofLiteral (.text token.text)))
    | .kParameter => parseParameter
    | .kWord => parseWord call
    | _ =>
      fail (.syntaxError (ascii "expected expression"))
      pure none

def argument : ParseM ExprPtr := do
  if ← accept (ascii "*") then pure (some (.ofColumn (ascii "*"))) else call .parseOr

def argumentLoop (name : Bytes) (args : List ExprPtr) : ParseM ExprPtr := do
  let arg ← argument call
  if ← accept (ascii ")") then pure (some (.ofFunction name (args ++ [arg])))
  else if ← expect (ascii ",") then call (.argumentLoop name (args ++ [arg]))
  else pure none

end Bodies

def body (call : Method → ParseM ExprPtr) : Method → ParseM ExprPtr
  | .parseOr => parseOr call
  | .orLoop left => orLoop call left
  | .parseAnd => parseAnd call
  | .andLoop left => andLoop call left
  | .parseCompare => parseCompare call
  | .inLoop args => inLoop call args
  | .parseLike => parseLike call
  | .parseAdd => parseAdd call
  | .addLoop left => addLoop call left
  | .parseMul => parseMul call
  | .mulLoop left => mulLoop call left
  | .parseUnary => parseUnary call
  | .parsePrimary => parsePrimary call
  | .argumentLoop name args => argumentLoop call name args

def parse : Nat → Method → ParseM ExprPtr
  | 0 => fun _ _ => .outOfFuel
  | fuel + 1 => body (parse fuel)

/-- A bound on the depth of calls that no token list exceeds. -/
def depth (p : Parser) : Nat := 10 * p.tokens.length + 10

def expression : ParseM ExprPtr := fun p => parse p.depth .parseOr p

theorem expression_eq (p : Parser) : expression p = parse p.depth .parseOr p := rfl

end Parser

end TupleStone
