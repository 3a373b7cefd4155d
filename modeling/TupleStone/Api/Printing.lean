import TupleStone.Api.Reading
import Mathlib.Data.Nat.Digits.Defs

/-! # Printed expressions

The trees that can be written down, their tokens with as few parentheses as the levels of the parser allow, and the
trees as the parser builds them. Printed and parsed, a tree is what it was.
-/

set_option autoImplicit false

namespace TupleStone

namespace Parser

def decimal (n : Nat) : Bytes :=
  if n = 0 then [48] else (Nat.digits 10 n).reverse.map (fun digit => UInt8.ofNat (48 + digit))

/-- The words that are not read as names in the place of an operand. -/
def reserved : List Bytes := [ascii "not", ascii "null", ascii "true", ascii "false"]

structure Ordinary (name : Bytes) : Prop where
  some : name ≠ []
  word : ∀ c ∈ name, Tokenize.isWordByte c
  unreserved : name ∉ reserved

abbrev Name := { name : Bytes // Ordinary name }

inductive UnaryOperator where
  | minus
  | plus
  | not
  deriving DecidableEq, Repr

def UnaryOperator.shape : UnaryOperator → Shape
  | minus => (.kOperator, ascii "-")
  | plus => (.kOperator, ascii "+")
  | not => (.kWord, ascii "not")

inductive BinaryOperator where
  | multiply
  | divide
  | modulo
  | add
  | subtract
  | like
  | equal
  | notEqual
  | lessGreater
  | less
  | lessEqual
  | greater
  | greaterEqual
  | and
  | or
  deriving DecidableEq, Repr

namespace BinaryOperator

def shape : BinaryOperator → Shape
  | multiply => (.kOperator, ascii "*")
  | divide => (.kOperator, ascii "/")
  | modulo => (.kOperator, ascii "%")
  | add => (.kOperator, ascii "+")
  | subtract => (.kOperator, ascii "-")
  | like => (.kWord, ascii "like")
  | equal => (.kOperator, ascii "=")
  | notEqual => (.kOperator, ascii "!=")
  | lessGreater => (.kOperator, ascii "<>")
  | less => (.kOperator, ascii "<")
  | lessEqual => (.kOperator, ascii "<=")
  | greater => (.kOperator, ascii ">")
  | greaterEqual => (.kOperator, ascii ">=")
  | and => (.kWord, ascii "and")
  | or => (.kWord, ascii "or")

/-- The loop that the operator continues, unless its level has none. -/
def chain? : BinaryOperator → Option Chain
  | multiply | divide | modulo => some .multiplicative
  | add | subtract => some .additive
  | and => some .conjunction
  | or => some .disjunction
  | _ => none

def level (op : BinaryOperator) : Level :=
  match op.chain? with
  | some chain => chain.level
  | none => if op = like then .like else .comparison

/-- A chain takes its own level on the left; `ParseLike` and `ParseCompare` do not loop. -/
def left (op : BinaryOperator) : Level :=
  match op.chain? with
  | some chain => chain.level
  | none => if op = like then .additive else .like

/-- Behind `LIKE` and behind a comparison the parser calls `ParseAdd`. -/
def right (op : BinaryOperator) : Level :=
  match op.chain? with
  | some chain => chain.operand
  | none => .additive

end BinaryOperator

inductive Term where
  | literal (n : Fin (2 ^ 63))
  | column (name : Name)
  | parameter
  | unary (op : UnaryOperator) (arg : Term)
  | binary (op : BinaryOperator) (left right : Term)
  | isNull (negated : Bool) (arg : Term)
  | call (name : Name) (args : List Term)

/-- The tokens of an operand in a place of the outer level, when they are a tree of the inner one. -/
def fit (outer inner : Level) (tokens : List Shape) : List Shape :=
  if outer.rank ≤ inner.rank then tokens else enclosed tokens

namespace Term

/-- An operand without operators stands wherever a unary expression may stand. -/
def level : Term → Level
  | binary op _ _ => op.level
  | isNull _ _ => .comparison
  | _ => .unary

mutual

def print : Term → List Shape
  | literal n => [(.kNumber, decimal n.val)]
  | column name => [(.kWord, name.val)]
  | parameter => [(.kParameter, ascii "?")]
  | unary op arg => op.shape :: fit .unary arg.level arg.print
  | binary op left right => fit op.left left.level left.print ++ op.shape :: fit op.right right.level right.print
  | isNull negated arg => fit .like arg.level arg.print ++ nullTest negated
  | call name args => (.kWord, name.val) :: enclosed (separated (printAll args))

def printAll : List Term → List (List Shape)
  | [] => []
  | arg :: args => arg.print :: printAll args

end

mutual

def parameters : Term → Nat
  | literal _ => 0
  | column _ => 0
  | parameter => 1
  | unary _ arg => arg.parameters
  | binary _ left right => left.parameters + right.parameters
  | isNull _ arg => arg.parameters
  | call _ args => parametersAll args

def parametersAll : List Term → Nat
  | [] => 0
  | arg :: args => arg.parameters + parametersAll args

end

mutual

/-- The tree behind `n` earlier parameters, its own numbered from left to right. -/
def expr : Term → Nat → Expr
  | literal k, _ => .ofLiteral (.integer (Int64.ofNat k.val))
  | column name, _ => .ofColumn name.val
  | parameter, n => .ofParameter n
  | unary op arg, n => .unary op.shape.2 (some (arg.expr n))
  | binary op left right, n => .binary op.shape.2 (some (left.expr n)) (some (right.expr (n + left.parameters)))
  | isNull negated arg, n => .isNull (nullOperator negated) (some (arg.expr n))
  | call name args, n => .ofFunction name.val (exprAll args n)

def exprAll : List Term → Nat → List ExprPtr
  | [], _ => []
  | arg :: args, n => some (arg.expr n) :: exprAll args (n + arg.parameters)

end

end Term

/-! ## Numbers and names -/

theorem decimalValue_append (digits more : Bytes) :
    decimalValue (digits ++ more) = more.foldl (fun n c => 10 * n + (c.toNat - 48)) (decimalValue digits) := by
  rw [decimalValue, List.foldl_append]
  rfl

theorem decimalValue_digits (digits : List Nat) (h : ∀ digit ∈ digits, digit < 10) :
    decimalValue (digits.reverse.map (fun digit => UInt8.ofNat (48 + digit))) = Nat.ofDigits 10 digits := by
  induction digits with
  | nil => rfl
  | cons digit digits ih =>
    have hDigit := h digit (List.mem_cons_self ..)
    have hByte : (UInt8.ofNat (48 + digit)).toNat = 48 + digit := UInt8.toNat_ofNat_of_lt (Nat.lt_of_lt_of_le (Nat.add_lt_add_left hDigit 48) (by decide))
    rw [List.reverse_cons, List.map_append, decimalValue_append, ih (fun d hd => h d (List.mem_cons_of_mem _ hd)),
      Nat.ofDigits_cons, List.map_cons, List.map_nil, List.foldl_cons, List.foldl_nil, hByte]
    change 10 * Nat.ofDigits 10 digits + _ = digit + _
    omega

theorem decimalValue_decimal (n : Nat) : decimalValue (decimal n) = n := by
  rw [decimal]
  split
  · rename_i hZero
    subst hZero
    rfl
  · rw [decimalValue_digits _ (fun digit h => Nat.digits_lt_base (by decide) h), Nat.ofDigits_digits]

theorem digit_of_decimal {n : Nat} {c : UInt8} (h : c ∈ decimal n) : isDigit c := by
  rw [decimal] at h
  split at h
  · obtain rfl := List.mem_singleton.mp h
    rfl
  · obtain ⟨digit, hDigit, rfl⟩ := List.mem_map.mp h
    have hLess := Nat.digits_lt_base (by decide) (List.mem_reverse.mp hDigit)
    have hAll : ∀ d : Fin 10, isDigit (UInt8.ofNat (48 + d.val)) := by decide
    exact hAll ⟨digit, hLess⟩

theorem numericLiteral_decimal (n : Fin (2 ^ 63)) : numericLiteral (decimal n.val) = some (.integer (Int64.ofNat n.val)) := by
  have hPoint : (decimal n.val).contains 46 = false := by
    rw [Bool.eq_false_iff]
    intro h
    exact absurd (digit_of_decimal (List.contains_iff_mem.mp h)) (by decide)
  rw [numericLiteral, hPoint, if_neg Bool.false_ne_true, stoll, decimalValue_decimal, if_pos n.isLt]
  rfl

/-- A text of word bytes is no text that contains another byte. -/
theorem word_ne {name other : Bytes} (h : ∀ c ∈ name, Tokenize.isWordByte c) (hOther : ∃ c ∈ other, ¬ Tokenize.isWordByte c) :
    name ≠ other := by
  rintro rfl
  obtain ⟨c, hc, hNot⟩ := hOther
  exact hNot (h c hc)

theorem Ordinary.names {name : Bytes} (h : Ordinary name) : Names name := by
  constructor
  · exact word_ne h.word (by decide)
  · intro hLiteral
    have hReserved : ∀ text ∈ [ascii "null", ascii "true", ascii "false"], text ∈ reserved := by decide
    exact h.unreserved (hReserved name hLiteral)

theorem Ordinary.not_unary {name : Bytes} (h : Ordinary name) : name ∉ [ascii "not", ascii "-", ascii "+"] := by
  simp only [List.mem_cons, List.not_mem_nil, or_false, not_or]
  refine ⟨?_, word_ne h.word (by decide), word_ne h.word (by decide)⟩
  rintro rfl
  exact h.unreserved (by decide)

theorem decimal_ne {n : Nat} {other : Bytes} (hOther : ∃ c ∈ other, ¬ isDigit c) : decimal n ≠ other := by
  rintro rfl
  obtain ⟨c, hc, hNot⟩ := hOther
  exact hNot (digit_of_decimal hc)

/-! ## Printed trees are read -/

def Term.Is (term : Term) (n : Nat) (tree : Expr) : Prop := tree = term.expr n

/-- The printed tree is read at its own level, and up to where the loop of its chain goes on. -/
structure Term.Read (term : Term) : Prop where
  reads : Reads term.level term.print term.parameters term.Is
  reaches : ∀ chain : Chain, chain.level = term.level → Reaches chain term.print term.parameters term.Is
  opens : Opens term.print

theorem Term.level_ne_primary (term : Term) : term.level ≠ .primary := by
  cases term with
  | binary op _ _ => cases op <;> exact nofun
  | _ => exact nofun

/-- A tree whose level is not the one of a chain. -/
theorem Term.Read.mk' {term : Term} (hReads : Reads term.level term.print term.parameters term.Is)
    (hLevel : ∀ chain : Chain, chain.level ≠ term.level) (hOpens : Opens term.print) : term.Read :=
  ⟨hReads, fun chain h => absurd h (hLevel chain), hOpens⟩

theorem opens_enclosed (tokens : List Shape) : Opens (enclosed tokens) := ⟨_, _, rfl, by decide⟩

namespace Term.Read

variable {term : Term} (h : term.Read)

include h

theorem enclosed : Reads .unary (enclosed term.print) term.parameters term.Is :=
  (h.reads.loosen term.level_ne_primary _ (Nat.zero_le _)).enclosed.unary (by decide)

theorem fit (outer : Level) (hOuter : outer ≠ .primary) :
    Reads outer (fit outer term.level term.print) term.parameters term.Is := by
  rw [Parser.fit]
  split
  · rename_i hRank
    exact h.reads.loosen term.level_ne_primary _ hRank
  · apply h.enclosed.loosen (by decide) _
    cases outer with
    | primary => exact absurd rfl hOuter
    | _ => decide

theorem fit_reaches (chain : Chain) : Reaches chain (Parser.fit chain.level term.level term.print) term.parameters term.Is := by
  have hOperand : chain.operand ≠ .primary := by cases chain <;> decide
  by_cases hSame : chain.level = term.level
  · rw [Parser.fit, if_pos (hSame ▸ Nat.le_refl _)]
    exact h.reaches chain hSame
  · -- off the level of the chain, the operand fits where the next level is asked for
    have hRank := chain.rank_operand
    have hFit : Parser.fit chain.level term.level term.print = Parser.fit chain.operand term.level term.print := by
      have hNe : chain.level.rank ≠ term.level.rank := fun hEq => hSame (Level.rank_injective hEq)
      rw [Parser.fit, Parser.fit]
      congr 1
      rw [eq_iff_iff]
      omega
    rw [hFit]
    exact (h.fit _ hOperand).reaches

theorem opens_fit (outer : Level) : Opens (Parser.fit outer term.level term.print) := by
  rw [Parser.fit]
  split
  · exact h.opens
  · exact opens_enclosed _

end Term.Read

theorem read_literal (n : Fin (2 ^ 63)) : (Term.literal n).Read := by
  have hUnary : decimal n.val ∉ [ascii "not", ascii "-", ascii "+"] := by
    simp only [List.mem_cons, List.not_mem_nil, or_false, not_or]
    exact ⟨decimal_ne (by decide), decimal_ne (by decide), decimal_ne (by decide)⟩
  have hOpens : decimal n.val ∉ [ascii "*", ascii ")"] := by
    simp only [List.mem_cons, List.not_mem_nil, or_false, not_or]
    exact ⟨decimal_ne (by decide), decimal_ne (by decide)⟩
  have hReads := (reads_number (decimal_ne (n := n.val) (by decide)) (numericLiteral_decimal n)).unary hUnary
  exact .mk' hReads (by rintro (_ | _ | _ | _) <;> exact nofun) ⟨_, _, rfl, hOpens⟩

theorem Ordinary.opens {name : Bytes} (h : Ordinary name) (tail : List Shape) : Opens ((.kWord, name) :: tail) := by
  refine ⟨_, _, rfl, ?_⟩
  simp only [List.mem_cons, List.not_mem_nil, or_false, not_or]
  exact ⟨word_ne h.word (by decide), word_ne h.word (by decide)⟩

theorem read_column (name : Name) : (Term.column name).Read :=
  .mk' ((reads_column name.property.names).unary name.property.not_unary) (by rintro (_ | _ | _ | _) <;> exact nofun)
    (name.property.opens [])

theorem read_parameter : Term.parameter.Read :=
  .mk' (reads_parameter.unary (by decide)) (by rintro (_ | _ | _ | _) <;> exact nofun) ⟨_, _, rfl, by decide⟩

theorem read_unary (op : UnaryOperator) {arg : Term} (h : arg.Read) : (Term.unary op arg).Read := by
  have hOp : op.shape.2 ∈ [ascii "not", ascii "-", ascii "+"] := by cases op <;> decide
  refine .mk' (((h.fit .unary (by decide)).negated hOp).weaken ?_) (by rintro (_ | _ | _ | _) <;> exact nofun)
    ⟨_, _, rfl, by cases op <;> decide⟩
  rintro n tree ⟨_, rfl, rfl⟩
  rfl

theorem read_isNull (negated : Bool) {arg : Term} (h : arg.Read) : (Term.isNull negated arg).Read := by
  refine .mk' (((h.fit .like (by decide)).isNull negated).weaken ?_) (by rintro (_ | _ | _ | _) <;> exact nofun)
    ((h.opens_fit .like).append _)
  rintro n tree ⟨_, rfl, rfl⟩
  rfl

theorem is_of_joined (op : BinaryOperator) {l r : Term} {n : Nat} {tree : Expr}
    (h : Joined op.shape.2 l.Is l.parameters r.Is n tree) : (Term.binary op l r).Is n tree := by
  obtain ⟨_, _, rfl, rfl, rfl⟩ := h
  rfl

/-- An operator of a chain continues the loop that its left operand reaches. -/
theorem read_chained {op : BinaryOperator} {chain : Chain} (hChain : op.chain? = some chain) {l r : Term} (hl : l.Read)
    (hr : r.Read) : (Term.binary op l r).Read := by
  have hLevel : op.level = chain.level := by simp only [BinaryOperator.level, hChain]
  have hLeft : op.left = chain.level := by simp only [BinaryOperator.left, hChain]
  have hRight : op.right = chain.operand := by simp only [BinaryOperator.right, hChain]
  have hContinues : chain.level.Continues op.shape := by cases op <;> cases hChain <;> decide
  have hStops : chain.operand.Stops op.shape := by cases op <;> cases hChain <;> decide
  have hReaches : Reaches chain (Term.binary op l r).print (Term.binary op l r).parameters (Term.binary op l r).Is := by
    rw [Term.print, hLeft, hRight]
    have hOperand : chain.operand ≠ .primary := by cases chain <;> decide
    exact ((hl.fit_reaches chain).joined hContinues hStops (hr.fit _ hOperand)).weaken fun _ _ => is_of_joined _
  constructor
  · rw [Term.level, hLevel]
    exact hReaches.reads
  · intro chain' hChain'
    have hSame : chain' = chain := by
      rw [Term.level, hLevel] at hChain'
      cases chain' <;> cases chain <;> first | rfl | cases hChain'
    exact hSame ▸ hReaches
  · rw [Term.print]
    exact (hl.opens_fit _).append _

theorem read_binary (op : BinaryOperator) {l r : Term} (hl : l.Read) (hr : r.Read) : (Term.binary op l r).Read := by
  have hOpens : Opens (Term.binary op l r).print := by
    rw [Term.print]
    exact (hl.opens_fit _).append _
  cases hChain : op.chain? with
  | some chain => exact read_chained hChain hl hr
  | none =>
    by_cases hLike : op = .like
    · subst hLike
      refine .mk' ?_ (by rintro (_ | _ | _ | _) <;> exact nofun) hOpens
      exact ((hl.fit .additive (by decide)).likeJoined (hr.fit .additive (by decide))).weaken
        fun _ _ => is_of_joined .like
    · have hLevel : op.level = .comparison := by simp only [BinaryOperator.level, hChain, if_neg hLike]
      have hLeft : op.left = .like := by simp only [BinaryOperator.left, hChain, if_neg hLike]
      have hRight : op.right = .additive := by simp only [BinaryOperator.right, hChain]
      have hShape : op.shape.1 = .kOperator ∧ Level.like.Stops op.shape ∧ op.shape.2 ≠ ascii "is" ∧ op.shape.2 ≠ ascii "in" := by
        cases op <;> first | exact absurd rfl hLike | exact absurd hChain (by decide) | decide
      obtain ⟨hKind, hStops, hIs, hIn⟩ := hShape
      refine .mk' ?_ (by rw [Term.level, hLevel]; rintro (_ | _ | _ | _) <;> exact nofun) hOpens
      rw [Term.level, hLevel, Term.print, hLeft, hRight]
      exact ((hl.fit .like (by decide)).compared hKind hStops hIs hIn (hr.fit .additive (by decide))).weaken
        fun _ _ => is_of_joined _

/-! ### Calls -/

def Term.item (term : Term) : Item := ⟨term.print, term.parameters, term.Is⟩

theorem tokens_items (args : List Term) : (args.map Term.item).map Item.tokens = Term.printAll args := by
  induction args with
  | nil => rfl
  | cons arg args ih => exact congrArg (arg.print :: ·) ih

theorem total_items (args : List Term) : Item.total (args.map Term.item) = Term.parametersAll args := by
  induction args with
  | nil => rfl
  | cons arg args ih =>
    rw [Item.total, List.map_cons, List.map_cons, List.sum_cons]
    exact congrArg (arg.parameters + ·) ih

theorem trees_items {args : List Term} {n : Nat} {trees : List Expr} (h : Item.Trees (args.map Term.item) n trees) :
    trees.map some = Term.exprAll args n := by
  induction args generalizing n trees with
  | nil =>
    cases h
    rfl
  | cons arg args ih =>
    obtain ⟨first, others, hFirst, hOthers, rfl⟩ := h
    cases hFirst
    exact congrArg (some (arg.expr n) :: ·) (ih hOthers)

theorem read_call (name : Name) {args : List Term} (h : ∀ arg ∈ args, arg.Read) : (Term.call name args).Read := by
  have hReads : ∀ item ∈ args.map Term.item, Reads .disjunction item.tokens item.parameters item.tree := by
    intro item hItem
    obtain ⟨arg, hArg, rfl⟩ := List.mem_map.mp hItem
    exact (h arg hArg).reads.loosen arg.level_ne_primary _ (Nat.zero_le _)
  have hOpens : ∀ item ∈ args.map Term.item, Opens item.tokens := by
    intro item hItem
    obtain ⟨arg, hArg, rfl⟩ := List.mem_map.mp hItem
    exact (h arg hArg).opens
  have hCall := (reads_call name.property.names _ hReads hOpens).unary name.property.not_unary
  refine .mk' ?_ (by rintro (_ | _ | _ | _) <;> exact nofun) ?_
  · rw [Item.separated, tokens_items, total_items] at hCall
    rw [Term.print, Term.parameters]
    refine hCall.weaken ?_
    rintro n tree ⟨trees, hTrees, rfl⟩
    rw [Term.Is, Term.expr, trees_items hTrees]
  · rw [Term.print]
    exact name.property.opens _

mutual

theorem Term.read : (term : Term) → term.Read
  | literal n => read_literal n
  | column name => read_column name
  | parameter => read_parameter
  | unary op arg => read_unary op arg.read
  | binary op left right => read_binary op left.read right.read
  | isNull negated arg => read_isNull negated arg.read
  | call name args => read_call name (Term.readAll args)

theorem Term.readAll : (args : List Term) → ∀ arg ∈ args, arg.Read
  | [] => nofun
  | first :: args => fun arg hArg => by
    obtain hFirst | hMore := List.mem_cons.mp hArg
    · rw [hFirst]
      exact first.read
    · exact Term.readAll args arg hMore

end

end Parser

/-- Parsing inverts printing. -/
theorem expression_print (term : Parser.Term) {p : Parser} (h : p.rest = term.print ++ [(.kEnd, [])]) :
    ∃ p', p.expression = .done (some (term.expr p.parameterCount), p') ∧ p'.status = p.status ∧ p'.tokens = p.tokens ∧
      p'.index = p.index + term.print.length ∧ p'.rest = [(.kEnd, [])] ∧
      p'.parameterCount = p.parameterCount + term.parameters := by
  have hReads := term.read.reads.loosen term.level_ne_primary .disjunction (Nat.zero_le _)
  obtain ⟨tree, rfl, hParsed⟩ := hReads.expression (Parser.ready_of_rest h) h
  exact ⟨_, hParsed, rfl, rfl, rfl, Parser.rest_after_append h _ _, rfl⟩

-- Behind a comparison nothing looser than a sum is read: of `a = b like c` the last two words are left.
example : (match tokenize (ascii "a = b like c") with
    | .ok tokens => match Parser.expression { tokens := tokens } with
      | .done (_, p) => p.rest
      | _ => []
    | _ => []) = [(.kWord, ascii "like"), (.kWord, ascii "c"), (.kEnd, [])] := by decide +kernel

/-! ## `-a * (? + 7) like b and f(?, a) is not null` -/

def sampleTerm : Parser.Term :=
  let a : Parser.Name := ⟨ascii "a", by decide, by decide +kernel, by decide⟩
  let b : Parser.Name := ⟨ascii "b", by decide, by decide +kernel, by decide⟩
  let f : Parser.Name := ⟨ascii "f", by decide, by decide +kernel, by decide⟩
  .binary .and
    (.binary .like (.binary .multiply (.unary .minus (.column a)) (.binary .add .parameter (.literal 7))) (.column b))
    (.isNull true (.call f [.parameter, .column a]))

def sampleParser : Parser :=
  { tokens := (sampleTerm.print ++ [(TokenKind.kEnd, [])]).map (fun (token : Parser.Shape) => ⟨token.1, token.2, 0⟩) }

theorem rest_sampleParser : sampleParser.rest = sampleTerm.print ++ [(.kEnd, [])] := by
  rw [Parser.rest, sampleParser, List.drop_zero, List.map_map]
  exact List.map_id _

theorem sampleParser_parsed : sampleParser.rest = sampleTerm.print ++ [(.kEnd, [])] ∧
    ∃ p', sampleParser.expression = .done (some (sampleTerm.expr 0), p') ∧ p'.status = .ok ∧ p'.tokens = sampleParser.tokens ∧
      p'.index = 0 + sampleTerm.print.length ∧ p'.rest = [(.kEnd, [])] ∧ p'.parameterCount = 0 + sampleTerm.parameters :=
  ⟨rest_sampleParser, expression_print sampleTerm rest_sampleParser⟩

end TupleStone
