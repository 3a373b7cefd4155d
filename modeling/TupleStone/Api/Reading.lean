import TupleStone.Api.ParserRules
import Mathlib.Data.Fintype.Basic

/-! # Token lists that a level reads

A level of the parser reads a list of tokens when, in front of any token that does not continue the level, its method
consumes exactly that list, whatever stands behind.
-/

set_option autoImplicit false

namespace TupleStone

open Unroll

namespace Parser

/-- The levels of the parser, the loosest first. -/
inductive Level where
  | disjunction
  | conjunction
  | comparison
  | like
  | additive
  | multiplicative
  | unary
  | primary
  deriving DecidableEq, Repr

namespace Level

instance : Fintype Level where
  elems := {disjunction, conjunction, comparison, like, additive, multiplicative, unary, primary}
  complete := fun level => by cases level <;> decide

def rank : Level → Nat
  | disjunction => 0
  | conjunction => 1
  | comparison => 2
  | like => 3
  | additive => 4
  | multiplicative => 5
  | unary => 6
  | primary => 7

def method : Level → Method
  | disjunction => .parseOr
  | conjunction => .parseAnd
  | comparison => .parseCompare
  | like => .parseLike
  | additive => .parseAdd
  | multiplicative => .parseMul
  | unary => .parseUnary
  | primary => .parsePrimary

/-- The tokens with which what the level has read goes on. -/
def Continues : Level → Shape → Prop
  | disjunction, token => token.2 = ascii "or"
  | conjunction, token => token.2 = ascii "and"
  | comparison, token => token.1 = .kOperator ∨ token.2 = ascii "is" ∨ token.2 = ascii "in"
  | like, token => token.2 = ascii "like"
  | additive, token => token.2 = ascii "+" ∨ token.2 = ascii "-"
  | multiplicative, token => token.2 = ascii "*" ∨ token.2 = ascii "/" ∨ token.2 = ascii "%"
  | unary, _ => False
  | primary, token => token.2 = ascii "." ∨ token.2 = ascii "("

instance (level : Level) (token : Shape) : Decidable (level.Continues token) := by
  cases level <;> (unfold Continues; infer_instance)

/-- Neither the level nor a tighter one takes the token. -/
def Stops (level : Level) (token : Shape) : Prop := ∀ tighter : Level, level.rank ≤ tighter.rank → ¬ tighter.Continues token

instance (level : Level) (token : Shape) : Decidable (level.Stops token) := by
  unfold Stops
  infer_instance

theorem Stops.here {level : Level} {token : Shape} (h : level.Stops token) : ¬ level.Continues token :=
  h level (Nat.le_refl _)

theorem Stops.tighter {level level' : Level} {token : Shape} (h : level.Stops token) (hRank : level.rank ≤ level'.rank) :
    level'.Stops token := fun _ hTighter => h _ (Nat.le_trans hRank hTighter)

end Level

/-- The level consumes the tokens, counts the parameters and returns a tree with the property, which may depend on how
many parameters were counted before. -/
def Reads (level : Level) (tokens : List Shape) (parameters : Nat) (Q : Nat → Expr → Prop) : Prop :=
  ∀ p next tail, rest p = tokens ++ next :: tail → level.Stops next →
    ∃ tree closed, Q p.parameterCount tree ∧ (level = .disjunction → closed = false) ∧
      parsed level.method p = .done (some tree, p.after tokens.length parameters closed)

variable {tokens left right : List Shape} {parameters : Nat} {Q : Nat → Expr → Prop}

theorem Reads.weaken {level : Level} (h : Reads level tokens parameters Q) {Q' : Nat → Expr → Prop}
    (hQ : ∀ n tree, Q n tree → Q' n tree) : Reads level tokens parameters Q' := by
  intro p next tail hRest hStops
  obtain ⟨tree, closed, hTree, hFlag, hParsed⟩ := h p next tail hRest hStops
  exact ⟨tree, closed, hQ _ _ hTree, hFlag, hParsed⟩

/-! ## Left-associative chains -/

/-- The four loops over operands of the next level. -/
inductive Chain where
  | disjunction
  | conjunction
  | additive
  | multiplicative
  deriving DecidableEq, Repr

namespace Chain

def level : Chain → Level
  | disjunction => .disjunction
  | conjunction => .conjunction
  | additive => .additive
  | multiplicative => .multiplicative

def operand : Chain → Level
  | disjunction => .conjunction
  | conjunction => .comparison
  | additive => .multiplicative
  | multiplicative => .unary

def loop : Chain → ExprPtr → Method
  | disjunction => .orLoop
  | conjunction => .andLoop
  | additive => .addLoop
  | multiplicative => .mulLoop

theorem rank_operand (chain : Chain) : chain.operand.rank = chain.level.rank + 1 := by cases chain <;> rfl

theorem stops_operand {chain : Chain} {token : Shape} (h : chain.level.Stops token) : chain.operand.Stops token :=
  h.tighter (by rw [chain.rank_operand]; omega)

theorem parsed_level (chain : Chain) :
    parsed chain.level.method = parsed chain.operand.method >>= fun left => parsed (chain.loop left) := by
  cases chain <;> exact parsed_eq _

variable {p : Parser} {kind : TokenKind} {text : Bytes} {tail : List Shape} {tree : Expr}

theorem wordLoop_hit {word : Bytes} {operand : Method} {loop : ExprPtr → Method} (hWord : word ≠ ascii ")")
    (h : rest p = (kind, word) :: tail) {r : ExprPtr} {q : Parser} (hOperand : parsed operand (p.after 1 0 false) = .done (r, q)) :
    (do
      if (some tree : ExprPtr).isNone then pure (some tree)
      else if ← accept word then
        let right ← parsed operand
        parsed (loop (some (.binary word (some tree) right)))
      else pure (some tree) : ParseM ExprPtr) p = parsed (loop (some (.binary word (some tree) r))) q := by
  rw [Option.isNone_some, if_neg Bool.false_ne_true]
  refine (bind_of_done (accept_hit h hWord)).trans ?_
  exact bind_of_done hOperand

theorem wordLoop_miss {word : Bytes} {operand : Method} {loop : ExprPtr → Method} (hWord : word ≠ ascii ")")
    (h : rest p = (kind, text) :: tail) (hText : text ≠ word) :
    (do
      if (some tree : ExprPtr).isNone then pure (some tree)
      else if ← accept word then
        let right ← parsed operand
        parsed (loop (some (.binary word (some tree) right)))
      else pure (some tree) : ParseM ExprPtr) p = .done (some tree, p.after 0 0 false) := by
  rw [Option.isNone_some, if_neg Bool.false_ne_true]
  exact (bind_of_done (accept_miss h hWord hText)).trans rfl

/-- A token that continues the chain is the operator between what was read and the next operand. -/
theorem loop_continues (chain : Chain) (tree : Expr) (h : rest p = (kind, text) :: tail) (hText : chain.level.Continues (kind, text)) :
    ∃ closed, ∀ r q, parsed chain.operand.method (p.after 1 0 closed) = .done (r, q) →
      parsed (chain.loop (some tree)) p = parsed (chain.loop (some (.binary text (some tree) r))) q := by
  obtain ⟨position, hPeek⟩ := peek_rest h
  cases chain with
  | disjunction =>
    obtain rfl : text = ascii "or" := hText
    refine ⟨false, fun r q hOperand => ?_⟩
    exact (congrFun (parsed_eq _) p).trans (wordLoop_hit (by decide) h hOperand)
  | conjunction =>
    obtain rfl : text = ascii "and" := hText
    refine ⟨false, fun r q hOperand => ?_⟩
    exact (congrFun (parsed_eq _) p).trans (wordLoop_hit (by decide) h hOperand)
  | additive =>
    refine ⟨p.closedParen, fun r q hOperand => ?_⟩
    refine (congrFun (parsed_eq _) p).trans ((bind_of_done hPeek).trans ?_)
    change (if text = ascii "+" ∨ text = ascii "-" then _ else _ : ParseM ExprPtr) p = _
    have hOp : text = ascii "+" ∨ text = ascii "-" := hText
    rw [if_pos hOp]
    exact (bind_of_done advance_eq).trans (bind_of_done hOperand)
  | multiplicative =>
    refine ⟨p.closedParen, fun r q hOperand => ?_⟩
    refine (congrFun (parsed_eq _) p).trans ((bind_of_done hPeek).trans ?_)
    change (if text = ascii "*" ∨ text = ascii "/" ∨ text = ascii "%" then _ else _ : ParseM ExprPtr) p = _
    have hOp : text = ascii "*" ∨ text = ascii "/" ∨ text = ascii "%" := hText
    rw [if_pos hOp]
    exact (bind_of_done advance_eq).trans (bind_of_done hOperand)

theorem loop_stops (chain : Chain) (tree : Expr) (h : rest p = (kind, text) :: tail) (hText : ¬ chain.level.Continues (kind, text)) :
    ∃ closed, (chain.level = .disjunction → closed = false) ∧
      parsed (chain.loop (some tree)) p = .done (some tree, p.after 0 0 closed) := by
  obtain ⟨position, hPeek⟩ := peek_rest h
  cases chain with
  | disjunction => exact ⟨false, fun _ => rfl, (congrFun (parsed_eq _) p).trans (wordLoop_miss (by decide) h hText)⟩
  | conjunction => exact ⟨false, fun _ => rfl, (congrFun (parsed_eq _) p).trans (wordLoop_miss (by decide) h hText)⟩
  | additive =>
    refine ⟨p.closedParen, nofun, (congrFun (parsed_eq _) p).trans ((bind_of_done hPeek).trans ?_)⟩
    change (if text = ascii "+" ∨ text = ascii "-" then _ else _ : ParseM ExprPtr) p = _
    have hOp : ¬ (text = ascii "+" ∨ text = ascii "-") := hText
    rw [if_neg hOp]
    rfl
  | multiplicative =>
    refine ⟨p.closedParen, nofun, (congrFun (parsed_eq _) p).trans ((bind_of_done hPeek).trans ?_)⟩
    change (if text = ascii "*" ∨ text = ascii "/" ∨ text = ascii "%" then _ else _ : ParseM ExprPtr) p = _
    have hOp : ¬ (text = ascii "*" ∨ text = ascii "/" ∨ text = ascii "%") := hText
    rw [if_neg hOp]
    rfl

/-- An operand in front of a token that does not continue the chain. -/
theorem arrives (chain : Chain) {p' : Parser} {next : Shape} (h : parsed chain.operand.method p = .done (some tree, p'))
    (hRest : rest p' = next :: tail) (hStops : ¬ chain.level.Continues next) :
    ∃ closed, (chain.level = .disjunction → closed = false) ∧
      parsed chain.level.method p = .done (some tree, p'.after 0 0 closed) := by
  obtain ⟨closed, hFlag, hLoop⟩ := chain.loop_stops tree hRest hStops
  refine ⟨closed, hFlag, ?_⟩
  rw [chain.parsed_level]
  exact (bind_of_done h).trans hLoop

end Chain

/-- Two operands and the operator between them. -/
def Joined (op : Bytes) (Q : Nat → Expr → Prop) (parameters : Nat) (Q' : Nat → Expr → Prop) (n : Nat) (tree : Expr) : Prop :=
  ∃ l r, Q n l ∧ Q' (n + parameters) r ∧ tree = .binary op (some l) (some r)

/-- The chain consumes the tokens and goes on with its loop. -/
def Reaches (chain : Chain) (tokens : List Shape) (parameters : Nat) (Q : Nat → Expr → Prop) : Prop :=
  ∀ p next tail, rest p = tokens ++ next :: tail → chain.operand.Stops next →
    ∃ tree closed, Q p.parameterCount tree ∧
      parsed chain.level.method p = parsed (chain.loop (some tree)) (p.after tokens.length parameters closed)

theorem rest_after_append {p : Parser} {tail : List Shape} (h : rest p = tokens ++ tail) (parameters : Nat) (closed : Bool) :
    (p.after tokens.length parameters closed).rest = tail := by
  rw [rest_after, h, List.drop_left]

/-- After an operand, an operator and an operand. -/
theorem after_joined (p : Parser) (m n k k' : Nat) (c c' c'' : Bool) :
    ((p.after m k c).after 1 0 c').after n k' c'' = p.after (m + (n + 1)) (k + k') c'' := by
  rw [after_after, after_after, Nat.add_zero, Nat.zero_add, Nat.add_comm 1]

theorem Reads.reaches {chain : Chain} (h : Reads chain.operand tokens parameters Q) : Reaches chain tokens parameters Q := by
  intro p next tail hRest hStops
  obtain ⟨tree, closed, hTree, -, hParsed⟩ := h p next tail hRest hStops
  refine ⟨tree, closed, hTree, ?_⟩
  rw [chain.parsed_level]
  exact bind_of_done hParsed

theorem Reaches.reads {chain : Chain} (h : Reaches chain tokens parameters Q) : Reads chain.level tokens parameters Q := by
  intro p next tail hRest hStops
  obtain ⟨tree, closed, hTree, hParsed⟩ := h p next tail hRest (Chain.stops_operand hStops)
  obtain ⟨closed', hFlag, hLoop⟩ := chain.loop_stops tree (rest_after_append hRest parameters closed) hStops.here
  refine ⟨tree, closed', hTree, hFlag, hParsed.trans (hLoop.trans ?_)⟩
  rw [after_after, Nat.add_zero, Nat.add_zero]

theorem Reads.chain (chain : Chain) (h : Reads chain.operand tokens parameters Q) : Reads chain.level tokens parameters Q :=
  h.reaches.reads

theorem Reaches.weaken {chain : Chain} (h : Reaches chain tokens parameters Q) {Q' : Nat → Expr → Prop}
    (hQ : ∀ n tree, Q n tree → Q' n tree) : Reaches chain tokens parameters Q' := by
  intro p next tail hRest hStops
  obtain ⟨tree, closed, hTree, hParsed⟩ := h p next tail hRest hStops
  exact ⟨tree, closed, hQ _ _ hTree, hParsed⟩

/-- One more operator and operand of a chain. -/
theorem Reaches.joined {chain : Chain} (hLeft : Reaches chain left parameters Q) {op : Shape}
    (hOp : chain.level.Continues op) (hStops : chain.operand.Stops op) {parameters' : Nat} {Q' : Nat → Expr → Prop}
    (hRight : Reads chain.operand right parameters' Q') :
    Reaches chain (left ++ op :: right) (parameters + parameters') (Joined op.2 Q parameters Q') := by
  intro p next tail hRest hNext
  rw [List.append_assoc, List.cons_append] at hRest
  obtain ⟨l, closed, hL, hParsed⟩ := hLeft p op _ hRest hStops
  have hOpRest := rest_after_append hRest parameters closed
  obtain ⟨flag, hLoop⟩ := chain.loop_continues l hOpRest hOp
  have hRightRest : ((p.after left.length parameters closed).after 1 0 flag).rest = right ++ next :: tail := by
    rw [rest_after, hOpRest]
    rfl
  obtain ⟨r, closed', hR, -, hOperand⟩ := hRight _ next tail hRightRest hNext
  refine ⟨.binary op.2 (some l) (some r), closed', ⟨l, r, hL, hR, rfl⟩, ?_⟩
  rw [hParsed, hLoop _ _ hOperand, after_joined, List.length_append, List.length_cons]

/-! ## The levels between the chains -/

section Arrivals

variable {p p' : Parser} {tree : Expr} {next : Shape} {tail : List Shape}

theorem arrives_like (h : parsed .parseAdd p = .done (some tree, p')) (hRest : rest p' = next :: tail)
    (hStops : ¬ Level.like.Continues next) : parsed .parseLike p = .done (some tree, p'.after 0 0 false) := by
  refine (congrFun (parsed_eq _) p).trans ((bind_of_done h).trans ?_)
  rw [Option.isNone_some, if_neg Bool.false_ne_true]
  exact (bind_of_done (accept_miss hRest (by decide) hStops)).trans rfl

theorem arrives_comparison (h : parsed .parseLike p = .done (some tree, p')) (hRest : rest p' = next :: tail)
    (hStops : ¬ Level.comparison.Continues next) : parsed .parseCompare p = .done (some tree, p') := by
  obtain ⟨position, hPeek⟩ := peek_rest hRest
  refine (congrFun (parsed_eq _) p).trans ((bind_of_done h).trans ((bind_of_done hPeek).trans ?_))
  have hOp : ¬ (next.1 = .kOperator ∨ next.2 = ascii "is" ∨ next.2 = ascii "in") := hStops
  change (if next.1 = .kOperator ∨ next.2 = ascii "is" ∨ next.2 = ascii "in" then _ else _ : ParseM ExprPtr) _ = _
  rw [if_neg hOp]
  rfl

/-- An operand in front of a token that continues no level is an expression. -/
theorem arrives_disjunction (h : parsed .parseUnary p = .done (some tree, p')) (hRest : rest p' = next :: tail)
    (hStops : Level.disjunction.Stops next) : parsed .parseOr p = .done (some tree, p'.after 0 0 false) := by
  have hAgain (closed : Bool) : rest (p'.after 0 0 closed) = next :: tail := by rw [rest_after, List.drop_zero, hRest]
  have hHere (level : Level) : ¬ level.Continues next := hStops level (Nat.zero_le _)
  obtain ⟨c, -, hMul⟩ := Chain.arrives .multiplicative h hRest (hHere _)
  obtain ⟨c', -, hAdd⟩ := Chain.arrives .additive hMul (hAgain c) (hHere _)
  rw [after_after] at hAdd
  have hLike := arrives_like hAdd (hAgain c') (hHere _)
  rw [after_after] at hLike
  have hCompare := arrives_comparison hLike (hAgain false) (hHere _)
  obtain ⟨c'', -, hAnd⟩ := Chain.arrives .conjunction hCompare (hAgain false) (hHere _)
  rw [after_after] at hAnd
  obtain ⟨closed, hFlag, hOr⟩ := Chain.arrives .disjunction hAnd (hAgain c'') (hHere _)
  rw [after_after, hFlag rfl] at hOr
  exact hOr

end Arrivals

theorem Reads.like (h : Reads .additive tokens parameters Q) : Reads .like tokens parameters Q := by
  intro p next tail hRest hStops
  obtain ⟨tree, closed, hTree, -, hParsed⟩ := h p next tail hRest (hStops.tighter (by decide))
  have hLike := arrives_like hParsed (rest_after_append hRest parameters closed) hStops.here
  rw [after_after, Nat.add_zero, Nat.add_zero] at hLike
  exact ⟨tree, false, hTree, nofun, hLike⟩

theorem Reads.likeJoined (hLeft : Reads .additive left parameters Q) {kind : TokenKind} {parameters' : Nat}
    {Q' : Nat → Expr → Prop} (hRight : Reads .additive right parameters' Q') :
    Reads .like (left ++ (kind, ascii "like") :: right) (parameters + parameters') (Joined (ascii "like") Q parameters Q') := by
  intro p next tail hRest hStops
  rw [List.append_assoc, List.cons_append] at hRest
  have hLike : Level.additive.Stops (kind, ascii "like") := by
    intro level hRank
    cases level <;> simp [Level.rank, Level.Continues] at hRank ⊢ <;> decide
  obtain ⟨l, closed, hL, -, hParsed⟩ := hLeft p _ _ hRest hLike
  have hOpRest := rest_after_append hRest parameters closed
  have hRightRest : ((p.after left.length parameters closed).after 1 0 false).rest = right ++ next :: tail := by
    rw [rest_after, hOpRest]
    rfl
  obtain ⟨r, closed', hR, -, hOperand⟩ := hRight _ next tail hRightRest (hStops.tighter (by decide))
  refine ⟨.binary (ascii "like") (some l) (some r), closed', ⟨l, r, hL, hR, rfl⟩, nofun, ?_⟩
  refine (congrFun (parsed_eq _) p).trans ((bind_of_done hParsed).trans ?_)
  rw [Option.isNone_some, if_neg Bool.false_ne_true]
  refine (bind_of_done (accept_hit hOpRest (by decide))).trans ((bind_of_done hOperand).trans ?_)
  rw [after_joined, List.length_append, List.length_cons]
  rfl

theorem Reads.comparison (h : Reads .like tokens parameters Q) : Reads .comparison tokens parameters Q := by
  intro p next tail hRest hStops
  obtain ⟨tree, closed, hTree, -, hParsed⟩ := h p next tail hRest (hStops.tighter (by decide))
  exact ⟨tree, closed, hTree, nofun, arrives_comparison hParsed (rest_after_append hRest parameters closed) hStops.here⟩

/-- What the method does once it has read the left operand and sees an operator. -/
theorem compare_operator {p q : Parser} {l : Expr} {next : Shape} {tail : List Shape}
    (hParsed : parsed .parseLike p = .done (some l, q)) (hRest : rest q = next :: tail) (hOp : Level.comparison.Continues next) :
    parsed .parseCompare p =
      (if next.2 = ascii "is" then parseIs (some l)
      else if next.2 = ascii "in" then do
        if ← expect (ascii "(") then parsed (.inLoop [some l]) else pure none
      else do
        let right ← parsed .parseAdd
        pure (some (.binary next.2 (some l) right)) : ParseM ExprPtr) (q.after 1 0 q.closedParen) := by
  obtain ⟨position, hPeek⟩ := peek_rest hRest
  refine (congrFun (parsed_eq _) p).trans ((bind_of_done hParsed).trans ((bind_of_done hPeek).trans ?_))
  have hListed : next.1 = .kOperator ∨ next.2 = ascii "is" ∨ next.2 = ascii "in" := hOp
  change (if next.1 = .kOperator ∨ next.2 = ascii "is" ∨ next.2 = ascii "in" then _ else _ : ParseM ExprPtr) _ = _
  rw [if_pos hListed]
  exact bind_of_done advance_eq

theorem Reads.compared (hLeft : Reads .like left parameters Q) {op : Shape} (hOp : op.1 = .kOperator)
    (hStops : Level.like.Stops op) (hIs : op.2 ≠ ascii "is") (hIn : op.2 ≠ ascii "in") {parameters' : Nat}
    {Q' : Nat → Expr → Prop} (hRight : Reads .additive right parameters' Q') :
    Reads .comparison (left ++ op :: right) (parameters + parameters') (Joined op.2 Q parameters Q') := by
  intro p next tail hRest hNext
  rw [List.append_assoc, List.cons_append] at hRest
  obtain ⟨l, closed, hL, -, hParsed⟩ := hLeft p _ _ hRest hStops
  have hOpRest := rest_after_append hRest parameters closed
  have hRightRest : ((p.after left.length parameters closed).after 1 0 closed).rest = right ++ next :: tail := by
    rw [rest_after, hOpRest]
    rfl
  obtain ⟨r, closed', hR, -, hOperand⟩ := hRight _ next tail hRightRest (hNext.tighter (by decide))
  refine ⟨.binary op.2 (some l) (some r), closed', ⟨l, r, hL, hR, rfl⟩, nofun, ?_⟩
  refine (compare_operator hParsed hOpRest (.inl hOp)).trans ?_
  rw [if_neg hIs, if_neg hIn]
  refine (bind_of_done hOperand).trans ?_
  rw [after_joined, List.length_append, List.length_cons]
  rfl

/-- The words behind the operand of a null test. -/
def nullTest (negated : Bool) : List Shape :=
  (.kWord, ascii "is") :: ((if negated then [(.kWord, ascii "not")] else []) ++ [(.kWord, ascii "null")])

def nullOperator (negated : Bool) : Bytes := if negated then ascii "is not null" else ascii "is null"

theorem Reads.isNull (h : Reads .like tokens parameters Q) (negated : Bool) :
    Reads .comparison (tokens ++ nullTest negated) parameters
      (fun n tree => ∃ arg, Q n arg ∧ tree = .isNull (nullOperator negated) (some arg)) := by
  intro p next tail hRest hNext
  rw [List.append_assoc] at hRest
  obtain ⟨arg, closed, hArg, -, hParsed⟩ := h p (.kWord, ascii "is") _ hRest (by decide)
  have hIsRest := rest_after_append hRest parameters closed
  refine ⟨.isNull (nullOperator negated) (some arg), false, ⟨arg, hArg, rfl⟩, nofun, ?_⟩
  refine (compare_operator hParsed hIsRest (by decide)).trans ?_
  rw [if_pos rfl]
  have hWords : ((p.after tokens.length parameters closed).after 1 0 closed).rest =
      (if negated then [(.kWord, ascii "not")] else []) ++ (.kWord, ascii "null") :: next :: tail := by
    rw [rest_after, hIsRest]
    cases negated <;> rfl
  cases negated with
  | true =>
    have hNull : (((p.after tokens.length parameters closed).after 1 0 closed).after 1 0 false).rest =
        (.kWord, ascii "null") :: next :: tail := by
      rw [rest_after, hWords]
      rfl
    refine (bind_of_done (accept_hit hWords (by decide))).trans ?_
    refine (bind_of_done (expect_hit hNull (by decide))).trans ?_
    rw [after_after, after_after, after_after, List.length_append]
    rfl
  | false =>
    have hNull : (((p.after tokens.length parameters closed).after 1 0 closed).after 0 0 false).rest =
        (.kWord, ascii "null") :: next :: tail := by
      rw [rest_after, hWords]
      rfl
    refine (bind_of_done (accept_miss hWords (by decide) (by decide))).trans ?_
    refine (bind_of_done (expect_hit hNull (by decide))).trans ?_
    rw [after_after, after_after, after_after, List.length_append]
    rfl

/-! ## Unary operators and parentheses -/

theorem Reads.negated (h : Reads .unary tokens parameters Q) {op : Shape} (hOp : op.2 ∈ [ascii "not", ascii "-", ascii "+"]) :
    Reads .unary (op :: tokens) parameters (fun n tree => ∃ arg, Q n arg ∧ tree = .unary op.2 (some arg)) := by
  intro p next tail hRest hNext
  rw [List.cons_append] at hRest
  have hArgRest : (p.after 1 0 false).rest = tokens ++ next :: tail := by
    rw [rest_after, hRest]
    rfl
  obtain ⟨arg, closed, hArg, -, hParsed⟩ := h _ next tail hArgRest hNext
  refine ⟨.unary op.2 (some arg), closed, ⟨arg, hArg, rfl⟩, nofun, ?_⟩
  refine (congrFun (parsed_eq _) p).trans ((bind_of_done (unaryOperator_hit hOp hRest)).trans ?_)
  refine (bind_of_done hParsed).trans ?_
  rw [after_after, Nat.add_comm 1, Nat.zero_add]
  rfl

theorem Reads.unary {head : Shape} (h : Reads .primary (head :: tokens) parameters Q)
    (hHead : head.2 ∉ [ascii "not", ascii "-", ascii "+"]) : Reads .unary (head :: tokens) parameters Q := by
  intro p next tail hRest hNext
  have hAgain : (p.after 0 0 false).rest = head :: tokens ++ next :: tail := by rw [rest_after, List.drop_zero, hRest]
  obtain ⟨tree, closed, hTree, -, hParsed⟩ := h _ next tail hAgain (hNext.tighter (by decide))
  refine ⟨tree, closed, hTree, nofun, ?_⟩
  refine (congrFun (parsed_eq _) p).trans ((bind_of_done (unaryOperator_miss hHead hRest)).trans ?_)
  refine hParsed.trans ?_
  rw [after_after, Nat.zero_add, Nat.zero_add]

def enclosed (tokens : List Shape) : List Shape :=
  (.kPunctuation, ascii "(") :: (tokens ++ [(.kPunctuation, ascii ")")])

@[simp] theorem length_enclosed (tokens : List Shape) : (enclosed tokens).length = tokens.length + 2 := by
  simp [enclosed]

theorem Reads.enclosed (h : Reads .disjunction tokens parameters Q) : Reads .primary (enclosed tokens) parameters Q := by
  intro p next tail hRest hNext
  rw [Parser.enclosed, List.cons_append, List.append_assoc] at hRest
  have hInside : (p.after 1 0 false).rest = tokens ++ (.kPunctuation, ascii ")") :: next :: tail := by
    rw [rest_after, hRest]
    rfl
  obtain ⟨tree, closed, hTree, -, hParsed⟩ := h _ _ _ hInside (by decide)
  refine ⟨tree, true, hTree, nofun, ?_⟩
  refine (congrFun (parsed_eq _) p).trans ((bind_of_done (accept_hit hRest (by decide))).trans ?_)
  refine (bind_of_done hParsed).trans ((bind_of_done (expect_close (rest_after_append hInside parameters closed))).trans ?_)
  have hLength : 1 + tokens.length + 1 = tokens.length + 2 := by omega
  rw [after_after, after_after, length_enclosed, Nat.zero_add, Nat.add_zero, ← Nat.add_assoc, hLength]
  rfl

/-- The next looser level. -/
def Level.looser : Level → Level
  | .disjunction => .disjunction
  | .conjunction => .disjunction
  | .comparison => .conjunction
  | .like => .comparison
  | .additive => .like
  | .multiplicative => .additive
  | .unary => .multiplicative
  | .primary => .unary

theorem Reads.looser {level : Level} (h : Reads level tokens parameters Q) (hLevel : level ≠ .primary) :
    Reads level.looser tokens parameters Q := by
  cases level with
  | disjunction => exact h
  | conjunction => exact Reads.chain .disjunction h
  | comparison => exact Reads.chain .conjunction h
  | like => exact h.comparison
  | additive => exact h.like
  | multiplicative => exact Reads.chain .additive h
  | unary => exact Reads.chain .multiplicative h
  | primary => exact absurd rfl hLevel

theorem Level.rank_looser (level : Level) : level.looser.rank = level.rank - 1 := by cases level <;> rfl

theorem Level.rank_injective {level level' : Level} (h : level.rank = level'.rank) : level = level' := by
  cases level <;> cases level' <;> first | rfl | cases h

/-- What a level above the primary one reads, every looser level reads as well. -/
theorem Reads.loosen {level : Level} (h : Reads level tokens parameters Q) (hLevel : level ≠ .primary) (level' : Level)
    (hRank : level'.rank ≤ level.rank) : Reads level' tokens parameters Q := by
  obtain ⟨steps, hSteps⟩ := Nat.exists_eq_add_of_le hRank
  induction steps generalizing level with
  | zero => exact Level.rank_injective hSteps ▸ h
  | succ steps ih =>
    have hLooser := level.rank_looser
    have hNot : level.looser ≠ .primary := by cases level <;> decide
    exact ih (h.looser hLevel) hNot (by omega) (by omega)

/-! ## Operands -/

/-- What is done with the first token of an operand that is not in parentheses. -/
def ofKind (call : Method → ParseM ExprPtr) (kind : TokenKind) (text : Bytes) : ParseM ExprPtr :=
  match kind with
  | .kNumber => parseNumber text
  | .kString => do
    advance
    pure (some (.ofLiteral (.text text)))
  | .kParameter => parseParameter
  | .kWord => parseWord call
  | _ => do
    fail (.syntaxError (ascii "expected expression"))
    pure none

theorem primary_of {p : Parser} {kind : TokenKind} {text : Bytes} {tail : List Shape} (h : rest p = (kind, text) :: tail)
    (hText : text ≠ ascii "(") : parsed .parsePrimary p = ofKind parsed kind text (p.after 0 0 false) := by
  have hAgain : (p.after 0 0 false).rest = (kind, text) :: tail := by rw [rest_after, List.drop_zero, h]
  obtain ⟨position, hPeek⟩ := peek_rest hAgain
  refine (congrFun (parsed_eq _) p).trans ((bind_of_done (accept_miss h (by decide) hText)).trans ?_)
  refine (bind_of_done hPeek).trans ?_
  cases kind <;> rfl

theorem reads_number {text : Bytes} (hText : text ≠ ascii "(") {value : Value} (hValue : numericLiteral text = some value) :
    Reads .primary [(.kNumber, text)] 0 (fun _ tree => tree = .ofLiteral value) := by
  intro p next tail hRest hNext
  refine ⟨_, false, rfl, nofun, (primary_of hRest hText).trans ?_⟩
  refine (bind_of_done advance_eq).trans ?_
  rw [hValue, after_after]
  rfl

theorem reads_string {text : Bytes} (hText : text ≠ ascii "(") :
    Reads .primary [(.kString, text)] 0 (fun _ tree => tree = .ofLiteral (.text text)) := by
  intro p next tail hRest hNext
  refine ⟨_, false, rfl, nofun, (primary_of hRest hText).trans ?_⟩
  refine (bind_of_done advance_eq).trans ?_
  rw [after_after]
  rfl

theorem reads_parameter : Reads .primary [(.kParameter, ascii "?")] 1 (fun n tree => tree = .ofParameter n) := by
  intro p next tail hRest hNext
  refine ⟨_, false, rfl, nofun, (primary_of hRest (by decide)).trans ?_⟩
  rfl

/-- A word that names a column or a function. -/
structure Names (name : Bytes) : Prop where
  opens : name ≠ ascii "("
  literal : name ∉ [ascii "null", ascii "true", ascii "false"]

theorem identifier_word {p : Parser} {name : Bytes} {tail : List Shape} (h : rest p = (.kWord, name) :: tail) :
    identifier p = .done (name, p.after 1 0 p.closedParen) := by
  obtain ⟨position, hPeek⟩ := peek_rest h
  exact (bind_of_done hPeek).trans rfl

/-- What follows a name decides between a column and a call. -/
theorem word_name {p : Parser} {name : Bytes} (hName : Names name) {next : Shape} {tail : List Shape}
    (h : rest p = (.kWord, name) :: next :: tail) (hNext : next.2 ≠ ascii ".") :
    parseWord parsed p =
      (do
        if ← accept (ascii "(") then
          if ← accept (ascii ")") then pure (some (.ofFunction name []))
          else parsed (.argumentLoop name [])
        else pure (some (.ofColumn name)) : ParseM ExprPtr) (p.after 1 0 false) := by
  have hLiteral := hName.literal
  simp only [List.mem_cons, List.not_mem_nil, or_false, not_or] at hLiteral
  have hNextRest : (p.after 1 0 p.closedParen).rest = next :: tail := by
    rw [rest_after, h]
    rfl
  refine (bind_of_done (identifier_word h)).trans ?_
  rw [if_neg hLiteral.1, if_neg (not_or.mpr hLiteral.2)]
  have hQualified : qualifiedName name (p.after 1 0 p.closedParen) = .done (name, p.after 1 0 false) := by
    refine (bind_of_done (accept_miss hNextRest (by decide) hNext)).trans ?_
    rw [after_after]
    rfl
  exact bind_of_done hQualified

theorem reads_column {name : Bytes} (hName : Names name) :
    Reads .primary [(.kWord, name)] 0 (fun _ tree => tree = .ofColumn name) := by
  intro p next tail hRest hNext
  obtain ⟨hDot, hParen⟩ := not_or.mp hNext.here
  refine ⟨_, false, rfl, nofun, (primary_of hRest hName.opens).trans ?_⟩
  have hAgain : (p.after 0 0 false).rest = (.kWord, name) :: next :: tail := by
    rw [rest_after, List.drop_zero, hRest]
    rfl
  have hNextRest : ((p.after 0 0 false).after 1 0 false).rest = next :: tail := by
    rw [rest_after, hAgain]
    rfl
  refine (word_name hName hAgain hDot).trans ((bind_of_done (accept_miss hNextRest (by decide) hParen)).trans ?_)
  rw [after_after, after_after]
  rfl

/-! ## Calls -/

/-- Tokens, the parameters among them, and what is known of the tree they are read as. -/
structure Item where
  tokens : List Shape
  parameters : Nat
  tree : Nat → Expr → Prop

/-- Token lists with commas between them. -/
def separated : List (List Shape) → List Shape
  | [] => []
  | [tokens] => tokens
  | tokens :: next :: more => tokens ++ (.kPunctuation, ascii ",") :: separated (next :: more)

namespace Item

def separated (items : List Item) : List Shape := Parser.separated (items.map Item.tokens)

theorem separated_cons (item next : Item) (items : List Item) :
    separated (item :: next :: items) = item.tokens ++ (.kPunctuation, ascii ",") :: separated (next :: items) := rfl

def total (items : List Item) : Nat := (items.map Item.parameters).sum

/-- The trees of the items, read from left to right. -/
def Trees : List Item → Nat → List Expr → Prop
  | [], _, trees => trees = []
  | item :: items, n, trees => ∃ first others, item.tree n first ∧ Trees items (n + item.parameters) others ∧ trees = first :: others

end Item

/-- The first token is none of those for which a loop over items looks before it reads one. -/
def Opens (tokens : List Shape) : Prop := ∃ head tail, tokens = head :: tail ∧ head.2 ∉ [ascii "*", ascii ")"]

theorem Opens.append (h : Opens tokens) (more : List Shape) : Opens (tokens ++ more) := by
  obtain ⟨head, tail, rfl, hHead⟩ := h
  exact ⟨head, tail ++ more, rfl, hHead⟩

/-- One argument, after the star that it is not. -/
theorem argument_read (h : Reads .disjunction tokens parameters Q) (hOpens : Opens tokens) {p : Parser} {next : Shape}
    {tail : List Shape} (hRest : rest p = tokens ++ next :: tail) (hNext : Level.disjunction.Stops next) :
    ∃ tree, Q p.parameterCount tree ∧ argument parsed p = .done (some tree, p.after tokens.length parameters false) := by
  have hAgain : (p.after 0 0 false).rest = tokens ++ next :: tail := by rw [rest_after, List.drop_zero, hRest]
  obtain ⟨tree, closed, hTree, hFlag, hParsed⟩ := h _ next tail hAgain hNext
  obtain rfl := hFlag rfl
  obtain ⟨head, more, rfl, hHead⟩ := hOpens
  simp only [List.mem_cons, List.not_mem_nil, or_false, not_or] at hHead
  refine ⟨tree, hTree, (bind_of_done (accept_miss hRest (by decide) hHead.1)).trans ?_⟩
  refine Eq.trans ?_ hParsed |>.trans ?_
  · rfl
  · rw [after_after, Nat.zero_add, Nat.zero_add]

theorem parsed_arguments (name : Bytes) (items : List Item)
    (hReads : ∀ item ∈ items, Reads .disjunction item.tokens item.parameters item.tree)
    (hOpens : ∀ item ∈ items, Opens item.tokens) (hSome : items ≠ []) (args : List ExprPtr) (p : Parser) (tail : List Shape)
    (hRest : rest p = Item.separated items ++ (.kPunctuation, ascii ")") :: tail) :
    ∃ trees, Item.Trees items p.parameterCount trees ∧
      parsed (.argumentLoop name args) p =
        .done (some (.ofFunction name (args ++ trees.map some)),
          p.after ((Item.separated items).length + 1) (Item.total items) false) := by
  induction items generalizing args p with
  | nil => exact absurd rfl hSome
  | cons item items ih =>
    have hItem := hReads item (List.mem_cons_self ..)
    have hItemOpens := hOpens item (List.mem_cons_self ..)
    cases items with
    | nil =>
      obtain ⟨tree, hTree, hArgument⟩ := argument_read hItem hItemOpens hRest (by decide)
      have hClose := rest_after_append hRest item.parameters false
      refine ⟨[tree], ⟨tree, [], hTree, rfl, rfl⟩, (congrFun (parsed_eq _) p).trans ?_⟩
      refine (bind_of_done hArgument).trans ((bind_of_done (accept_close hClose)).trans ?_)
      rw [after_after]
      rfl
    | cons next items =>
      rw [Item.separated_cons, List.append_assoc, List.cons_append] at hRest
      obtain ⟨tree, hTree, hArgument⟩ := argument_read hItem hItemOpens hRest (by decide)
      have hComma := rest_after_append hRest item.parameters false
      have hNext : ((p.after item.tokens.length item.parameters false).after 1 0 false).rest =
          Item.separated (next :: items) ++ (.kPunctuation, ascii ")") :: tail := by
        rw [rest_after, hComma]
        rfl
      obtain ⟨trees, hTrees, hLoop⟩ := ih (fun i hi => hReads i (List.mem_cons_of_mem _ hi))
        (fun i hi => hOpens i (List.mem_cons_of_mem _ hi)) (List.cons_ne_nil _ _) (args ++ [some tree]) _ hNext
      refine ⟨tree :: trees, ⟨tree, trees, hTree, hTrees, rfl⟩, (congrFun (parsed_eq _) p).trans ?_⟩
      refine (bind_of_done hArgument).trans ((bind_of_done (accept_other hComma (by decide) rfl)).trans ?_)
      refine (bind_of_done (expect_hit hComma (by decide))).trans (hLoop.trans ?_)
      rw [List.append_assoc, after_joined, Item.separated_cons, List.length_append, List.length_cons]
      have hLength : item.tokens.length + ((Item.separated (next :: items)).length + 1 + 1) =
          item.tokens.length + ((Item.separated (next :: items)).length + 1) + 1 := by omega
      rw [hLength]
      rfl

theorem reads_call {name : Bytes} (hName : Names name) (items : List Item)
    (hReads : ∀ item ∈ items, Reads .disjunction item.tokens item.parameters item.tree)
    (hOpens : ∀ item ∈ items, Opens item.tokens) :
    Reads .primary ((.kWord, name) :: enclosed (Item.separated items)) (Item.total items)
      (fun n tree => ∃ trees, Item.Trees items n trees ∧ tree = .ofFunction name (trees.map some)) := by
  intro p next tail hRest hNext
  rw [List.cons_append, enclosed, List.cons_append, List.append_assoc] at hRest
  have hAgain : (p.after 0 0 false).rest = p.rest := by rw [rest_after, List.drop_zero]
  have hOpen := hAgain.trans hRest
  have hInside : ((p.after 0 0 false).after 1 0 false).rest =
      (.kPunctuation, ascii "(") :: (Item.separated items ++ (.kPunctuation, ascii ")") :: next :: tail) := by
    rw [rest_after, hOpen]
    rfl
  have hItems : (((p.after 0 0 false).after 1 0 false).after 1 0 false).rest =
      Item.separated items ++ (.kPunctuation, ascii ")") :: next :: tail := by
    rw [rest_after, hInside]
    rfl
  have hWord := (primary_of hRest hName.opens).trans
    ((word_name hName hOpen (by decide)).trans (bind_of_done (accept_hit hInside (by decide))))
  cases items with
  | nil =>
    refine ⟨.ofFunction name [], false, ⟨[], rfl, rfl⟩, nofun, hWord.trans ?_⟩
    refine (bind_of_done (accept_close hItems)).trans ?_
    rw [after_after, after_after, after_after]
    rfl
  | cons item items =>
    obtain ⟨head, more, hHead, hNot⟩ : Opens (Item.separated (item :: items)) := by
      have hItemOpens := hOpens item (List.mem_cons_self ..)
      cases items with
      | nil => exact hItemOpens
      | cons next items => exact hItemOpens.append _
    simp only [List.mem_cons, List.not_mem_nil, or_false, not_or] at hNot
    obtain ⟨trees, hTrees, hLoop⟩ := parsed_arguments name (item :: items) hReads hOpens (List.cons_ne_nil _ _) [] _ _ hItems
    refine ⟨.ofFunction name (trees.map some), false, ⟨trees, hTrees, rfl⟩, nofun, hWord.trans ?_⟩
    rw [hHead] at hItems
    refine (bind_of_done (accept_other hItems hNot.2 rfl)).trans (hLoop.trans ?_)
    rw [after_after, after_after, after_after, List.length_cons, length_enclosed, Nat.zero_add, Nat.zero_add]
    have hLength : 1 + (1 + ((Item.separated (item :: items)).length + 1)) = (Item.separated (item :: items)).length + 2 + 1 := by
      omega
    rw [hLength, Nat.zero_add, Nat.zero_add]
    rfl

/-! ## A whole expression -/

theorem ready_of_rest {p : Parser} {tokens : List Shape} (h : rest p = tokens ++ [(.kEnd, [])]) : Ready p := by
  have hSome : p.tokens.drop p.index ≠ [] := by
    intro hNil
    rw [rest, hNil] at h
    exact absurd h.symm (by simp)
  obtain ⟨body, last, hDrop⟩ := List.eq_nil_or_concat (p.tokens.drop p.index) |>.resolve_left hSome
  rw [List.concat_eq_append] at hDrop
  have hLast : shape last = (.kEnd, []) := by
    rw [rest, hDrop, List.map_append, List.map_singleton] at h
    exact (List.append_inj' h rfl).2 |> List.singleton_inj.mp
  obtain ⟨kind, text, position⟩ := last
  cases hLast
  constructor
  · refine ⟨p.tokens.take p.index ++ body, position, ?_⟩
    rw [List.append_assoc, ← hDrop, List.take_append_drop]
  · by_contra hOut
    exact hSome (List.drop_eq_nil_of_le (Nat.le_of_not_lt hOut))

/-- Tokens read at the loosest level in front of the end token are an expression. -/
theorem Reads.expression (h : Reads .disjunction tokens parameters Q) {p : Parser} (hReady : Ready p)
    (hRest : rest p = tokens ++ [(.kEnd, [])]) :
    ∃ tree, Q p.parameterCount tree ∧ expression p = .done (some tree, p.after tokens.length parameters false) := by
  obtain ⟨tree, closed, hTree, hFlag, hParsed⟩ := h p _ [] hRest (by decide)
  obtain rfl := hFlag rfl
  exact ⟨tree, hTree, (expression_eq_parsed hReady).trans hParsed⟩

end Parser

end TupleStone
