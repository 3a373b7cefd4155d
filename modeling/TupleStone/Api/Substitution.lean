import TupleStone.Api.Eval
import TupleStone.Api.Printing
import TupleStone.Lib.Simulation

/-! # Parameters are substitution

The run on the tokens is accompanied by the run on the tokens whose parameters are replaced by numbers. Both consume the
same number of tokens; the tree of the second run is that of the first one with literals in place of its parameters.
-/

set_option autoImplicit false

namespace TupleStone

open Outcome

/-- A value that a number of the tokens can stand for. -/
abbrev Numeral := Fin (2 ^ 63)

namespace Numeral

def value (n : Numeral) : Value := .integer (Int64.ofNat n.val)

def token (n : Numeral) (position : Nat) : Token := ⟨.kNumber, Parser.decimal n.val, position⟩

end Numeral

/-- The number of parameters among the tokens. -/
def parametersIn (tokens : List Token) : Nat := tokens.countP (fun token => token.kind == .kParameter)

/-- The tokens with the `i`-th parameter replaced by the `i`-th number. -/
def substitute : List Numeral → List Token → List Token
  | n :: values, token :: tokens =>
    if token.kind = .kParameter then n.token token.position :: substitute values tokens
    else token :: substitute (n :: values) tokens
  | _, tokens => tokens

/-- Parameters are spelled as the tokenizer spells them, and no quoted identifier is spelled like one. -/
structure Spelled (tokens : List Token) : Prop where
  parameter : ∀ token ∈ tokens, token.kind = .kParameter → token.text = ascii "?"
  word : ∀ token ∈ tokens, token.kind = .kWord → token.text ≠ ascii "?"

namespace Tokenize

theorem step_parameter_text {c : UInt8} {rest : Bytes} {read : Step} {token : TokenKind × Bytes} (h : step c rest = .ok read)
    (hToken : read.token = some token) (hKind : token.1 = .kParameter) : token.2 = ascii "?" := by
  rw [step] at h
  split at h
  · cases h; cases hToken
  split at h
  · cases h; cases hToken
  split at h
  · cases h; cases hToken; cases hKind
  split at h
  · cases h; cases hToken; cases hKind
  split at h
  · split at h
    · cases h
    · cases h; cases hToken
      split at hKind <;> cases hKind
  split at h
  · cases h; cases hToken; rfl
  split at h
  · cases h; cases hToken; cases hKind
  split at h
  · cases h; cases hToken; cases hKind
  split at h
  · cases h; cases hToken; cases hKind
  · cases h

end Tokenize

theorem spelled_of_tokenize {sql : Bytes} {tokens : List Token} (h : tokenize sql = .ok tokens)
    (hWord : ∀ token ∈ tokens, token.kind = .kWord → token.text ≠ ascii "?") : Spelled tokens := by
  constructor
  · exact Tokenize.loop_forall (P := fun kind text => kind = .kParameter → text = ascii "?") nofun
      (fun _ _ _ _ hStep hToken => Tokenize.step_parameter_text hStep hToken) h
  · exact hWord

/-! ## The tokens after the substitution -/

theorem substitute_nil (tokens : List Token) : substitute [] tokens = tokens := by
  cases tokens <;> rfl

theorem length_substitute (values : List Numeral) (tokens : List Token) : (substitute values tokens).length = tokens.length := by
  induction tokens generalizing values with
  | nil => cases values <;> rfl
  | cons token tokens ih =>
    cases values with
    | nil => rfl
    | cons n values =>
      rw [substitute]
      split
      · rw [List.length_cons, List.length_cons, ih]
      · rw [List.length_cons, List.length_cons, ih]

theorem parametersIn_cons (token : Token) (tokens : List Token) :
    parametersIn (token :: tokens) = parametersIn tokens + if token.kind = .kParameter then 1 else 0 := by
  simp [parametersIn, List.countP_cons]

/-- A token is kept, or it is the parameter that a number replaces. -/
def Replaced (values : List Numeral) (before : Nat) (token token' : Token) : Prop :=
  token.kind ≠ .kParameter ∧ token' = token ∨
    token.kind = .kParameter ∧ ∃ n, values[before]? = some n ∧ token' = n.token token.position

theorem substitute_getElem? {values : List Numeral} {tokens : List Token} (hEnough : parametersIn tokens ≤ values.length) {i : Nat}
    {token : Token} (h : tokens[i]? = some token) :
    ∃ token', (substitute values tokens)[i]? = some token' ∧ Replaced values (parametersIn (tokens.take i)) token token' := by
  induction tokens generalizing values i with
  | nil => simp at h
  | cons first tokens ih =>
    rw [parametersIn_cons] at hEnough
    cases values with
    | nil =>
      -- none of the tokens is a parameter
      rw [substitute_nil]
      have hNone : parametersIn (first :: tokens) = 0 := by
        rw [parametersIn_cons]
        exact Nat.le_zero.mp hEnough
      refine ⟨token, h, .inl ⟨fun hKind => ?_, rfl⟩⟩
      have hPositive : 0 < parametersIn (first :: tokens) :=
        List.countP_pos_iff.mpr ⟨token, List.mem_of_getElem? h, by simpa using hKind⟩
      omega
    | cons n values =>
      rw [List.length_cons] at hEnough
      rw [substitute]
      cases i with
      | zero =>
        cases h
        split
        · rename_i hKind
          exact ⟨_, rfl, .inr ⟨hKind, n, rfl, rfl⟩⟩
        · rename_i hKind
          exact ⟨_, rfl, .inl ⟨hKind, rfl⟩⟩
      | succ i =>
        rw [List.getElem?_cons_succ] at h
        rw [List.take_succ_cons, parametersIn_cons]
        split at hEnough
        · rename_i hKind
          rw [if_pos hKind, if_pos hKind, List.getElem?_cons_succ]
          exact ih (by omega) h
        · rename_i hKind
          rw [if_neg hKind, if_neg hKind, List.getElem?_cons_succ]
          exact ih (by rw [List.length_cons]; omega) h

theorem parametersIn_take_succ {tokens : List Token} {i : Nat} {token : Token} (h : tokens[i]? = some token) :
    parametersIn (tokens.take (i + 1)) = parametersIn (tokens.take i) + if token.kind = .kParameter then 1 else 0 := by
  rw [List.take_add_one, h, Option.toList_some, parametersIn, List.countP_append, List.countP_singleton]
  simp [parametersIn]

/-! ## Trees with literals for parameters -/

mutual

def Expr.bind (values : List Numeral) : Expr → Expr
  | .mk kind literal name op index args =>
    if kind = .kColumn ∧ name = ascii "?" then
      match values[index]? with
      | some n => .ofLiteral n.value
      | none => .mk kind literal name op index args
    else .mk kind literal name op index (bindAll values args)

def bindPtr (values : List Numeral) : ExprPtr → ExprPtr
  | none => none
  | some tree => some (tree.bind values)

def bindAll (values : List Numeral) : List ExprPtr → List ExprPtr
  | [] => []
  | arg :: args => bindPtr values arg :: bindAll values args

end

section Trees

variable {values : List Numeral}

theorem bindAll_eq_map (values : List Numeral) (args : List ExprPtr) : bindAll values args = args.map (bindPtr values) := by
  induction args with
  | nil => rfl
  | cons arg args ih => rw [bindAll, ih, List.map_cons]

theorem bind_literal (value : Value) : (Expr.ofLiteral value).bind values = .ofLiteral value := rfl

theorem bind_column {name : Bytes} (h : name ≠ ascii "?") : (Expr.ofColumn name).bind values = .ofColumn name :=
  if_neg fun hColumn => h hColumn.2

theorem bind_parameter {index : Nat} {n : Numeral} (h : values[index]? = some n) :
    (Expr.ofParameter index).bind values = .ofLiteral n.value := by
  rw [Expr.ofParameter, Expr.bind, if_pos ⟨rfl, rfl⟩, h]

theorem bind_function (name : Bytes) (args : List ExprPtr) :
    (Expr.ofFunction name args).bind values = .ofFunction name (args.map (bindPtr values)) := by
  rw [Expr.ofFunction, Expr.bind, if_neg (fun h => nomatch h.1), bindAll_eq_map]
  rfl

theorem bind_unary (op : Bytes) (arg : ExprPtr) : (Expr.unary op arg).bind values = .unary op (bindPtr values arg) := rfl

theorem bind_isNull (op : Bytes) (arg : ExprPtr) : (Expr.isNull op arg).bind values = .isNull op (bindPtr values arg) := rfl

theorem bind_binary (op : Bytes) (left right : ExprPtr) :
    (Expr.binary op left right).bind values = .binary op (bindPtr values left) (bindPtr values right) := rfl

theorem isNone_bindPtr (left : ExprPtr) : (bindPtr values left).isNone = left.isNone := by
  cases left <;> rfl

end Trees

/-! ## Evaluation -/

section Evaluation

variable {schema : Option Schema} {row : Option Row} {values : List Numeral} {args : List ExprPtr}

/-- Evaluation with the values as parameters is evaluation of the tree that has them as literals. -/
def Agrees (schema : Option Schema) (row : Option Row) (values : List Numeral) (arg : ExprPtr) : Prop :=
  evalPtr ⟨schema, row, values.map Numeral.value⟩ arg = evalPtr ⟨schema, row, []⟩ (bindPtr values arg)

theorem evalFirst_bind (h : ∀ arg ∈ args, Agrees schema row values arg) :
    evalFirst ⟨schema, row, values.map Numeral.value⟩ args = evalFirst ⟨schema, row, []⟩ (args.map (bindPtr values)) := by
  cases args with
  | nil => rfl
  | cons arg args => exact h arg List.mem_cons_self

theorem evalSecond_bind (h : ∀ arg ∈ args, Agrees schema row values arg) :
    evalSecond ⟨schema, row, values.map Numeral.value⟩ args = evalSecond ⟨schema, row, []⟩ (args.map (bindPtr values)) := by
  cases args with
  | nil => rfl
  | cons first args =>
    cases args with
    | nil => rfl
    | cons second args => exact h second (List.mem_cons_of_mem _ List.mem_cons_self)

theorem evalMember_bind (needle : Value) (h : ∀ arg ∈ args, Agrees schema row values arg) :
    evalMember ⟨schema, row, values.map Numeral.value⟩ needle args =
      evalMember ⟨schema, row, []⟩ needle (args.map (bindPtr values)) := by
  induction args with
  | nil => rfl
  | cons arg args ih =>
    have hArg : Agrees schema row values arg := h arg List.mem_cons_self
    rw [List.map_cons, evalMember, evalMember, hArg, ih fun other hOther => h other (List.mem_cons_of_mem _ hOther)]

theorem evalMembers_bind (needle : Value) (h : ∀ arg ∈ args, Agrees schema row values arg) :
    evalMembers ⟨schema, row, values.map Numeral.value⟩ needle args =
      evalMembers ⟨schema, row, []⟩ needle (args.map (bindPtr values)) := by
  cases args with
  | nil => rfl
  | cons first args => exact evalMember_bind needle fun arg hArg => h arg (List.mem_cons_of_mem _ hArg)

theorem evalCoalesce_bind (h : ∀ arg ∈ args, Agrees schema row values arg) :
    evalCoalesce ⟨schema, row, values.map Numeral.value⟩ args = evalCoalesce ⟨schema, row, []⟩ (args.map (bindPtr values)) := by
  induction args with
  | nil => rfl
  | cons arg args ih =>
    have hArg : Agrees schema row values arg := h arg List.mem_cons_self
    rw [List.map_cons, evalCoalesce, evalCoalesce, hArg, ih fun other hOther => h other (List.mem_cons_of_mem _ hOther)]

/-- One node, given that its arguments agree. -/
theorem evalExpr_node {kind : ExprKind} {literal : Value} {name op : Bytes} {index : Nat}
    (h : ∀ arg ∈ args, Agrees schema row values arg) :
    evalExpr ⟨schema, row, values.map Numeral.value⟩ (.mk kind literal name op index args) =
      evalExpr ⟨schema, row, []⟩ ((Expr.mk kind literal name op index args).bind values) := by
  have hFirst := evalFirst_bind h
  have hEmpty : (args.map (bindPtr values)).isEmpty = args.isEmpty := List.isEmpty_map
  rw [Expr.bind, bindAll_eq_map]
  cases kind with
  | kLiteral => rfl
  | kColumn =>
    by_cases hName : name = ascii "?"
    · rw [if_pos ⟨rfl, hName⟩, evalExpr, if_pos hName, Eval.parameter, List.getElem?_map]
      cases hValue : values[index]? with
      | some n => rfl
      | none => rw [Option.map_none, evalExpr, if_pos hName]; rfl
    · rw [if_neg (fun hBoth => hName hBoth.2), evalExpr, evalExpr, if_neg hName, if_neg hName]
      rfl
  | kUnary => rw [if_neg (fun hBoth => ExprKind.noConfusion hBoth.1), evalExpr, evalExpr, hFirst]
  | kIsNull => rw [if_neg (fun hBoth => ExprKind.noConfusion hBoth.1), evalExpr, evalExpr, hFirst]
  | kBinary =>
    rw [if_neg (fun hBoth => ExprKind.noConfusion hBoth.1), evalExpr, evalExpr, hFirst, evalSecond_bind h]
  | kFunction =>
    rw [if_neg (fun hBoth => ExprKind.noConfusion hBoth.1), evalExpr, evalExpr, hFirst, evalCoalesce_bind h, hEmpty]
    simp only [evalMembers_bind _ h]

mutual

theorem evalExpr_bind (schema : Option Schema) (row : Option Row) (values : List Numeral) : (tree : Expr) →
    evalExpr ⟨schema, row, values.map Numeral.value⟩ tree = evalExpr ⟨schema, row, []⟩ (tree.bind values)
  | .mk _ _ _ _ _ args => evalExpr_node (evalAll_bind schema row values args)

theorem evalPtr_bind (schema : Option Schema) (row : Option Row) (values : List Numeral) : (arg : ExprPtr) →
    Agrees schema row values arg
  | none => rfl
  | some tree => evalExpr_bind schema row values tree

theorem evalAll_bind (schema : Option Schema) (row : Option Row) (values : List Numeral) : (args : List ExprPtr) →
    ∀ arg ∈ args, Agrees schema row values arg
  | [] => nofun
  | first :: args => fun arg hArg => by
    obtain hFirst | hRest := List.mem_cons.mp hArg
    · rw [hFirst]
      exact evalPtr_bind schema row values first
    · exact evalAll_bind schema row values args arg hRest

end

end Evaluation

/-! ## The runs -/

namespace Parser

/-- The parser beside the one whose tokens have the numbers for the parameters. -/
structure Substituted (values : List Numeral) (p q : Parser) : Prop where
  tokens : q.tokens = substitute values p.tokens
  index : q.index = p.index
  closedParen : q.closedParen = p.closedParen
  status : q.status = p.status
  counted : p.parameterCount = parametersIn (p.tokens.take p.index)
  spelled : Spelled p.tokens
  enough : parametersIn p.tokens ≤ values.length

/-- The texts of the grammar are spelled neither like a parameter nor like a number. -/
def Fixed (text : Bytes) : Prop := text ≠ ascii "?" ∧ ∃ c ∈ text, ¬ isDigit c

instance (text : Bytes) : Decidable (Fixed text) := inferInstanceAs (Decidable (_ ∧ _))

section Probes

variable {values : List Numeral} {p q : Parser} {token : Token}

theorem Substituted.closed (h : Substituted values p q) (closed : Bool) :
    Substituted values { p with closedParen := closed } { q with closedParen := closed } :=
  ⟨h.tokens, h.index, rfl, h.status, h.counted, h.spelled, h.enough⟩

theorem Substituted.next (h : Substituted values p q) (hToken : p.tokens[p.index]? = some token) (hKind : token.kind ≠ .kParameter)
    {closed closed' : Bool} (hClosed : closed' = closed) :
    Substituted values { p with index := p.index + 1, closedParen := closed } { q with index := q.index + 1, closedParen := closed' } := by
  refine ⟨h.tokens, congrArg (· + 1) h.index, hClosed, h.status, ?_, h.spelled, h.enough⟩
  rw [parametersIn_take_succ hToken, if_neg hKind]
  exact h.counted

theorem Substituted.here (h : Substituted values p q) (hToken : p.tokens[p.index]? = some token) :
    ∃ token', q.tokens[q.index]? = some token' ∧ Replaced values p.parameterCount token token' := by
  rw [h.tokens, h.index, h.counted]
  exact substitute_getElem? h.enough hToken

theorem number_ne (n : Numeral) {position : Nat} {text : Bytes} (hText : Fixed text) : (n.token position).text ≠ text :=
  decimal_ne hText.2

/-- A text of the grammar is met in both runs or in none. -/
theorem Substituted.text_iff (h : Substituted values p q) (hToken : p.tokens[p.index]? = some token) {token' : Token}
    (hOther : Replaced values p.parameterCount token token') {text : Bytes} (hText : Fixed text) :
    (token'.text = text ↔ token.text = text) ∧ (token.text = text → token.kind ≠ .kParameter) := by
  obtain ⟨hNot, hDigit⟩ := hText
  obtain ⟨hKind, rfl⟩ | ⟨hKind, n, -, rfl⟩ := hOther
  · exact ⟨Iff.rfl, fun _ => hKind⟩
  · have hSpelled : token.text = ascii "?" := h.spelled.parameter token (List.mem_of_getElem? hToken) hKind
    have hNumber : (n.token token.position).text ≠ text := decimal_ne hDigit
    have hParameter : token.text ≠ text := fun hSame => hNot (hSame.symm.trans hSpelled)
    exact ⟨iff_of_false hNumber hParameter, fun hSame => absurd hSame hParameter⟩

theorem simulates_accept {text : Bytes} (hText : Fixed text) :
    Simulates (Substituted values) (accept text) (accept text) (Under id (Substituted values)) := by
  intro p q accepted p' hR hRun
  have hTidy : Substituted values (if text = ascii ")" then p else { p with closedParen := false })
      (if text = ascii ")" then q else { q with closedParen := false }) := by
    split
    · exact hR
    · exact hR.closed false
  simp only [accept] at hRun ⊢
  generalize (if text = ascii ")" then p else { p with closedParen := false }) = p at hRun hTidy
  generalize (if text = ascii ")" then q else { q with closedParen := false }) = q at hTidy
  cases hToken : p.tokens[p.index]? with
  | none =>
    rw [hToken] at hRun
    cases hRun
  | some token =>
    obtain ⟨token', hOther, hReplaced⟩ := hTidy.here hToken
    rw [hToken] at hRun
    simp only [hOther, hTidy.closedParen] at hRun ⊢
    have hClose : token'.text ≠ ascii ")" ↔ token.text ≠ ascii ")" :=
      not_congr (hTidy.text_iff hToken hReplaced (by decide)).1
    obtain ⟨hSame, hKind⟩ := hTidy.text_iff hToken hReplaced hText
    simp only [hClose, hSame]
    split at hRun
    · cases hRun
      rename_i hVirtual
      rw [if_pos hVirtual]
      exact ⟨_, _, rfl, rfl, hTidy.closed false⟩
    · rename_i hVirtual
      rw [if_neg hVirtual]
      split at hRun
      · cases hRun
        rename_i hHit
        rw [if_pos hHit]
        exact ⟨_, _, rfl, rfl, hTidy.next hToken (hKind hHit) rfl⟩
      · cases hRun
        rename_i hMiss
        rw [if_neg hMiss]
        exact ⟨_, _, rfl, rfl, hTidy⟩

theorem simulates_fail (status : Status) :
    Simulates (Substituted values) (fail status) (fail status) (fun _ _ => Substituted values) := by
  rintro p q a p' hR ⟨⟩
  exact ⟨_, _, rfl, hR.tokens, hR.index, hR.closedParen, rfl, hR.counted, hR.spelled, hR.enough⟩

theorem simulates_closed : Simulates (Substituted values) (modify (fun p : Parser => { p with closedParen := true }))
    (modify (fun p : Parser => { p with closedParen := true })) (fun _ _ => Substituted values) := by
  rintro p q a p' hR ⟨⟩
  exact ⟨_, _, rfl, hR.closed true⟩

theorem simulates_expect {text : Bytes} (hText : Fixed text) :
    Simulates (Substituted values) (expect text) (expect text) (Under id (Substituted values)) := by
  refine (simulates_accept hText).under fun accepted => simulates_ite Iff.rfl (fun _ => ?_) fun _ => ?_
  · refine simulates_ite Iff.rfl (fun _ => ?_) fun _ => simulates_value rfl
    exact simulates_closed.bind fun _ _ => simulates_value rfl
  · exact (simulates_fail _).bind fun _ _ => simulates_value rfl

/-- The next token of the first run, and that it is replaced by `n` if it is a parameter. -/
def Looking (values : List Numeral) (token : Token) (n : Option Numeral) (p q : Parser) : Prop :=
  Substituted values p q ∧ p.tokens[p.index]? = some token ∧ ∀ m ∈ n, values[p.parameterCount]? = some m

/-- What follows on a token is the same, or the first run met a parameter and the second one a number. -/
theorem simulates_peek {α : Type} {m m' : Token → ParseM α} {R' : α → α → Parser → Parser → Prop}
    (hKept : ∀ token, token.kind ≠ .kParameter → Simulates (Looking values token none) (m token) (m' token) R')
    (hReplaced : ∀ position n, Simulates (Looking values ⟨.kParameter, ascii "?", position⟩ (some n))
      (m ⟨.kParameter, ascii "?", position⟩) (m' (n.token position)) R') :
    Simulates (Substituted values) (peek >>= m) (peek >>= m') R' := by
  intro p q a p' hR hRun
  obtain ⟨token, mid, hPeek, hRest⟩ := Flag.bind_done hRun
  rw [peek] at hPeek
  cases hToken : p.tokens[p.index]? with
  | none =>
    rw [hToken] at hPeek
    cases hPeek
  | some token =>
    rw [hToken] at hPeek
    cases hPeek
    obtain ⟨token', hOther, hCases⟩ := hR.here hToken
    have hPeek' : (peek >>= m') q = m' token' q := by
      change (peek q >>= fun r => m' r.1 r.2) = _
      rw [peek, hOther]
      rfl
    rw [hPeek']
    obtain ⟨hKind, rfl⟩ | ⟨hKind, n, hValue, rfl⟩ := hCases
    · exact hKept _ hKind p q a p' ⟨hR, hToken, fun _ h => by cases h⟩ hRest
    · obtain ⟨kind, text, position⟩ := token
      cases hKind
      cases hR.spelled.parameter _ (List.mem_of_getElem? hToken) rfl
      refine hReplaced position n p q a p' ⟨hR, hToken, ?_⟩ hRest
      rintro _ ⟨⟩
      exact hValue

theorem simulates_advance {n : Option Numeral} (hKind : token.kind ≠ .kParameter) :
    Simulates (Looking values token n) advance advance (fun _ _ => Substituted values) := by
  rintro p q a p' hR ⟨⟩
  exact ⟨_, _, rfl, hR.1.next hR.2.1 hKind hR.1.closedParen⟩

theorem simulates_failing {α : Type} {n : Option Numeral} (status : Status) {a b : α} {R' : α → α → Parser → Parser → Prop}
    (h : ∀ p q, Substituted values p q → R' a b p q) :
    Simulates (Looking values token n) (do fail status; pure a) (do fail status; pure b) R' :=
  ((simulates_fail status).weaken (fun _ _ hR => hR.1) fun _ _ _ _ => id).bind fun _ _ => simulates_pure h

/-- Both runs read the same name, and it is not that of a parameter. -/
def Named (values : List Numeral) (name name' : Bytes) (p q : Parser) : Prop :=
  (name' = name ∧ name ≠ ascii "?") ∧ Substituted values p q

theorem simulates_identifier : Simulates (Substituted values) identifier identifier (Named values) := by
  have hFailing (token : Token) (n : Option Numeral) : Simulates (Looking values token n)
      (do fail (.syntaxError (ascii "expected identifier")); pure []) (do fail (.syntaxError (ascii "expected identifier")); pure [])
      (Named values) := simulates_failing _ fun p q hR => ⟨⟨rfl, by decide⟩, hR⟩
  apply simulates_peek
  · intro token hKind
    refine simulates_ite Iff.rfl (fun _ => hFailing token none) fun hWord => ?_
    rintro p q name p' hR ⟨⟩
    have hName : token.text ≠ ascii "?" :=
      hR.1.spelled.word token (List.mem_of_getElem? hR.2.1) (not_not.mp hWord)
    exact ⟨_, _, rfl, ⟨rfl, hName⟩, hR.1.next hR.2.1 hKind hR.1.closedParen⟩
  · intro position n
    exact hFailing _ _

end Probes

/-! ## The methods -/

def Method.bind (values : List Numeral) : Method → Method
  | .orLoop left => .orLoop (bindPtr values left)
  | .andLoop left => .andLoop (bindPtr values left)
  | .inLoop args => .inLoop (args.map (bindPtr values))
  | .addLoop left => .addLoop (bindPtr values left)
  | .mulLoop left => .mulLoop (bindPtr values left)
  | .argumentLoop name args => .argumentLoop name (args.map (bindPtr values))
  | method => method

/-- The methods called build the trees with the literals. -/
def Binding (values : List Numeral) (call : Method → ParseM ExprPtr) : Prop :=
  ∀ method, Simulates (Substituted values) (call method) (call (method.bind values)) (Under (bindPtr values) (Substituted values))

section Bodies

variable {values : List Numeral} {call : Method → ParseM ExprPtr}

theorem simulates_wordLoop (hCall : Binding values call) (left : ExprPtr) {word : Bytes} (hWord : Fixed word)
    {operand : Method} (hOperand : operand.bind values = operand) {loop : ExprPtr → Method}
    (hLoop : ∀ left, (loop left).bind values = loop (bindPtr values left)) :
    Simulates (Substituted values) (do
      if left.isNone then pure left
      else if ← accept word then
        let right ← call operand
        call (loop (some (.binary word left right)))
      else pure left) (do
      if (bindPtr values left).isNone then pure (bindPtr values left)
      else if ← accept word then
        let right ← call operand
        call (loop (some (.binary word (bindPtr values left) right)))
      else pure (bindPtr values left)) (Under (bindPtr values) (Substituted values)) := by
  rw [isNone_bindPtr]
  refine simulates_ite Iff.rfl (fun _ => simulates_value rfl) fun _ => ?_
  refine (simulates_accept hWord).under fun accepted => simulates_ite Iff.rfl (fun _ => ?_) fun _ => simulates_value rfl
  have hRight := hCall operand
  rw [hOperand] at hRight
  refine hRight.under fun right => ?_
  have hNext := hCall (loop (some (.binary word left right)))
  rw [hLoop] at hNext
  exact hNext

theorem simulates_orLoop (hCall : Binding values call) (left : ExprPtr) :
    Simulates (Substituted values) (orLoop call left) (orLoop call (bindPtr values left)) (Under (bindPtr values) (Substituted values)) :=
  simulates_wordLoop hCall left (by decide) rfl fun _ => rfl

theorem simulates_andLoop (hCall : Binding values call) (left : ExprPtr) :
    Simulates (Substituted values) (andLoop call left) (andLoop call (bindPtr values left)) (Under (bindPtr values) (Substituted values)) :=
  simulates_wordLoop hCall left (by decide) rfl fun _ => rfl

theorem simulates_parseLike (hCall : Binding values call) :
    Simulates (Substituted values) (parseLike call) (parseLike call) (Under (bindPtr values) (Substituted values)) := by
  refine (hCall .parseAdd).under fun left => ?_
  rw [isNone_bindPtr]
  refine simulates_ite Iff.rfl (fun _ => simulates_value rfl) fun _ => ?_
  refine (simulates_accept (by decide)).under fun accepted => simulates_ite Iff.rfl (fun _ => ?_) fun _ => simulates_value rfl
  exact (hCall .parseAdd).under fun right => simulates_value rfl

theorem simulates_parseIs (left : ExprPtr) :
    Simulates (Substituted values) (parseIs left) (parseIs (bindPtr values left)) (Under (bindPtr values) (Substituted values)) := by
  refine (simulates_accept (by decide)).under fun negated => (simulates_expect (by decide)).under fun accepted => ?_
  exact simulates_ite Iff.rfl (fun _ => simulates_value rfl) fun _ => simulates_value rfl

theorem simulates_inLoop (hCall : Binding values call) (args : List ExprPtr) :
    Simulates (Substituted values) (inLoop call args) (inLoop call (args.map (bindPtr values)))
      (Under (bindPtr values) (Substituted values)) := by
  have hMore (arg : ExprPtr) : Simulates (Substituted values) (call (.inLoop (args ++ [arg])))
      (call (.inLoop (args.map (bindPtr values) ++ [bindPtr values arg]))) (Under (bindPtr values) (Substituted values)) := by
    have hNext := hCall (.inLoop (args ++ [arg]))
    rw [Method.bind, List.map_append] at hNext
    exact hNext
  refine (simulates_accept (by decide)).under fun closed => simulates_ite Iff.rfl (fun _ => ?_) fun _ => ?_
  · exact simulates_value (congrArg some (bind_function _ _).symm)
  · refine (hCall .parseOr).under fun arg => ?_
    refine (simulates_accept (by decide)).under fun comma => simulates_ite Iff.rfl (fun _ => hMore arg) fun _ => ?_
    refine (simulates_expect (by decide)).under fun last => simulates_ite Iff.rfl (fun _ => hMore arg) fun _ => ?_
    exact simulates_value rfl

theorem simulates_parseCompare (hCall : Binding values call) :
    Simulates (Substituted values) (parseCompare call) (parseCompare call) (Under (bindPtr values) (Substituted values)) := by
  refine (hCall .parseLike).under fun left => ?_
  rw [isNone_bindPtr]
  refine simulates_ite Iff.rfl (fun _ => simulates_value rfl) fun _ => ?_
  apply simulates_peek
  · intro token hKind
    refine simulates_ite Iff.rfl (fun _ => ?_) fun _ => simulates_pure fun p q hR => ⟨rfl, hR.1⟩
    refine (simulates_advance hKind).bind fun _ _ => simulates_ite Iff.rfl (fun _ => simulates_parseIs left) fun _ => ?_
    refine simulates_ite Iff.rfl (fun _ => ?_) fun _ => ?_
    · refine (simulates_expect (by decide)).under fun accepted => ?_
      exact simulates_ite Iff.rfl (fun _ => hCall (.inLoop [left])) fun _ => simulates_value rfl
    · exact (hCall .parseAdd).under fun right => simulates_value rfl
  · intro position n
    have hNone : ¬ ((n.token position).kind = .kOperator ∨ (n.token position).text = ascii "is" ∨
        (n.token position).text = ascii "in") := by
      rintro (hKind | hIs | hIn)
      · cases hKind
      · exact number_ne n (by decide) hIs
      · exact number_ne n (by decide) hIn
    have hOther : ¬ (TokenKind.kParameter = .kOperator ∨ ascii "?" = ascii "is" ∨ ascii "?" = ascii "in") := by decide
    rw [if_neg hOther, if_neg hNone]
    exact simulates_pure fun p q hR => ⟨rfl, hR.1⟩

theorem simulates_tokenLoop (hCall : Binding values call) (left : ExprPtr) (isText : Bytes → Prop) [DecidablePred isText]
    (hTexts : ∀ text, isText text → Fixed text) {operand : Method} (hOperand : operand.bind values = operand)
    {loop : ExprPtr → Method} (hLoop : ∀ left, (loop left).bind values = loop (bindPtr values left)) :
    Simulates (Substituted values) (do
      let token ← peek
      if isText token.text then
        advance
        let right ← call operand
        call (loop (some (.binary token.text left right)))
      else pure left) (do
      let token ← peek
      if isText token.text then
        advance
        let right ← call operand
        call (loop (some (.binary token.text (bindPtr values left) right)))
      else pure (bindPtr values left)) (Under (bindPtr values) (Substituted values)) := by
  apply simulates_peek
  · intro token hKind
    refine simulates_ite Iff.rfl (fun _ => ?_) fun _ => simulates_pure fun p q hR => ⟨rfl, hR.1⟩
    refine (simulates_advance hKind).bind fun _ _ => ?_
    have hRight := hCall operand
    rw [hOperand] at hRight
    refine hRight.under fun right => ?_
    have hNext := hCall (loop (some (.binary token.text left right)))
    rw [hLoop] at hNext
    exact hNext
  · intro position n
    rw [if_neg fun hText => (hTexts _ hText).1 rfl, if_neg fun hText => number_ne n (hTexts _ hText) rfl]
    exact simulates_pure fun p q hR => ⟨rfl, hR.1⟩

theorem simulates_addLoop (hCall : Binding values call) (left : ExprPtr) :
    Simulates (Substituted values) (addLoop call left) (addLoop call (bindPtr values left))
      (Under (bindPtr values) (Substituted values)) := by
  refine simulates_tokenLoop hCall left (fun text => text = ascii "+" ∨ text = ascii "-") ?_ rfl fun _ => rfl
  rintro _ (rfl | rfl)
  · decide
  · decide

theorem simulates_mulLoop (hCall : Binding values call) (left : ExprPtr) :
    Simulates (Substituted values) (mulLoop call left) (mulLoop call (bindPtr values left))
      (Under (bindPtr values) (Substituted values)) := by
  refine simulates_tokenLoop hCall left (fun text => text = ascii "*" ∨ text = ascii "/" ∨ text = ascii "%") ?_ rfl fun _ => rfl
  rintro _ (rfl | rfl | rfl)
  · decide
  · decide
  · decide

theorem simulates_unaryOperator :
    Simulates (Substituted values) unaryOperator unaryOperator (Under id (Substituted values)) := by
  refine (simulates_accept (by decide)).under fun negation => simulates_ite Iff.rfl (fun _ => simulates_value rfl) fun _ => ?_
  refine (simulates_accept (by decide)).under fun minus => simulates_ite Iff.rfl (fun _ => simulates_value rfl) fun _ => ?_
  refine (simulates_accept (by decide)).under fun plus => simulates_ite Iff.rfl (fun _ => simulates_value rfl) fun _ => ?_
  exact simulates_value rfl

theorem simulates_parseUnary (hCall : Binding values call) :
    Simulates (Substituted values) (parseUnary call) (parseUnary call) (Under (bindPtr values) (Substituted values)) := by
  refine simulates_unaryOperator.under fun op => ?_
  cases op with
  | some op => exact (hCall .parseUnary).under fun arg => simulates_value rfl
  | none => exact hCall .parsePrimary

theorem simulates_parseNumber {token : Token} (hKind : token.kind ≠ .kParameter) :
    Simulates (Looking values token none) (parseNumber token.text) (parseNumber token.text)
      (Under (bindPtr values) (Substituted values)) := by
  refine (simulates_advance hKind).bind fun _ _ => ?_
  cases numericLiteral token.text with
  | some value => exact simulates_value rfl
  | none => exact (simulates_fail _).bind fun _ _ => simulates_value rfl

/-- The parameter counted `i` becomes the `i`-th value. -/
theorem simulates_parseParameter {position : Nat} {n : Numeral} :
    Simulates (Looking values ⟨.kParameter, ascii "?", position⟩ (some n)) parseParameter (parseNumber (decimal n.val))
      (Under (bindPtr values) (Substituted values)) := by
  rintro p q tree p' ⟨hR, hToken, hValue⟩ ⟨⟩
  refine ⟨some (.ofLiteral n.value), { q with index := q.index + 1 }, ?_, ?_, ?_⟩
  · rw [parseNumber, numericLiteral_decimal]
    rfl
  · exact congrArg some (bind_parameter (hValue n rfl)).symm
  · refine ⟨hR.tokens, congrArg (· + 1) hR.index, hR.closedParen, hR.status, ?_, hR.spelled, hR.enough⟩
    change p.parameterCount + 1 = _
    rw [parametersIn_take_succ hToken, hR.counted, if_pos rfl]

theorem simulates_qualifiedName {name : Bytes} (hName : name ≠ ascii "?") :
    Simulates (Substituted values) (qualifiedName name) (qualifiedName name) (Named values) := by
  refine (simulates_accept (by decide)).under fun dot => simulates_ite Iff.rfl (fun _ => ?_) fun _ => ?_
  · refine simulates_identifier.bind fun part part' => simulates_pure fun p q hR => ?_
    obtain ⟨⟨rfl, -⟩, hSub⟩ := hR
    refine ⟨⟨rfl, fun hSame => ?_⟩, hSub⟩
    -- the point is a byte of the whole name
    have hPoint : (46 : UInt8) ∈ name ++ ascii "." ++ part' :=
      List.mem_append_left _ (List.mem_append_right _ (by decide))
    rw [hSame] at hPoint
    exact absurd hPoint (by decide)
  · exact simulates_pure fun p q hR => ⟨⟨rfl, hName⟩, hR⟩

theorem simulates_argument (hCall : Binding values call) :
    Simulates (Substituted values) (argument call) (argument call) (Under (bindPtr values) (Substituted values)) := by
  refine (simulates_accept (by decide)).under fun star => simulates_ite Iff.rfl (fun _ => ?_) fun _ => hCall .parseOr
  exact simulates_value rfl

theorem simulates_argumentLoop (hCall : Binding values call) (name : Bytes) (args : List ExprPtr) :
    Simulates (Substituted values) (argumentLoop call name args) (argumentLoop call name (args.map (bindPtr values)))
      (Under (bindPtr values) (Substituted values)) := by
  refine (simulates_argument hCall).under fun arg => ?_
  have hArgs : args.map (bindPtr values) ++ [bindPtr values arg] = (args ++ [arg]).map (bindPtr values) := by
    rw [List.map_append]
    rfl
  rw [hArgs]
  refine (simulates_accept (by decide)).under fun closed => simulates_ite Iff.rfl (fun _ => ?_) fun _ => ?_
  · exact simulates_value (congrArg some (bind_function _ _).symm)
  · refine (simulates_expect (by decide)).under fun comma => simulates_ite Iff.rfl (fun _ => ?_) fun _ => simulates_value rfl
    exact hCall (.argumentLoop name (args ++ [arg]))

theorem simulates_parseWord (hCall : Binding values call) :
    Simulates (Substituted values) (parseWord call) (parseWord call) (Under (bindPtr values) (Substituted values)) := by
  refine simulates_identifier.bind fun name name' => simulates_given (fun _ _ hR => hR.1) ?_
  rintro ⟨rfl, hName⟩
  refine Simulates.weaken ?_ (fun _ _ hR => hR.2) fun _ _ _ _ => id
  refine simulates_ite Iff.rfl (fun _ => simulates_value rfl) fun _ => ?_
  refine simulates_ite Iff.rfl (fun _ => simulates_value rfl) fun _ => ?_
  refine (simulates_qualifiedName hName).bind fun whole whole' => simulates_given (fun _ _ hR => hR.1) ?_
  rintro ⟨rfl, hWhole⟩
  refine Simulates.weaken ?_ (fun _ _ hR => hR.2) fun _ _ _ _ => id
  refine (simulates_accept (by decide)).under fun called => simulates_ite Iff.rfl (fun _ => ?_) fun _ => ?_
  · refine (simulates_accept (by decide)).under fun closed => simulates_ite Iff.rfl (fun _ => ?_) fun _ => ?_
    · exact simulates_value rfl
    · exact hCall (.argumentLoop whole' [])
  · exact simulates_value (congrArg some (bind_column hWhole).symm)

theorem simulates_parsePrimary (hCall : Binding values call) :
    Simulates (Substituted values) (parsePrimary call) (parsePrimary call) (Under (bindPtr values) (Substituted values)) := by
  refine (simulates_accept (by decide)).under fun enclosed => simulates_ite Iff.rfl (fun _ => ?_) fun _ => ?_
  · refine (hCall .parseOr).under fun value => (simulates_expect (by decide)).under fun closed => ?_
    exact simulates_ite Iff.rfl (fun _ => simulates_value rfl) fun _ => simulates_value rfl
  · apply simulates_peek
    · rintro ⟨kind, text, position⟩ hKind
      have hFailing : Simulates (Looking values ⟨kind, text, position⟩ none)
          (do fail (.syntaxError (ascii "expected expression")); pure none)
          (do fail (.syntaxError (ascii "expected expression")); pure none) (Under (bindPtr values) (Substituted values)) :=
        simulates_failing _ fun p q hR => ⟨rfl, hR⟩
      cases kind with
      | kNumber => exact simulates_parseNumber hKind
      | kString => exact (simulates_advance hKind).bind fun _ _ => simulates_value rfl
      | kWord => exact (simulates_parseWord hCall).weaken (fun _ _ hR => hR.1) fun _ _ _ _ => id
      | kParameter => exact absurd rfl hKind
      | kOperator => exact hFailing
      | kPunctuation => exact hFailing
      | kEnd => exact hFailing
    · intro position n
      exact simulates_parseParameter

theorem simulates_chain (hCall : Binding values call) (first : Method) (hFirst : first.bind values = first) {loop : ExprPtr → Method}
    (hLoop : ∀ left, (loop left).bind values = loop (bindPtr values left)) :
    Simulates (Substituted values) (call first >>= fun left => call (loop left)) (call first >>= fun left => call (loop left))
      (Under (bindPtr values) (Substituted values)) := by
  have hLeft := hCall first
  rw [hFirst] at hLeft
  refine hLeft.under fun left => ?_
  rw [← hLoop]
  exact hCall (loop left)

theorem binding_body (hCall : Binding values call) : Binding values (body call) := by
  intro method
  cases method with
  | parseOr => exact simulates_chain hCall .parseAnd rfl fun _ => rfl
  | orLoop left => exact simulates_orLoop hCall left
  | parseAnd => exact simulates_chain hCall .parseCompare rfl fun _ => rfl
  | andLoop left => exact simulates_andLoop hCall left
  | parseCompare => exact simulates_parseCompare hCall
  | inLoop args => exact simulates_inLoop hCall args
  | parseLike => exact simulates_parseLike hCall
  | parseAdd => exact simulates_chain hCall .parseMul rfl fun _ => rfl
  | addLoop left => exact simulates_addLoop hCall left
  | parseMul => exact simulates_chain hCall .parseUnary rfl fun _ => rfl
  | mulLoop left => exact simulates_mulLoop hCall left
  | parseUnary => exact simulates_parseUnary hCall
  | parsePrimary => exact simulates_parsePrimary hCall
  | argumentLoop name args => exact simulates_argumentLoop hCall name args

end Bodies

/-- The whole run, by induction on the depth of the calls. -/
theorem binding_parse (values : List Numeral) (fuel : Nat) : Binding values (parse fuel) := by
  induction fuel with
  | zero =>
    rintro method p q tree p' - ⟨⟩
  | succ fuel ih => exact binding_body ih

end Parser

/-- A successful run on the tokens is one on the tokens with numbers for the parameters, and the values given as parameters
evaluate the first tree as no parameters evaluate the second one. The parser may stand at any token. -/
theorem expression_substitute {p p' : Parser} {tree : ExprPtr} {values : List Numeral} (hSpelled : Spelled p.tokens)
    (hCounted : p.parameterCount = parametersIn (p.tokens.take p.index)) (hValues : values.length = parametersIn p.tokens)
    (hParse : p.expression = .done (tree, p')) (hOk : p'.status = .ok) :
    ∃ tree' q', Parser.expression { p with tokens := substitute values p.tokens } = .done (tree', q') ∧ q'.status = .ok ∧
      q'.index = p'.index ∧ ∀ schema row status,
        evalPtr ⟨schema, row, values.map Numeral.value⟩ tree status = evalPtr ⟨schema, row, []⟩ tree' status := by
  have hStart : Parser.Substituted values p { p with tokens := substitute values p.tokens } :=
    ⟨rfl, rfl, rfl, rfl, hCounted, hSpelled, hValues.ge⟩
  have hDepth : Parser.depth { p with tokens := substitute values p.tokens } = p.depth := by
    rw [Parser.depth, Parser.depth, length_substitute]
  obtain ⟨tree', q', hRun, rfl, hEnd⟩ := Parser.binding_parse values p.depth .parseOr p _ tree p' hStart hParse
  refine ⟨bindPtr values tree, q', ?_, hEnd.status.trans hOk, hEnd.index, fun schema row status => ?_⟩
  · rw [Parser.expression_eq, hDepth]
    exact hRun
  · exact congrFun (evalPtr_bind schema row values tree) status

/-- `a < ?` and then `limit ?`, of which the expression leaves the second parameter unread. -/
def limitTokens : List Token :=
  [⟨.kWord, ascii "a", 0⟩, ⟨.kOperator, ascii "<", 2⟩, ⟨.kParameter, ascii "?", 4⟩, ⟨.kWord, ascii "limit", 6⟩,
   ⟨.kParameter, ascii "?", 12⟩, ⟨.kEnd, [], 13⟩]

theorem limitTokens_substitute : ∃ tree p' tree' q', Parser.expression { tokens := limitTokens } = .done (tree, p') ∧
    Parser.expression { tokens := substitute [7, 10] limitTokens } = .done (tree', q') ∧ q'.status = .ok ∧
      q'.index = p'.index ∧ ∀ schema row status,
        evalPtr ⟨schema, row, [.integer 7, .integer 10]⟩ tree status = evalPtr ⟨schema, row, []⟩ tree' status := by
  have hParses : (Parser.expression { tokens := limitTokens }).value?.map (fun result => result.2.status) = some .ok := by
    decide +kernel
  obtain ⟨⟨tree, p'⟩, hValue, hOk⟩ := Option.map_eq_some_iff.mp hParses
  have hRun := Outcome.value?_eq_some.mp hValue
  have hSpelled : Spelled limitTokens := ⟨by decide, by decide⟩
  have hValues : ([7, 10] : List Numeral).length = parametersIn limitTokens := rfl
  obtain ⟨tree', q', hRest⟩ := expression_substitute hSpelled rfl hValues hRun hOk
  exact ⟨tree, p', tree', q', hRun, hRest⟩

end TupleStone
