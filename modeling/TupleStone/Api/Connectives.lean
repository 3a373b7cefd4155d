import TupleStone.Api.Enclosing

/-! # Operands between AND and OR

A condition is read from left to right: an operand joins the conjunction pending before it, and OR adds the conjunction
to the disjunction. A hole in such a condition, or in a parenthesised part of one, shows in the tree.
-/

set_option autoImplicit false

namespace TupleStone

open Unroll

namespace Parser

inductive Connective where
  | and
  | or
  deriving DecidableEq, Repr

namespace Connective

def word : Connective → Bytes
  | and => ascii "and"
  | or => ascii "or"

def token (c : Connective) : Shape := (.kWord, c.word)

theorem stops_comparison (c : Connective) : Level.comparison.Stops c.token := by cases c <;> decide

end Connective

/-- What was read before an operand: the left side of its disjunction and that of its conjunction. -/
structure Pending where
  disjunction : ExprPtr := none
  conjunction : ExprPtr := none

namespace Pending

def join (op : Bytes) : ExprPtr → Expr → Expr
  | none, tree => tree
  | some left, tree => .binary op (some left) (some tree)

def conjoin (s : Pending) (tree : Expr) : Expr := join (ascii "and") s.conjunction tree

/-- The condition when it ends with the operand. -/
def close (s : Pending) (tree : Expr) : Expr := join (ascii "or") s.disjunction (s.conjoin tree)

/-- An operand and the connective behind it. -/
def next (s : Pending) (c : Connective) (tree : Expr) : Pending :=
  match c with
  | .and => ⟨s.disjunction, some (s.conjoin tree)⟩
  | .or => ⟨some (s.close tree), none⟩

/-- Both sides are pending in both or in neither. -/
def Alike (s s' : Pending) : Prop :=
  s.disjunction.isSome = s'.disjunction.isSome ∧ s.conjunction.isSome = s'.conjunction.isSome

theorem join_injective {op : Bytes} {left left' : ExprPtr} {tree tree' : Expr} (hAlike : left.isSome = left'.isSome)
    (h : join op left tree = join op left' tree') : left = left' ∧ tree = tree' := by
  cases left with
  | none =>
    cases left' with
    | none => exact ⟨rfl, h⟩
    | some left' => cases hAlike
  | some left =>
    cases left' with
    | none => cases hAlike
    | some left' =>
      cases h
      exact ⟨rfl, rfl⟩

variable {s s' : Pending} {tree tree' : Expr}

theorem conjoin_injective (hAlike : s.Alike s') (h : s.conjoin tree = s'.conjoin tree') :
    s.conjunction = s'.conjunction ∧ tree = tree' := join_injective hAlike.2 h

theorem close_injective (hAlike : s.Alike s') (h : s.close tree = s'.close tree') : s = s' ∧ tree = tree' := by
  obtain ⟨hDisjunction, hRest⟩ := join_injective hAlike.1 h
  obtain ⟨hConjunction, hTree⟩ := conjoin_injective hAlike hRest
  obtain ⟨disjunction, conjunction⟩ := s
  exact ⟨congrArg₂ Pending.mk hDisjunction hConjunction, hTree⟩

theorem alike_next (hAlike : s.Alike s') (c : Connective) : (s.next c tree).Alike (s'.next c tree') := by
  cases c with
  | and => exact ⟨hAlike.1, rfl⟩
  | or => exact ⟨rfl, rfl⟩

theorem next_injective (hAlike : s.Alike s') {c : Connective} (h : s.next c tree = s'.next c tree') :
    s = s' ∧ tree = tree' := by
  cases c with
  | and =>
    obtain ⟨hDisjunction, hRest⟩ := Pending.mk.inj h
    obtain ⟨hConjunction, hTree⟩ := conjoin_injective hAlike (Option.some.inj hRest)
    obtain ⟨disjunction, conjunction⟩ := s
    exact ⟨congrArg₂ Pending.mk hDisjunction hConjunction, hTree⟩
  | or => exact close_injective hAlike (Option.some.inj (Pending.mk.inj h).1)

end Pending

/-! ## The methods between two operands -/

/-- An operand was read. -/
noncomputable def behind (s : Pending) (operand : ExprPtr) : ParseM ExprPtr := do
  let conjunction ← parsed (.andLoop (match s.conjunction with
    | none => operand
    | some left => some (.binary (ascii "and") (some left) operand)))
  parsed (.orLoop (match s.disjunction with
    | none => conjunction
    | some left => some (.binary (ascii "or") (some left) conjunction)))

/-- An operand comes next. -/
noncomputable def awaiting (s : Pending) : ParseM ExprPtr := parsed .parseCompare >>= behind s

theorem parsed_parseOr : parsed .parseOr = awaiting {} := by
  have hAnd : parsed .parseAnd = parsed .parseCompare >>= fun left => parsed (.andLoop left) := parsed_eq _
  have hOr : parsed .parseOr = parsed .parseAnd >>= fun left => parsed (.orLoop left) := parsed_eq _
  rw [hOr, hAnd, bind_assoc]
  rfl

section Steps

variable {p : Parser} {s : Pending} {tree : Expr} {kind : TokenKind} {text : Bytes} {tail : List Shape}

theorem bind_congr_state {α β σ : Type} {m m' : StateT σ Outcome α} {k : α → StateT σ Outcome β} {c c' : σ} (h : m c = m' c') :
    (m >>= k) c = (m' >>= k) c' := by
  change (m c >>= fun r => k r.1 r.2) = (m' c' >>= fun r => k r.1 r.2)
  rw [h]

/-- The connective of a loop is followed by an operand. -/
theorem wordLoop_enters (operand : Method) (loop : ExprPtr → Method) {word : Bytes} (hWord : word ≠ ascii ")")
    (h : rest p = (kind, word) :: tail) :
    (do
      if (some tree : ExprPtr).isNone then pure (some tree)
      else if ← accept word then
        let right ← parsed operand
        parsed (loop (some (.binary word (some tree) right)))
      else pure (some tree) : ParseM ExprPtr) p =
      (parsed operand >>= fun right => parsed (loop (some (.binary word (some tree) right)))) (p.after 1 0 false) := by
  rw [Option.isNone_some, if_neg Bool.false_ne_true]
  exact (bind_of_done (accept_hit h hWord)).trans rfl

theorem behind_some (s : Pending) (tree : Expr) : behind s (some tree) = (do
    let conjunction ← parsed (.andLoop (some (s.conjoin tree)))
    parsed (.orLoop (match s.disjunction with
      | none => conjunction
      | some left => some (.binary (ascii "or") (some left) conjunction)))) := by
  obtain ⟨disjunction, conjunction⟩ := s
  cases conjunction <;> rfl

theorem behind_and (h : rest p = Connective.and.token :: tail) :
    behind s (some tree) p = awaiting (s.next .and tree) (p.after 1 0 false) := by
  have hLoop := (congrFun (parsed_eq (.andLoop (some (s.conjoin tree)))) p).trans
    (wordLoop_enters .parseCompare .andLoop (by decide) h)
  rw [behind_some, bind_congr_state hLoop, bind_assoc]
  rfl

/-- The conjunction ends where its loop sees no AND. -/
theorem behind_miss (h : rest p = (kind, text) :: tail) (hText : text ≠ ascii "and") :
    behind s (some tree) p = parsed (.orLoop (some (s.close tree))) (p.after 0 0 false) := by
  have hLoop : parsed (.andLoop (some (s.conjoin tree))) p = .done (some (s.conjoin tree), p.after 0 0 false) :=
    (congrFun (parsed_eq _) p).trans (Chain.wordLoop_miss (by decide) h hText)
  rw [behind_some, bind_of_done hLoop]
  obtain ⟨disjunction, conjunction⟩ := s
  cases disjunction <;> rfl

theorem behind_or (h : rest p = Connective.or.token :: tail) :
    behind s (some tree) p = awaiting (s.next .or tree) (p.after 1 0 false) := by
  have hAgain : (p.after 0 0 false).rest = Connective.or.token :: tail := by rw [rest_after, List.drop_zero, h]
  have hLoop := (congrFun (parsed_eq (.orLoop (some (s.close tree)))) _).trans
    (wordLoop_enters .parseAnd .orLoop (by decide) hAgain)
  have hAnd : parsed .parseAnd = parsed .parseCompare >>= fun left => parsed (.andLoop left) := parsed_eq _
  rw [behind_miss h (by decide), hLoop, hAnd, bind_assoc, after_after]
  rfl

theorem behind_next (c : Connective) (h : rest p = c.token :: tail) :
    behind s (some tree) p = awaiting (s.next c tree) (p.after 1 0 false) := by
  cases c with
  | and => exact behind_and h
  | or => exact behind_or h

theorem behind_stop (h : rest p = (kind, text) :: tail) (hAnd : text ≠ ascii "and") (hOr : text ≠ ascii "or") :
    behind s (some tree) p = .done (some (s.close tree), p.after 0 0 false) := by
  have hAgain : (p.after 0 0 false).rest = (kind, text) :: tail := by rw [rest_after, List.drop_zero, h]
  have hLoop : parsed (.orLoop (some (s.close tree))) (p.after 0 0 false) =
      .done (some (s.close tree), (p.after 0 0 false).after 0 0 false) :=
    (congrFun (parsed_eq _) _).trans (Chain.wordLoop_miss (by decide) hAgain hOr)
  rw [behind_miss h hAnd, hLoop, after_after]

end Steps

/-! ## Operands in a row -/

/-- What the level makes of the tokens in front of the one token. -/
def ReadsBefore (level : Level) (next : Shape) (tokens : List Shape) (parameters : Nat) (Q : Nat → Expr → Prop) : Prop :=
  ∀ p tail, rest p = tokens ++ next :: tail →
    ∃ tree closed, Q p.parameterCount tree ∧ (level = .disjunction → closed = false) ∧
      parsed level.method p = .done (some tree, p.after tokens.length parameters closed)

theorem Reads.before {level : Level} {tokens : List Shape} {parameters : Nat} {Q : Nat → Expr → Prop}
    (h : Reads level tokens parameters Q) {next : Shape} (hStops : level.Stops next) :
    ReadsBefore level next tokens parameters Q := fun p tail hRest => h p next tail hRest hStops

/-- Tokens, the parameters among them, and their tree by the number of parameters before them. -/
structure Operand where
  tokens : List Shape
  parameters : Nat
  tree : Nat → Expr

def Operand.Sound (o : Operand) (next : Shape) : Prop :=
  ReadsBefore .comparison next o.tokens o.parameters (fun n tree => tree = o.tree n)

/-- Operands with the connective behind each. -/
abbrev Leading := List (Operand × Connective)

namespace Leading

def tokens : Leading → List Shape
  | [] => []
  | (o, c) :: links => o.tokens ++ c.token :: tokens links

def parameters : Leading → Nat
  | [] => 0
  | (o, _) :: links => o.parameters + parameters links

def pending : Leading → Nat → Pending → Pending
  | [], _, s => s
  | (o, c) :: links, n, s => pending links (n + o.parameters) (s.next c (o.tree n))

def Sound (links : Leading) : Prop := ∀ link ∈ links, link.1.Sound link.2.token

theorem alike_pending (links : Leading) (n : Nat) {s s' : Pending} (hAlike : s.Alike s') :
    (links.pending n s).Alike (links.pending n s') := by
  induction links generalizing n s s' with
  | nil => exact hAlike
  | cons link links ih => exact ih _ (Pending.alike_next hAlike _)

/-- The operands in front are read, one after the other. -/
theorem awaiting_pending (links : Leading) (h : links.Sound) (s : Pending) (p : Parser) (next : Shape) (tail : List Shape)
    (hRest : rest p = links.tokens ++ next :: tail) : ∃ closed,
    awaiting s p = awaiting (links.pending p.parameterCount s) (p.after links.tokens.length links.parameters closed) := by
  induction links generalizing s p with
  | nil => exact ⟨p.closedParen, rfl⟩
  | cons link links ih =>
    obtain ⟨o, c⟩ := link
    rw [tokens, List.append_assoc, List.cons_append] at hRest
    obtain ⟨tree, closed, rfl, -, hOperand⟩ := h _ (List.mem_cons_self ..) p _ hRest
    have hConnective := rest_after_append hRest o.parameters closed
    have hLinks : ((p.after o.tokens.length o.parameters closed).after 1 0 false).rest = tokens links ++ next :: tail := by
      rw [rest_after, hConnective]
      rfl
    obtain ⟨closed', hAwaiting⟩ := ih (fun link hLink => h link (List.mem_cons_of_mem _ hLink))
      (s.next c (o.tree p.parameterCount)) _ hLinks
    refine ⟨closed', (bind_of_done hOperand).trans ((behind_next c hConnective).trans (hAwaiting.trans ?_))⟩
    rw [after_joined, tokens, List.length_append, List.length_cons]
    rfl

end Leading

/-- Operands with the connective in front of each. -/
abbrev Trailing := List (Connective × Operand)

namespace Trailing

def tokens : Trailing → List Shape
  | [] => []
  | (c, o) :: links => c.token :: (o.tokens ++ tokens links)

def parameters : Trailing → Nat
  | [] => 0
  | (_, o) :: links => o.parameters + parameters links

def finish : Trailing → Nat → Pending → Expr → Expr
  | [], _, s, tree => s.close tree
  | (c, o) :: links, n, s, tree => finish links (n + o.parameters) (s.next c tree) (o.tree n)

/-- The first token, where the other one ends the condition. -/
def opening (stop : Shape) : Trailing → Shape
  | [] => stop
  | (c, _) :: _ => c.token

def Sound (stop : Shape) : Trailing → Prop
  | [] => True
  | (_, o) :: links => o.Sound (opening stop links) ∧ Sound stop links

theorem finish_injective (links : Trailing) {n : Nat} {s s' : Pending} {tree tree' : Expr} (hAlike : s.Alike s')
    (h : links.finish n s tree = links.finish n s' tree') : tree = tree' := by
  have hBoth : s = s' ∧ tree = tree' := by
    induction links generalizing n s s' tree tree' with
    | nil => exact Pending.close_injective hAlike h
    | cons link links ih =>
      obtain ⟨hNext, -⟩ := ih (Pending.alike_next hAlike _) h
      exact Pending.next_injective hAlike hNext
  exact hBoth.2

theorem tokens_opening (links : Trailing) (stop : Shape) (tail : List Shape) :
    ∃ more, links.tokens ++ stop :: tail = opening stop links :: more := by
  cases links with
  | nil => exact ⟨tail, rfl⟩
  | cons link links => exact ⟨_, rfl⟩

theorem stops_opening (links : Trailing) {stop : Shape} (h : Level.disjunction.Stops stop) :
    Level.comparison.Stops (opening stop links) := by
  cases links with
  | nil => exact h.tighter (by decide)
  | cons link links => exact link.1.stops_comparison

/-- The operands behind are read up to the token that ends the condition. -/
theorem behind_finish (links : Trailing) {stop : Shape} (hStops : Level.disjunction.Stops stop) (h : links.Sound stop)
    (s : Pending) (tree : Expr) (p : Parser) (tail : List Shape) (hRest : rest p = links.tokens ++ stop :: tail) :
    behind s (some tree) p =
      .done (some (links.finish p.parameterCount s tree), p.after links.tokens.length links.parameters false) := by
  induction links generalizing s tree p with
  | nil =>
    have hAnd : ¬ Level.conjunction.Continues stop := hStops _ (by decide)
    have hOr : ¬ Level.disjunction.Continues stop := hStops _ (by decide)
    exact behind_stop hRest hAnd hOr
  | cons link links ih =>
    obtain ⟨c, o⟩ := link
    obtain ⟨hOperand, hLinks⟩ := h
    rw [tokens, List.cons_append, List.append_assoc] at hRest
    obtain ⟨more, hMore⟩ := tokens_opening links stop tail
    have hNext : (p.after 1 0 false).rest = o.tokens ++ (tokens links ++ stop :: tail) := by
      rw [rest_after, hRest]
      rfl
    have hHere := hNext
    rw [hMore] at hHere
    obtain ⟨operand, closed, rfl, -, hParsed⟩ := hOperand _ _ hHere
    have hRestLinks := rest_after_append hNext o.parameters closed
    refine (behind_next c hRest).trans ((bind_of_done hParsed).trans ((ih hLinks _ _ _ hRestLinks).trans ?_))
    rw [after_after, after_after, tokens, List.length_cons, List.length_append, Nat.zero_add,
      Nat.add_comm 1, Nat.add_right_comm]
    rfl

end Trailing

/-! ## Holes -/

/-- A condition around a hole. -/
structure Layer where
  leading : Leading
  trailing : Trailing

namespace Layer

def fill (layer : Layer) (hole : List Shape) : List Shape := layer.leading.tokens ++ (hole ++ layer.trailing.tokens)

def parameters (layer : Layer) (hole : Nat) : Nat := layer.leading.parameters + (hole + layer.trailing.parameters)

/-- The tree by the number of parameters before the condition and in the hole. -/
def tree (layer : Layer) (n hole : Nat) (x : Expr) : Expr :=
  layer.trailing.finish (n + (layer.leading.parameters + hole)) (layer.leading.pending n {}) x

/-- The operands are read where they stand, in front of the token that ends the condition. -/
structure Sound (layer : Layer) (stop : Shape) : Prop where
  leading : layer.leading.Sound
  trailing : layer.trailing.Sound stop

variable {layer : Layer} {stop : Shape} {hole : List Shape} {holes : Nat} {Q : Nat → Expr → Prop}

theorem tree_injective {n : Nat} {x y : Expr} (h : layer.tree n holes x = layer.tree n holes y) : x = y :=
  layer.trailing.finish_injective ⟨rfl, rfl⟩ h

theorem reads (h : layer.Sound stop) (hStops : Level.disjunction.Stops stop)
    (hHole : ReadsBefore .comparison (Trailing.opening stop layer.trailing) hole holes Q) :
    ReadsBefore .disjunction stop (layer.fill hole) (layer.parameters holes)
      (fun n tree => ∃ x, Q (n + layer.leading.parameters) x ∧ tree = layer.tree n holes x) := by
  intro p tail hRest
  obtain ⟨more, hMore⟩ := layer.trailing.tokens_opening stop tail
  rw [fill, List.append_assoc, List.append_assoc, hMore] at hRest
  obtain ⟨head, others, hHead⟩ : ∃ head others, hole ++ Trailing.opening stop layer.trailing :: more = head :: others := by
    cases hole with
    | nil => exact ⟨_, _, rfl⟩
    | cons head others => exact ⟨_, _, rfl⟩
  have hLeading := hRest
  rw [hHead] at hLeading
  obtain ⟨closed, hAwaiting⟩ := Leading.awaiting_pending _ h.leading {} p _ _ hLeading
  have hHere := rest_after_append hRest layer.leading.parameters closed
  obtain ⟨x, closed', hx, -, hOperand⟩ := hHole _ _ hHere
  have hTrailing := rest_after_append hHere holes closed'
  rw [← hMore] at hTrailing
  have hBehind := Trailing.behind_finish _ hStops h.trailing (layer.leading.pending p.parameterCount {}) x _ _ hTrailing
  refine ⟨_, false, ⟨x, hx, rfl⟩, fun _ => rfl, ?_⟩
  change parsed .parseOr p = _
  rw [parsed_parseOr, hAwaiting]
  refine (bind_of_done hOperand).trans (hBehind.trans ?_)
  rw [after_after, after_after, parameterCount_after, fill, List.length_append, List.length_append, parameters,
    Nat.add_assoc layer.leading.tokens.length, Nat.add_assoc layer.leading.parameters]
  rfl

end Layer

theorem ReadsBefore.enclosed {tokens : List Shape} {parameters : Nat} {Q : Nat → Expr → Prop}
    (h : ReadsBefore .disjunction closeShape tokens parameters Q) : Reads .primary (Parser.enclosed tokens) parameters Q := by
  intro p next tail hRest hNext
  rw [Parser.enclosed, List.cons_append, List.append_assoc] at hRest
  have hInside : (p.after 1 0 false).rest = tokens ++ closeShape :: next :: tail := by
    rw [rest_after, hRest]
    rfl
  obtain ⟨tree, closed, hTree, -, hParsed⟩ := h _ _ hInside
  refine ⟨tree, true, hTree, Level.noConfusion, ?_⟩
  refine (congrFun (parsed_eq _) p).trans ((bind_of_done (accept_hit hRest (by decide))).trans ?_)
  refine (bind_of_done hParsed).trans ((bind_of_done (expect_close (rest_after_append hInside parameters closed))).trans ?_)
  have hLength : 1 + tokens.length + 1 = tokens.length + 2 := by omega
  rw [after_after, after_after, length_enclosed, Nat.zero_add, Nat.add_zero, ← Nat.add_assoc, hLength]
  rfl

theorem Reads.operand {tokens : List Shape} {parameters : Nat} {Q : Nat → Expr → Prop}
    (h : Reads .primary (Parser.enclosed tokens) parameters Q) : Reads .unary (Parser.enclosed tokens) parameters Q :=
  h.unary (by decide)

/-- Parenthesised conditions around a hole, from the inside out. -/
def groups : List Layer → List Shape → List Shape
  | [], hole => hole
  | layer :: inner, hole => groups inner (enclosed (layer.fill hole))

/-- A condition with a hole, in parentheses in further conditions. -/
structure Context where
  inner : List Layer
  outer : Layer

namespace Context

def fill (context : Context) (hole : List Shape) : List Shape := context.outer.fill (groups context.inner hole)

structure Sound (context : Context) : Prop where
  inner : ∀ layer ∈ context.inner, layer.Sound closeShape
  outer : context.outer.Sound endShape

end Context

/-- Two operands that are never read as the same tree. -/
def Apart (left right : List Shape) (parameters : Nat) : Prop :=
  ∃ Q Q', Reads .comparison left parameters Q ∧ Reads .comparison right parameters Q' ∧
    ∀ n x y, Q n x → Q' n y → x ≠ y

section Apart

variable {left right : List Shape} {parameters : Nat}

theorem Apart.layer (h : Apart left right parameters) {layer : Layer} (hLayer : layer.Sound closeShape) :
    Apart (enclosed (layer.fill left)) (enclosed (layer.fill right)) (layer.parameters parameters) := by
  obtain ⟨Q, Q', hLeft, hRight, hApart⟩ := h
  have hStops : Level.disjunction.Stops closeShape := by decide
  have hFilled : ∀ {hole : List Shape} {Q : Nat → Expr → Prop}, Reads .comparison hole parameters Q →
      Reads .comparison (enclosed (layer.fill hole)) (layer.parameters parameters)
        (fun n tree => ∃ x, Q (n + layer.leading.parameters) x ∧ tree = layer.tree n parameters x) := by
    intro hole Q hHole
    have hReads := Layer.reads hLayer hStops (hHole.before (layer.trailing.stops_opening hStops))
    exact hReads.enclosed.operand.loosen (by decide) .comparison (by decide)
  refine ⟨_, _, hFilled hLeft, hFilled hRight, ?_⟩
  rintro n _ _ ⟨x, hx, rfl⟩ ⟨y, hy, rfl⟩ hSame
  exact hApart _ x y hx hy (Layer.tree_injective hSame)

theorem Apart.groups (inner : List Layer) (hInner : ∀ layer ∈ inner, layer.Sound closeShape) (h : Apart left right parameters) :
    ∃ parameters', Apart (groups inner left) (groups inner right) parameters' := by
  induction inner generalizing left right parameters with
  | nil => exact ⟨parameters, h⟩
  | cons layer inner ih =>
    obtain ⟨hLayer, hInner⟩ := List.forall_mem_cons.mp hInner
    exact ih hInner (h.layer hLayer)

/-- What is read at the start of a parser up to the end token is the whole expression. -/
theorem parsesTo_of_reads {p : Parser} {tokens : List Shape} {Q : Nat → Expr → Prop} (hp : Begins p tokens)
    (h : ReadsBefore .disjunction endShape tokens parameters Q) {tree : Expr} (hTree : ParsesTo p tree) : Q 0 tree := by
  obtain ⟨p', hRun, -, -⟩ := hTree
  obtain ⟨read, closed, hRead, -, hParsed⟩ := h p [] hp.rest
  rw [expression_eq_parsed (ready_of_rest hp.rest)] at hRun
  cases hRun.symm.trans hParsed
  exact hp.parameters ▸ hRead

/-- Two operands that are apart make two conditions that are apart. -/
theorem Apart.parsesTo (h : Apart left right parameters) {context : Context} (hContext : context.Sound) {p q : Parser}
    (hp : Begins p (context.fill left)) (hq : Begins q (context.fill right)) : ¬ ∃ tree, ParsesTo p tree ∧ ParsesTo q tree := by
  rintro ⟨tree, hLeft, hRight⟩
  obtain ⟨parameters', Q, Q', hReads, hReads', hApart⟩ := h.groups _ hContext.inner
  have hStops : Level.disjunction.Stops endShape := by decide
  have hOpening := context.outer.trailing.stops_opening hStops
  obtain ⟨x, hx, hTree⟩ := parsesTo_of_reads hp (Layer.reads hContext.outer hStops (hReads.before hOpening)) hLeft
  obtain ⟨y, hy, hTree'⟩ := parsesTo_of_reads hq (Layer.reads hContext.outer hStops (hReads'.before hOpening)) hRight
  exact hApart _ x y hx hy (Layer.tree_injective (hTree.symm.trans hTree'))

end Apart

end Parser

end TupleStone
