import TupleStone.Api.Connectives
import TupleStone.Api.ParsedTree

/-! # What NOT takes

NOT is read with the signs, tighter than any operator: it takes the first factor of the left operand and leaves the
predicate around it. In front of a parenthesis it takes the predicate.
-/

set_option autoImplicit false

namespace TupleStone

open Flag Unroll

namespace Parser

abbrev notShape : Shape := (.kWord, ascii "not")

abbrev commaShape : Shape := (.kPunctuation, ascii ",")

abbrev openShape : Shape := (.kPunctuation, ascii "(")

/-! ## The left operand -/

section Loops

variable {call : Method → ParseM ExprPtr} {p q : Parser} {r : ExprPtr}

/-- The loops over `+`, `-` and `*`, `/`, `%` go the same way whatever they have read before. -/
theorem tokenLoop_alike (isText : Token → Prop) [DecidablePred isText] {loop : ExprPtr → Method} {operand : Method}
    (hBody : ∀ call left, body call (loop left) = (do
      let token ← peek
      if isText token then
        advance
        let right ← call operand
        call (loop (some (.binary token.text left right)))
      else pure left)) {left : ExprPtr} (h : parsed (loop left) p = .done (r, q)) (tree : Expr) :
    ∃ tree', parsed (loop (some tree)) p = .done (some tree', q) := by
  have hFuel : ∀ fuel left tree p, parse fuel (loop left) p = .done (r, q) →
      ∃ tree', parse fuel (loop (some tree)) p = .done (some tree', q) := by
    intro fuel
    induction fuel with
    | zero => exact fun _ _ _ h => by cases h
    | succ fuel ih =>
      intro left tree p h
      rw [parse, hBody] at h ⊢
      obtain ⟨⟨token, p'⟩, hPeek, h⟩ := Outcome.bind_eq_done h
      dsimp only at h
      rw [bind_of_done hPeek]
      split at h
      · next hText =>
        rw [if_pos hText]
        obtain ⟨⟨right, p''⟩, hRight, h⟩ := Outcome.bind_eq_done h
        have hOperand : parse fuel operand (p'.after 1 0 p'.closedParen) = .done (right, p'') := hRight
        rw [bind_of_done advance_eq, bind_of_done hOperand]
        exact ih _ _ _ h
      · next hText =>
        cases h
        rw [if_neg hText]
        exact ⟨tree, rfl⟩
  obtain ⟨fuel, hParse⟩ := parse_of_parsed h
  obtain ⟨tree', hTree⟩ := hFuel fuel left tree p hParse
  exact ⟨tree', parsed_of_parse hTree⟩

theorem mulLoop_alike {left : ExprPtr} (h : parsed (.mulLoop left) p = .done (r, q)) (tree : Expr) :
    ∃ tree', parsed (.mulLoop (some tree)) p = .done (some tree', q) :=
  tokenLoop_alike (fun token => token.text = ascii "*" ∨ token.text = ascii "/" ∨ token.text = ascii "%")
    (fun _ _ => rfl) h tree

theorem addLoop_alike {left : ExprPtr} (h : parsed (.addLoop left) p = .done (r, q)) (tree : Expr) :
    ∃ tree', parsed (.addLoop (some tree)) p = .done (some tree', q) :=
  tokenLoop_alike (fun token => token.text = ascii "+" ∨ token.text = ascii "-") (fun _ _ => rfl) h tree

end Loops

/-- NOT in front of a sum belongs to the sum. -/
theorem Reads.notted {tokens : List Shape} {parameters : Nat} {Q : Nat → Expr → Prop} (h : Reads .additive tokens parameters Q) :
    Reads .additive (notShape :: tokens) parameters (fun _ _ => True) := by
  intro p next tail hRest hStops
  rw [List.cons_append] at hRest
  have hArg : (p.after 1 0 false).rest = tokens ++ next :: tail := by
    rw [rest_after, hRest]
    rfl
  obtain ⟨tree, closed, -, -, hParsed⟩ := h _ next tail hArg hStops
  have hAdd : parsed .parseAdd = parsed .parseMul >>= fun left => parsed (.addLoop left) := parsed_eq _
  have hMul : parsed .parseMul = parsed .parseUnary >>= fun left => parsed (.mulLoop left) := parsed_eq _
  change parsed .parseAdd _ = _ at hParsed
  rw [hAdd] at hParsed
  obtain ⟨⟨product, q⟩, hProduct, hSum⟩ := Outcome.bind_eq_done hParsed
  rw [hMul] at hProduct
  obtain ⟨⟨factor, q'⟩, hFactor, hProduct⟩ := Outcome.bind_eq_done hProduct
  -- the factor behind NOT is its argument, and both loops go on as they would without it
  have hNot : parsed .parseUnary p = .done (some (.unary (ascii "not") factor), q') :=
    (congrFun (parsed_eq _) p).trans ((bind_of_done (unaryOperator_hit (by decide) hRest)).trans (bind_of_done hFactor))
  obtain ⟨product', hProduct'⟩ := mulLoop_alike hProduct (.unary (ascii "not") factor)
  obtain ⟨sum', hSum'⟩ := addLoop_alike hSum product'
  refine ⟨sum', closed, trivial, nofun, ?_⟩
  change parsed .parseAdd p = _
  rw [hAdd, hMul]
  refine (bind_of_done ((bind_of_done hNot).trans hProduct')).trans (hSum'.trans ?_)
  rw [after_after, Nat.zero_add, Nat.add_comm 1]
  rfl

/-! ## Predicates -/

def comparisonTexts : List Bytes :=
  [ascii "=", ascii "==", ascii "!=", ascii "<>", ascii "<", ascii "<=", ascii ">", ascii ">="]

/-- Items of a list with a comma behind each. -/
inductive CommaItems : List Shape → Nat → Prop where
  | nil : CommaItems [] 0
  | cons {item more : List Shape} {parameters parameters' : Nat} (hOpens : Opens item)
      (hItem : ReadsBefore .disjunction commaShape item parameters fun _ _ => True) (hMore : CommaItems more parameters') :
      CommaItems (item ++ commaShape :: more) (parameters + parameters')

def inTokens (left body : List Shape) : List Shape := left ++ (.kWord, ascii "in") :: openShape :: body

/-- A predicate whose operands are sums. A list may be empty or end with a comma. -/
inductive Predicate : List Shape → Nat → Prop where
  | compared {left right : List Shape} {parameters parameters' : Nat} {Q Q' : Nat → Expr → Prop} {op : Bytes}
      (hLeft : Reads .additive left parameters Q) (hOp : op ∈ comparisonTexts) (hRight : Reads .additive right parameters' Q') :
      Predicate (left ++ (.kOperator, op) :: right) (parameters + parameters')
  | like {left right : List Shape} {parameters parameters' : Nat} {Q Q' : Nat → Expr → Prop}
      (hLeft : Reads .additive left parameters Q) (hRight : Reads .additive right parameters' Q') :
      Predicate (left ++ (.kWord, ascii "like") :: right) (parameters + parameters')
  | isNull {left : List Shape} {parameters : Nat} {Q : Nat → Expr → Prop} (hLeft : Reads .additive left parameters Q)
      (negated : Bool) : Predicate (left ++ nullTest negated) parameters
  | isIn {left items : List Shape} {parameters parameters' : Nat} {Q : Nat → Expr → Prop}
      (hLeft : Reads .additive left parameters Q) (hItems : CommaItems items parameters') :
      Predicate (inTokens left (items ++ [closeShape])) (parameters + parameters')
  | isInItems {left items last : List Shape} {parameters parameters' parameters'' : Nat} {Q : Nat → Expr → Prop}
      (hLeft : Reads .additive left parameters Q) (hItems : CommaItems items parameters') (hOpens : Opens last)
      (hLast : ReadsBefore .disjunction closeShape last parameters'' fun _ _ => True) :
      Predicate (inTokens left (items ++ (last ++ [closeShape]))) (parameters + (parameters' + parameters''))

section Lists

variable {p : Parser} {tail : List Shape}

theorem inLoop_item (args : List ExprPtr) {item : List Shape} {parameters : Nat} {next : Shape} (hOpens : Opens item)
    (hItem : ReadsBefore .disjunction next item parameters fun _ _ => True) (hFlag : p.closedParen = false)
    (hRest : rest p = item ++ next :: tail) : ∃ arg, parsed (.inLoop args) p =
      (do
        if ← accept (ascii ",") then parsed (.inLoop (args ++ [some arg]))
        else if ← expect (ascii ")") then parsed (.inLoop (args ++ [some arg]))
        else pure none : ParseM ExprPtr) (p.after item.length parameters false) := by
  obtain ⟨arg, closed, -, hClear, hParsed⟩ := hItem p tail hRest
  obtain rfl := hClear rfl
  obtain ⟨⟨kind, text⟩, more, rfl, hHead⟩ := hOpens
  simp only [List.mem_cons, List.not_mem_nil, or_false, not_or] at hHead
  refine ⟨arg, (congrFun (parsed_eq _) p).trans ?_⟩
  refine (bind_of_done (accept_other hRest hHead.2 hFlag)).trans ?_
  exact bind_of_done hParsed

theorem inLoop_items (args : List ExprPtr) {items : List Shape} {parameters : Nat} (hItems : CommaItems items parameters)
    (hFlag : p.closedParen = false) (hRest : rest p = items ++ tail) :
    ∃ args', parsed (.inLoop args) p = parsed (.inLoop args') (p.after items.length parameters false) := by
  induction hItems generalizing p args with
  | nil => exact ⟨args, by rw [← hFlag]; rfl⟩
  | cons hOpens hItem hMore ih =>
    rename_i item more parameters parameters'
    rw [List.append_assoc, List.cons_append] at hRest
    obtain ⟨arg, hLoop⟩ := inLoop_item args hOpens hItem hFlag hRest
    have hComma := rest_after_append hRest parameters false
    have hNext : ((p.after item.length parameters false).after 1 0 false).rest = more ++ tail := by
      rw [rest_after, hComma]
      rfl
    obtain ⟨args', hRun⟩ := ih (args ++ [some arg]) rfl hNext
    refine ⟨args', hLoop.trans ((bind_of_done (accept_hit hComma (by decide))).trans ?_)⟩
    simp only [if_true]
    rw [hRun, after_joined, List.length_append, List.length_cons]

/-- A list without a last item takes the parenthesis that closes it. -/
theorem inLoop_empty (args : List ExprPtr) {items : List Shape} {parameters : Nat} (hItems : CommaItems items parameters)
    (hFlag : p.closedParen = false) (hRest : rest p = items ++ closeShape :: tail) :
    ∃ args', parsed (.inLoop args) p = .done (some (.ofFunction (ascii "in") args'), p.after (items.length + 1) parameters false) := by
  obtain ⟨args', hRun⟩ := inLoop_items args hItems hFlag hRest
  have hClose := rest_after_append hRest parameters false
  refine ⟨args', hRun.trans ((congrFun (parsed_eq _) _).trans ((bind_of_done (accept_close hClose)).trans ?_))⟩
  rw [after_after]
  rfl

/-- A list with a last item takes two closing parentheses where there are two. -/
theorem inLoop_closes (args : List ExprPtr) {items last : List Shape} {parameters parameters' : Nat} (hItems : CommaItems items parameters)
    (hOpens : Opens last) (hLast : ReadsBefore .disjunction closeShape last parameters' fun _ _ => True)
    (hFlag : p.closedParen = false) (hRest : rest p = items ++ (last ++ closeShape :: closeShape :: tail)) :
    ∃ args', parsed (.inLoop args) p = .done (some (.ofFunction (ascii "in") args'),
      p.after (items.length + (last.length + 2)) (parameters + parameters') true) := by
  obtain ⟨args', hRun⟩ := inLoop_items args hItems hFlag hRest
  have hItem := rest_after_append hRest parameters false
  obtain ⟨arg, hLoop⟩ := inLoop_item args' hOpens hLast rfl hItem
  have hClose := rest_after_append hItem parameters' false
  have hAgain : (((p.after items.length parameters false).after last.length parameters' false).after 1 0 true).rest =
      closeShape :: tail := by
    rw [rest_after, hClose]
    rfl
  have hExpect : expect (ascii ")") (((p.after items.length parameters false).after last.length parameters' false).after 0 0 false) =
      .done (true, ((p.after items.length parameters false).after last.length parameters' false).after 1 0 true) := by
    have hRefreshed : (((p.after items.length parameters false).after last.length parameters' false).after 0 0 false).rest =
        closeShape :: closeShape :: tail := by rw [rest_after, List.drop_zero, hClose]
    rw [expect_close hRefreshed, after_after]
  refine ⟨args' ++ [some arg], hRun.trans (hLoop.trans ?_)⟩
  refine (bind_of_done (accept_miss hClose (by decide) (by decide))).trans ((bind_of_done hExpect).trans ?_)
  refine (congrFun (parsed_eq _) _).trans ((bind_of_done (accept_close hAgain)).trans ?_)
  rw [after_after, after_after, after_after]
  rfl

end Lists

section Operators

variable {left right : List Shape} {parameters parameters' : Nat} {Q Q' : Nat → Expr → Prop}

theorem reads_comparison (hLeft : Reads .additive left parameters Q) {op : Bytes} (hOp : op ∈ comparisonTexts)
    (hRight : Reads .additive right parameters' Q') :
    Reads .comparison (left ++ (.kOperator, op) :: right) (parameters + parameters') (fun _ tree => tree.kind ≠ .kUnary) := by
  have hTexts : ∀ op ∈ comparisonTexts, Level.like.Stops (.kOperator, op) ∧ op ≠ ascii "is" ∧ op ≠ ascii "in" := by decide
  obtain ⟨hStops, hIs, hIn⟩ := hTexts op hOp
  apply (Reads.compared hLeft.like rfl hStops hIs hIn hRight).weaken
  rintro n _ ⟨l, r, -, -, rfl⟩
  exact ExprKind.noConfusion

theorem reads_like (hLeft : Reads .additive left parameters Q) (hRight : Reads .additive right parameters' Q') :
    Reads .comparison (left ++ (.kWord, ascii "like") :: right) (parameters + parameters') (fun _ tree => tree.kind ≠ .kUnary) := by
  apply (hLeft.likeJoined hRight).comparison.weaken
  rintro n _ ⟨l, r, -, -, rfl⟩
  exact ExprKind.noConfusion

theorem reads_isNull (hLeft : Reads .additive left parameters Q) (negated : Bool) :
    Reads .comparison (left ++ nullTest negated) parameters (fun _ tree => tree.kind ≠ .kUnary) := by
  apply (hLeft.like.isNull negated).weaken
  rintro n _ ⟨arg, -, rfl⟩
  exact ExprKind.noConfusion

/-- The left operand of a list is its first item. -/
theorem compare_in (hLeft : Reads .additive left parameters Q) {body tail : List Shape} {p : Parser}
    (hRest : rest p = inTokens left body ++ tail) : ∃ l q, q = p.after (left.length + 2) parameters false ∧ rest q = body ++ tail ∧
      parsed .parseCompare p = parsed (.inLoop [some l]) q := by
  rw [inTokens, List.append_assoc, List.cons_append] at hRest
  obtain ⟨l, closed, -, -, hParsed⟩ := hLeft.like p (.kWord, ascii "in") _ hRest (by decide)
  have hIn := rest_after_append hRest parameters closed
  have hOpen : ((p.after left.length parameters closed).after 1 0 closed).rest = openShape :: (body ++ tail) := by
    rw [rest_after, hIn]
    rfl
  refine ⟨l, _, rfl, ?_, ?_⟩
  · have hBody : (((p.after left.length parameters closed).after 1 0 closed).after 1 0 false).rest = body ++ tail := by
      rw [rest_after, hOpen]
      rfl
    rwa [after_after, after_after] at hBody
  · refine (compare_operator hParsed hIn (by decide)).trans ?_
    rw [if_neg (by decide), if_pos rfl]
    refine (bind_of_done (expect_hit hOpen (by decide))).trans ?_
    rw [after_after, after_after]
    rfl

theorem reads_in (hLeft : Reads .additive left parameters Q) {items : List Shape} (hItems : CommaItems items parameters') :
    Reads .comparison (inTokens left (items ++ [closeShape])) (parameters + parameters') (fun _ tree => tree.kind ≠ .kUnary) := by
  intro p next tail hRest hStops
  obtain ⟨l, q, rfl, hBody, hCompare⟩ := compare_in hLeft hRest
  rw [List.append_assoc] at hBody
  obtain ⟨args, hLoop⟩ := inLoop_empty [some l] hItems rfl hBody
  refine ⟨.ofFunction (ascii "in") args, false, ?_, nofun, hCompare.trans (hLoop.trans ?_)⟩
  · exact ExprKind.noConfusion
  · have hLength : (inTokens left (items ++ [closeShape])).length = left.length + 2 + (items.length + 1) := by
      rw [inTokens, List.length_append, List.length_cons, List.length_cons, List.length_append, List.length_singleton]
      omega
    rw [after_after, hLength]

end Operators

/-- In front of a closing parenthesis the condition takes it, and goes on with what stands behind. -/
def Greedy (tokens : List Shape) : Prop :=
  ∀ (links : Trailing) (stop : Shape), links.Sound stop → (stop = closeShape ∨ stop = endShape) → ∀ p tail,
    rest p = tokens ++ closeShape :: (links.tokens ++ stop :: tail) → ∃ tree parameters,
      parsed .parseOr p = .done (some tree, p.after (tokens.length + (1 + links.tokens.length)) parameters false)

theorem stops_of_end {stop : Shape} (h : stop = closeShape ∨ stop = endShape) : Level.disjunction.Stops stop := by
  obtain rfl | rfl := h <;> decide

theorem greedy_in {left items last : List Shape} {parameters parameters' parameters'' : Nat} {Q : Nat → Expr → Prop}
    (hLeft : Reads .additive left parameters Q) (hItems : CommaItems items parameters') (hOpens : Opens last)
    (hLast : ReadsBefore .disjunction closeShape last parameters'' fun _ _ => True) :
    Greedy (inTokens left (items ++ (last ++ [closeShape]))) := by
  intro links stop hSound hStop p tail hRest
  obtain ⟨l, q, rfl, hBody, hCompare⟩ := compare_in hLeft hRest
  rw [List.append_assoc, List.append_assoc, List.singleton_append] at hBody
  obtain ⟨args, hLoop⟩ := inLoop_closes [some l] hItems hOpens hLast rfl hBody
  have hOperand := hCompare.trans hLoop
  have hLength : (inTokens left (items ++ (last ++ [closeShape]))).length + 1 = left.length + 2 + (items.length + (last.length + 2)) := by
    rw [inTokens, List.length_append, List.length_cons, List.length_cons, List.length_append, List.length_append,
      List.length_singleton]
    omega
  rw [after_after, ← hLength] at hOperand
  have hLinks : (p.after ((inTokens left (items ++ (last ++ [closeShape]))).length + 1)
      (parameters + (parameters' + parameters'')) true).rest = links.tokens ++ stop :: tail := by
    rw [rest_after, hRest, ← List.drop_drop, List.drop_left]
    rfl
  have hBehind := Trailing.behind_finish links (stops_of_end hStop) hSound {} (.ofFunction (ascii "in") args) _ _ hLinks
  have hRun : parsed .parseOr p = _ := (congrFun parsed_parseOr p).trans ((bind_of_done hOperand).trans hBehind)
  rw [after_after, Nat.add_assoc] at hRun
  exact ⟨_, _, hRun⟩

/-! ## A parenthesis too few -/

section Enclosed

variable {tokens : List Shape} {p : Parser}

/-- A group whose condition took its parenthesis ends at the next one. -/
theorem primary_greedy (h : Greedy tokens) {links : Trailing} {stop : Shape} (hSound : links.Sound stop)
    (hStop : stop = closeShape ∨ stop = endShape) {tail : List Shape}
    (hRest : rest p = enclosed tokens ++ (links.tokens ++ stop :: tail)) : ∃ tree parameters,
    parsed .parsePrimary p = (do if ← expect (ascii ")") then pure (some tree) else pure none : ParseM ExprPtr)
      (p.after ((enclosed tokens).length + links.tokens.length) parameters false) := by
  rw [enclosed, List.cons_append, List.append_assoc, List.singleton_append] at hRest
  have hInside : (p.after 1 0 false).rest = tokens ++ closeShape :: (links.tokens ++ stop :: tail) := by
    rw [rest_after, hRest]
    rfl
  obtain ⟨tree, parameters, hRun⟩ := h links stop hSound hStop _ tail hInside
  refine ⟨tree, parameters, (congrFun (parsed_eq _) p).trans ((bind_of_done (accept_hit hRest (by decide))).trans ?_)⟩
  refine (bind_of_done hRun).trans ?_
  have hLength : 1 + (tokens.length + (1 + links.tokens.length)) = tokens.length + 2 + links.tokens.length := by omega
  rw [after_after, length_enclosed, hLength, Nat.zero_add]

theorem rest_greedy {links : Trailing} {stop : Shape} {tail : List Shape}
    (hRest : rest p = enclosed tokens ++ (links.tokens ++ stop :: tail)) (parameters : Nat) :
    (p.after ((enclosed tokens).length + links.tokens.length) parameters false).rest = stop :: tail := by
  rw [rest_after, hRest, ← List.drop_drop, List.drop_left, List.drop_left]

theorem primary_closed (h : Greedy tokens) {links : Trailing} (hSound : links.Sound closeShape) {tail : List Shape}
    (hRest : rest p = enclosed tokens ++ (links.tokens ++ closeShape :: tail)) : ∃ tree parameters,
    parsed .parsePrimary p =
      .done (some tree, p.after ((enclosed tokens).length + links.tokens.length + 1) parameters true) := by
  obtain ⟨tree, parameters, hRun⟩ := primary_greedy h hSound (Or.inl rfl) hRest
  refine ⟨tree, parameters, hRun.trans ((bind_of_done (expect_close (rest_greedy hRest parameters))).trans ?_)⟩
  rw [after_after]
  rfl

/-- The method reports a failure. -/
def Fails (method : Method) (p : Parser) : Prop := ∀ r p', parsed method p = .done (r, p') → ¬ Down p'

theorem primary_fails (h : Greedy tokens) {links : Trailing} (hSound : links.Sound endShape)
    (hRest : rest p = enclosed tokens ++ (links.tokens ++ [endShape])) : Fails .parsePrimary p := by
  intro r p' hParsed
  obtain ⟨tree, parameters, hRun⟩ := primary_greedy h hSound (Or.inr rfl) hRest
  have hEnd := rest_greedy hRest parameters
  have hExpect : expect (ascii ")") (p.after ((enclosed tokens).length + links.tokens.length) parameters false) =
      .done (false, { p.after ((enclosed tokens).length + links.tokens.length) parameters false with
        status := .syntaxError (ascii "expected '" ++ ascii ")" ++ ascii "'") }) :=
    (bind_of_done (accept_other hEnd (by decide) rfl)).trans rfl
  rw [hRun, bind_of_done hExpect] at hParsed
  cases hParsed
  exact Status.noConfusion

end Enclosed

/-! ## Failures are kept -/

section Kept

variable {pre : Prop}

theorem kept_parsed (method : Method) : Reports pre (parsed method) (fun _ => True) := by
  intro p p' r h hDown
  obtain ⟨fuel, hParse⟩ := parse_of_parsed h
  exact ⟨(describes_whole.parse fuel method p p' r hParse hDown).1, fun _ => trivial⟩

theorem fails_bind {α β : Type} {m : ParseM α} {k : α → ParseM β} {p : Parser} (h : ∀ a p', m p = .done (a, p') → ¬ Down p')
    (hKept : ∀ a, Reports True (k a) (fun _ => True)) : ∀ b p', (m >>= k) p = .done (b, p') → ¬ Down p' := by
  intro b p' hRun hDown
  obtain ⟨⟨a, q⟩, hFirst, hRest⟩ := Outcome.bind_eq_done hRun
  exact h a q hFirst (hKept a q p' b hRest hDown).1

theorem kept_parseIs (left : ExprPtr) : Reports pre (parseIs left) (fun _ => True) := by
  apply (reports_accept _).bind
  intro negated
  apply (reports_expect _).bind
  intro accepted
  exact honest_ite (fun _ => honest_pure fun _ => trivial) fun _ => honest_pure fun _ => trivial

variable {p : Parser}

theorem Fails.product (h : Fails .parseUnary p) : Fails .parseMul p := by
  intro r p' hParsed
  rw [parsed_eq] at hParsed
  exact fails_bind h (fun left => kept_parsed (.mulLoop left)) r p' hParsed

theorem Fails.sum (h : Fails .parseMul p) : Fails .parseAdd p := by
  intro r p' hParsed
  rw [parsed_eq] at hParsed
  exact fails_bind h (fun left => kept_parsed (.addLoop left)) r p' hParsed

theorem Fails.like (h : Fails .parseAdd p) : Fails .parseLike p := by
  intro r p' hParsed
  rw [parsed_eq] at hParsed
  refine fails_bind h (fun left => honest_ite (fun _ => honest_pure fun _ => trivial) fun _ => ?_) r p' hParsed
  apply (reports_accept _).bind
  intro accepted
  apply honest_ite
  · intro _
    exact (kept_parsed .parseAdd).bind fun right => honest_pure fun _ => trivial
  · intro _
    exact honest_pure fun _ => trivial

theorem Fails.compare (h : Fails .parseLike p) : Fails .parseCompare p := by
  intro r p' hParsed
  rw [parsed_eq] at hParsed
  refine fails_bind h (fun left => honest_ite (fun _ => honest_pure fun _ => trivial) fun _ => ?_) r p' hParsed
  apply reports_peek.bind
  intro token
  refine honest_ite (fun _ => reports_advance.bind fun _ => ?_) fun _ => honest_pure fun _ => trivial
  refine honest_ite (fun _ => kept_parseIs left) fun _ => honest_ite (fun _ => ?_) fun _ => ?_
  · apply (reports_expect _).bind
    intro accepted
    exact honest_ite (fun _ => kept_parsed _) fun _ => honest_pure fun _ => trivial
  · exact (kept_parsed .parseAdd).bind fun right => honest_pure fun _ => trivial

theorem kept_behind (s : Pending) (operand : ExprPtr) : Reports pre (behind s operand) (fun _ => True) := by
  apply (kept_parsed _).bind
  intro conjunction
  exact kept_parsed _

/-- An operand that is not read leaves the whole condition unread. -/
theorem fails_awaiting (h : Fails .parseCompare p) (s : Pending) : ∀ r p', awaiting s p = .done (r, p') → ¬ Down p' :=
  fails_bind h (kept_behind s)

end Kept

/-! ## Holes with such a group -/

/-- The group, with or without NOT in front. -/
def Around (tokens hole : List Shape) : Prop := hole = enclosed tokens ∨ hole = notShape :: enclosed tokens

section Holes

variable {tokens hole more : List Shape} {p : Parser}

theorem rest_refresh (p : Parser) (closed : Bool) : (p.after 0 0 closed).rest = p.rest := rest_after 0 0

theorem unary_enclosed (hRest : rest p = enclosed tokens ++ more) :
    parsed .parseUnary p = parsed .parsePrimary (p.after 0 0 false) :=
  (congrFun (parsed_eq _) p).trans ((bind_of_done (unaryOperator_miss (by decide) hRest)).trans rfl)

theorem unary_not (hRest : rest p = notShape :: more) : parsed .parseUnary p =
    (parsed .parseUnary >>= fun arg => pure (some (.unary (ascii "not") arg))) (p.after 1 0 false) :=
  (congrFun (parsed_eq _) p).trans ((bind_of_done (unaryOperator_hit (by decide) hRest)).trans rfl)

theorem unary_closed (h : Greedy tokens) (hHole : Around tokens hole) {links : Trailing} (hSound : links.Sound closeShape)
    {tail : List Shape} (hRest : rest p = hole ++ (links.tokens ++ closeShape :: tail)) : ∃ tree parameters,
    parsed .parseUnary p = .done (some tree, p.after (hole.length + links.tokens.length + 1) parameters true) := by
  have hGroup : ∀ {p : Parser}, rest p = enclosed tokens ++ (links.tokens ++ closeShape :: tail) → ∃ tree parameters,
      parsed .parseUnary p =
        .done (some tree, p.after ((enclosed tokens).length + links.tokens.length + 1) parameters true) := by
    intro p hRest
    obtain ⟨tree, parameters, hPrimary⟩ := primary_closed h hSound ((rest_refresh p false).trans hRest)
    rw [after_after, Nat.zero_add] at hPrimary
    exact ⟨tree, _, (unary_enclosed hRest).trans hPrimary⟩
  obtain rfl | rfl := hHole
  · exact hGroup hRest
  · rw [List.cons_append] at hRest
    have hArg : (p.after 1 0 false).rest = enclosed tokens ++ (links.tokens ++ closeShape :: tail) := by
      rw [rest_after, hRest]
      rfl
    obtain ⟨tree, parameters, hUnary⟩ := hGroup hArg
    refine ⟨.unary (ascii "not") (some tree), parameters, (unary_not hRest).trans ((bind_of_done hUnary).trans ?_)⟩
    have hLength : 1 + ((enclosed tokens).length + links.tokens.length + 1) =
        (notShape :: enclosed tokens).length + links.tokens.length + 1 := by
      rw [List.length_cons]
      omega
    rw [after_after, hLength, Nat.zero_add]
    rfl

theorem unary_fails (h : Greedy tokens) (hHole : Around tokens hole) {links : Trailing} (hSound : links.Sound endShape)
    (hRest : rest p = hole ++ (links.tokens ++ [endShape])) : Fails .parseUnary p := by
  have hGroup : ∀ {p : Parser}, rest p = enclosed tokens ++ (links.tokens ++ [endShape]) → Fails .parseUnary p := by
    intro p hRest r p' hParsed
    rw [unary_enclosed hRest] at hParsed
    exact primary_fails h hSound ((rest_refresh p false).trans hRest) r p' hParsed
  obtain rfl | rfl := hHole
  · exact hGroup hRest
  · rw [List.cons_append] at hRest
    have hArg : (p.after 1 0 false).rest = enclosed tokens ++ (links.tokens ++ [endShape]) := by
      rw [rest_after, hRest]
      rfl
    intro r p' hParsed
    rw [unary_not hRest] at hParsed
    exact fails_bind (hGroup hArg) (fun arg => honest_pure fun _ => trivial) r p' hParsed

theorem arrives_compare {p' : Parser} {tree : Expr} {next : Shape} {tail : List Shape}
    (h : parsed .parseUnary p = .done (some tree, p')) (hRest : rest p' = next :: tail) (hStops : Level.comparison.Stops next) :
    ∃ closed, parsed .parseCompare p = .done (some tree, p'.after 0 0 closed) := by
  have hAgain (closed : Bool) : rest (p'.after 0 0 closed) = next :: tail := (rest_refresh p' closed).trans hRest
  have hHere (level : Level) (hRank : 2 ≤ level.rank) : ¬ level.Continues next := hStops level hRank
  obtain ⟨c, -, hMul⟩ := Chain.arrives .multiplicative h hRest (hHere _ (by decide))
  obtain ⟨c', -, hAdd⟩ := Chain.arrives .additive hMul (hAgain c) (hHere _ (by decide))
  rw [after_after] at hAdd
  have hLike := arrives_like hAdd (hAgain c') (hHere _ (by decide))
  rw [after_after] at hLike
  exact ⟨false, arrives_comparison hLike (hAgain false) (hHere _ (by decide))⟩

end Holes

/-- A condition around such a group is another one. -/
theorem Greedy.layer {tokens hole : List Shape} (h : Greedy tokens) (hHole : Around tokens hole) {layer : Layer}
    (hLayer : layer.Sound closeShape) : Greedy (layer.fill hole) := by
  intro links stop hSound hStop p tail hRest
  rw [Layer.fill, List.append_assoc, List.append_assoc] at hRest
  obtain ⟨head, others, hHead⟩ : ∃ head others, hole = head :: others := by
    obtain rfl | rfl := hHole <;> exact ⟨_, _, rfl⟩
  have hLeading := hRest
  rw [hHead, List.cons_append] at hLeading
  obtain ⟨closed, hAwaiting⟩ := Leading.awaiting_pending _ hLayer.leading {} p _ _ hLeading
  have hHere := rest_after_append hRest layer.leading.parameters closed
  obtain ⟨tree, parameters, hUnary⟩ := unary_closed h hHole hLayer.trailing hHere
  have hBehindHole : ((p.after layer.leading.tokens.length layer.leading.parameters closed).after
      (hole.length + layer.trailing.tokens.length + 1) parameters true).rest = links.tokens ++ stop :: tail := by
    rw [rest_after, hHere, ← List.drop_drop, ← List.drop_drop, List.drop_left, List.drop_left]
    rfl
  obtain ⟨more, hMore⟩ := links.tokens_opening stop tail
  obtain ⟨closed', hCompare⟩ := arrives_compare hUnary (hBehindHole.trans hMore) (links.stops_opening (stops_of_end hStop))
  have hLinks := (rest_refresh _ closed').trans hBehindHole
  have hBehind := Trailing.behind_finish links (stops_of_end hStop) hSound
    (layer.leading.pending p.parameterCount {}) tree _ _ hLinks
  have hRun : parsed .parseOr p = _ :=
    (congrFun parsed_parseOr p).trans (hAwaiting.trans ((bind_of_done hCompare).trans hBehind))
  have hLength : layer.leading.tokens.length + (hole.length + layer.trailing.tokens.length + 1 + 0) + links.tokens.length =
      (layer.fill hole).length + (1 + links.tokens.length) := by
    rw [Layer.fill, List.length_append, List.length_append]
    omega
  rw [after_after, after_after, after_after, hLength] at hRun
  exact ⟨_, _, hRun⟩

theorem greedy_groups (inner : List Layer) (hInner : ∀ layer ∈ inner, layer.Sound closeShape) {tokens hole : List Shape}
    (h : Greedy tokens) (hHole : Around tokens hole) : ∃ tokens', Greedy tokens' ∧ Around tokens' (groups inner hole) := by
  induction inner generalizing tokens hole with
  | nil => exact ⟨tokens, h, hHole⟩
  | cons layer inner ih =>
    obtain ⟨hLayer, hInner⟩ := List.forall_mem_cons.mp hInner
    exact ih hInner (h.layer hHole hLayer) (Or.inl rfl)

/-- The outermost group finds the end of the tokens instead of its parenthesis. -/
theorem Greedy.not_parsesTo {tokens : List Shape} (h : Greedy tokens) {context : Context} (hContext : context.Sound) {p : Parser}
    (hp : Begins p (context.fill (notShape :: enclosed tokens))) (tree : Expr) : ¬ ParsesTo p tree := by
  rintro ⟨p', hRun, hDown, -⟩
  rw [expression_eq_parsed (ready_of_rest hp.rest), parsed_parseOr] at hRun
  obtain ⟨tokens', hGreedy, hHole⟩ := greedy_groups _ hContext.inner h (Or.inr rfl)
  have hRest := hp.rest
  rw [Context.fill, Layer.fill, List.append_assoc, List.append_assoc] at hRest
  obtain ⟨head, others, hHead⟩ : ∃ head others, groups context.inner (notShape :: enclosed tokens) = head :: others := by
    obtain hGroups | hGroups := hHole <;> exact ⟨_, _, hGroups⟩
  have hLeading := hRest
  rw [hHead, List.cons_append] at hLeading
  obtain ⟨closed, hAwaiting⟩ := Leading.awaiting_pending _ hContext.outer.leading {} p _ _ hLeading
  rw [hAwaiting] at hRun
  have hUnary := unary_fails hGreedy hHole hContext.outer.trailing
    (rest_after_append hRest context.outer.leading.parameters closed)
  exact fails_awaiting hUnary.product.sum.like.compare _ _ _ hRun hDown

/-! ## NOT and a predicate -/

theorem reads_notGroup {tokens : List Shape} {parameters : Nat} {Q : Nat → Expr → Prop}
    (h : Reads .comparison tokens parameters Q) :
    Reads .comparison (notShape :: enclosed tokens) parameters (fun _ tree => tree.kind = .kUnary) := by
  have hGroup : Reads .unary (enclosed tokens) parameters Q :=
    (h.loosen (by decide) .disjunction (by decide)).enclosed.unary (by decide)
  have hNot : Reads .unary (notShape :: enclosed tokens) parameters
      (fun n tree => ∃ arg, Q n arg ∧ tree = .unary (ascii "not") (some arg)) := hGroup.negated (by decide)
  apply (hNot.loosen (by decide) .comparison (by decide)).weaken
  rintro n _ ⟨arg, -, rfl⟩
  rfl

/-- The predicate is left standing around NOT in one of the two, and stands under it in the other. -/
theorem apart_not {tokens : List Shape} {parameters : Nat} {Q : Nat → Expr → Prop} (h : Reads .comparison tokens parameters Q)
    (hNot : Reads .comparison (notShape :: tokens) parameters (fun _ tree => tree.kind ≠ .kUnary)) :
    Apart (notShape :: tokens) (notShape :: enclosed tokens) parameters := by
  refine ⟨_, _, hNot, reads_notGroup h, ?_⟩
  rintro n x y hx hy rfl
  exact hx hy

theorem not_predicate_never_alike {tokens : List Shape} {parameters : Nat} (hPredicate : Predicate tokens parameters)
    {context : Context} (hContext : context.Sound) {p q : Parser} (hp : Begins p (context.fill (notShape :: tokens)))
    (hq : Begins q (context.fill (notShape :: enclosed tokens))) : ¬ ∃ tree, ParsesTo p tree ∧ ParsesTo q tree := by
  cases hPredicate with
  | compared hLeft hOp hRight =>
    exact (apart_not (reads_comparison hLeft hOp hRight) (reads_comparison hLeft.notted hOp hRight)).parsesTo hContext hp hq
  | like hLeft hRight =>
    exact (apart_not (reads_like hLeft hRight) (reads_like hLeft.notted hRight)).parsesTo hContext hp hq
  | isNull hLeft negated =>
    exact (apart_not (reads_isNull hLeft negated) (reads_isNull hLeft.notted negated)).parsesTo hContext hp hq
  | isIn hLeft hItems =>
    exact (apart_not (reads_in hLeft hItems) (reads_in hLeft.notted hItems)).parsesTo hContext hp hq
  | isInItems hLeft hItems hOpens hLast =>
    rintro ⟨tree, -, hParses⟩
    exact (greedy_in hLeft hItems hOpens hLast).not_parsesTo hContext hq tree hParses

theorem reads_sum_column {name : Bytes} (hName : Names name) (hOp : name ∉ [ascii "not", ascii "-", ascii "+"]) :
    Reads .additive [(.kWord, name)] 0 (fun _ tree => tree = .ofColumn name) :=
  ((reads_column hName).unary hOp).loosen (by decide) .additive (by decide)

/-- `b AND NOT a = c` -/
def sampleContext : Context :=
  ⟨[], ⟨[(⟨[(.kWord, ascii "b")], 0, fun _ => .ofColumn (ascii "b")⟩, .and)], []⟩⟩

def sampleTokens : List Shape := [(.kWord, ascii "a"), (.kOperator, ascii "="), (.kWord, ascii "c")]

theorem sampleContext_sound : sampleContext.Sound := by
  have hColumn : Reads .additive [(.kWord, ascii "b")] 0 (fun _ tree => tree = .ofColumn (ascii "b")) :=
    reads_sum_column ⟨by decide, by decide⟩ (by decide)
  constructor
  · exact nofun
  · constructor
    · intro link hLink
      rw [List.mem_singleton.mp hLink]
      exact (hColumn.loosen (by decide) .comparison (by decide)).before (by decide)
    · exact trivial

theorem not_predicate_sample : ¬ ∃ tree,
    ParsesTo (ofShapes (sampleContext.fill (notShape :: sampleTokens) ++ [endShape])) tree ∧
      ParsesTo (ofShapes (sampleContext.fill (notShape :: enclosed sampleTokens) ++ [endShape])) tree :=
  not_predicate_never_alike
    (.compared (reads_sum_column ⟨by decide, by decide⟩ (by decide)) (by decide)
      (reads_sum_column ⟨by decide, by decide⟩ (by decide)))
    sampleContext_sound (begins_ofShapes _) (begins_ofShapes _)

def parserOf (sql : Bytes) : Parser :=
  match tokenize sql with
  | .ok tokens => { tokens := tokens }
  | .error _ => { tokens := [] }

/-- `NOT a = 1` is `(NOT a) = 1`. -/
theorem not_equality_apart :
    (∃ p, Parser.expression (parserOf (ascii "NOT a = 1")) = .done (some (.binary (ascii "=")
      (some (.unary (ascii "not") (some (.ofColumn (ascii "a"))))) (some (.ofLiteral (.integer 1)))), p) ∧ p.status = .ok) ∧
    (∃ p, Parser.expression (parserOf (ascii "NOT (a = 1)")) = .done (some (.unary (ascii "not")
      (some (.binary (ascii "=") (some (.ofColumn (ascii "a"))) (some (.ofLiteral (.integer 1)))))), p) ∧ p.status = .ok) :=
  ⟨⟨{ parserOf (ascii "NOT a = 1") with index := 4 }, by decide +kernel⟩,
    ⟨{ parserOf (ascii "NOT (a = 1)") with index := 6 }, by decide +kernel⟩⟩

end Parser

end TupleStone
