import TupleStone.Api.ScanRuns

/-! # Parentheses around an expression

An expression in one more pair of parentheses is the same expression, unless its last token closes the list of an `IN`:
that list takes the parenthesis behind it as well.
-/

set_option autoImplicit false

namespace TupleStone

open Flag Unroll

namespace Parser

/-- A parser at the first of the tokens. -/
structure Begins (p : Parser) (tokens : List Shape) : Prop where
  index : p.index = 0
  parameters : p.parameterCount = 0
  flag : p.closedParen = false
  fine : p.status = .ok
  rest : p.rest = tokens ++ [endShape]

/-- The expression is read successfully up to the end token. -/
def ParsesTo (p : Parser) (tree : Expr) : Prop :=
  ∃ p', expression p = .done (some tree, p') ∧ p'.status = .ok ∧ p'.rest = [endShape]

theorem parse_of_parsed {method : Method} {p p' : Parser} {r : ExprPtr} (h : parsed method p = .done (r, p')) :
    ∃ fuel, parse fuel method p = .done (r, p') := by
  have hReached : limit body method p ≠ .outOfFuel := by
    change parsed method p ≠ .outOfFuel
    rw [h]
    exact nofun
  obtain ⟨fuel, hFuel⟩ := limit_reached hReached
  refine ⟨fuel, ?_⟩
  rw [parse_eq_unroll, hFuel]
  exact h

/-! ## A complete run -/

variable {p q p' : Parser} {tokens more : List Shape} {r : ExprPtr}

theorem lexical_end (h : Lexical tokens) : Lexical (tokens ++ [endShape]) := by
  intro token hToken hKind
  rcases List.mem_append.mp hToken with hMem | hMem
  · exact h token hMem hKind
  · rw [List.mem_singleton.mp hMem] at hKind
    cases hKind

theorem dropLast_tokens (hIndex : p.index = 0) (hRest : p.rest = tokens ++ [endShape]) :
    p.tokens.dropLast.map shape = tokens := by
  have hTokens : p.tokens.map shape = tokens ++ [endShape] := by rw [← hRest, rest, hIndex, List.drop_zero]
  rw [List.map_dropLast, hTokens, List.dropLast_concat]

theorem at_start (hIndex : p.index = 0) (hLeft : p.rest = tokens ++ [endShape]) (hRight : q.rest = tokens ++ closeShape :: more)
    (hFlags : q.closedParen = p.closedParen) (hParameters : q.parameterCount = p.parameterCount) (hLexical : Lexical tokens)
    (hFree : Scan.endsWithList tokens = false) : At (p, q) {} p q := by
  constructor
  case scanned =>
    rw [scanned, hIndex]
    rfl
  case beside => exact ⟨tokens, more, hLeft, hRight⟩
  case parameters => exact hParameters
  case lexical =>
    rw [hLeft]
    exact lexical_end hLexical
  case free => rw [dropLast_tokens hIndex hLeft, hFree]
  case moved => exact ⟨0, 0, p.closedParen, rfl, by rw [← hFlags]; rfl⟩

/-- What is read completely is read alike in front of a closing parenthesis. -/
theorem beside_run (hIndex : p.index = 0) (hLeft : p.rest = tokens ++ [endShape])
    (hRight : q.rest = tokens ++ closeShape :: more) (hFlags : q.closedParen = p.closedParen)
    (hParameters : q.parameterCount = p.parameterCount) (hLexical : Lexical tokens) (hFree : Scan.endsWithList tokens = false)
    (hRun : parsed .parseOr p = .done (r, p')) (hDown : p'.status = .ok) (hEnd : p'.rest = [endShape]) :
    ({} : Scan).run tokens = some ⟨.operator, [], false⟩ ∧ ∃ parameters, p' = p.after tokens.length parameters false ∧
      parsed .parseOr q = .done (r, q.after tokens.length parameters false) := by
  obtain ⟨fuel, hFuel⟩ := parse_of_parsed hRun
  have hAt := at_start hIndex hLeft hRight hFlags hParameters hLexical hFree
  have hFresh : Fresh (p, q) [] p q := ⟨{}, hAt, fun _ _ _ => rfl⟩
  obtain ⟨q', hRun', -, hLoose, hClear, -⟩ :=
    ((scanning_parse fuel).lockstep (p, q) [] .parseOr p p' r hFuel hDown).2 q hFresh
  obtain hTight | ⟨-, token, tail, hRest, -, hMore⟩ := hLoose
  · obtain ⟨consumed, parameters, closed, rfl, rfl⟩ := At.moved hTight
    have hConsumed : consumed = tokens.length := by
      rw [rest_after, hLeft] at hEnd
      have hLength := congrArg List.length hEnd
      simp only [List.length_drop, List.length_append, List.length_singleton] at hLength
      omega
    obtain rfl : closed = false := hClear
    subst hConsumed
    have hScan : ({} : Scan).run (p.tokens.dropLast.map shape) = some ⟨.operator, [], false⟩ :=
      (scanned_of_end hEnd).symm.trans (At.scanned hTight)
    rw [dropLast_tokens hIndex hLeft] at hScan
    exact ⟨hScan, parameters, rfl, parsed_of_parse hRun'⟩
  · cases hRest.symm.trans hEnd
    exact absurd rfl hMore

/-- A parser over tokens without positions. -/
def ofShapes (tokens : List Shape) : Parser := { tokens := tokens.map fun token => ⟨token.1, token.2, 0⟩ }

theorem rest_ofShapes (tokens : List Shape) : (ofShapes tokens).rest = tokens := by
  rw [rest, ofShapes, List.drop_zero, List.map_map]
  exact List.map_id tokens

/-- The scan of an expression leaves no parenthesis open. -/
theorem scan_complete (hIndex : p.index = 0) (hLeft : p.rest = tokens ++ [endShape]) (hLexical : Lexical tokens)
    (hFree : Scan.endsWithList tokens = false) (hRun : parsed .parseOr p = .done (r, p')) (hDown : p'.status = .ok)
    (hEnd : p'.rest = [endShape]) : ({} : Scan).run tokens = some ⟨.operator, [], false⟩ := by
  have hRight : ((ofShapes (tokens ++ [closeShape])).after 0 p.parameterCount p.closedParen).rest = tokens ++ closeShape :: [] := by
    rw [rest_after, List.drop_zero, rest_ofShapes]
  exact (beside_run hIndex hLeft hRight rfl (Nat.zero_add _) hLexical hFree hRun hDown hEnd).1

/-! ## One more pair -/

/-- A parenthesis behind a list with items is taken by the list, and stays open. -/
theorem scan_enclosed (h : Scan.endsWithList tokens = true) :
    ∃ lists, ({} : Scan).run (enclosed tokens) = some ⟨.operator, lists ++ [false], false⟩ := by
  rw [Scan.endsWithList] at h
  cases hRun : ({} : Scan).run tokens with
  | none =>
    rw [hRun] at h
    cases h
  | some s =>
    obtain ⟨mode, lists, closed⟩ := s
    obtain rfl : closed = true := by simpa [hRun] using h
    obtain rfl : mode = .operator := Scan.run_listClosed hRun Bool.noConfusion rfl
    refine ⟨lists, ?_⟩
    have hInside : ({ lists := [false] } : Scan).run tokens = some ⟨.operator, lists ++ [false], true⟩ :=
      Scan.run_below hRun [false]
    have hOpen : ({} : Scan).step (ascii "(") = some { lists := [false] } := rfl
    rw [enclosed, Scan.run_cons_of hOpen, Scan.run_append_of hInside]
    rfl

theorem primary_enclosed {tree : Expr} {parameters : Nat} (hRest : q.rest = enclosed tokens ++ more)
    (h : parsed .parseOr (q.after 1 0 false) = .done (some tree, (q.after 1 0 false).after tokens.length parameters false)) :
    parsed .parsePrimary q = .done (some tree, q.after (tokens.length + 2) parameters true) := by
  rw [enclosed, List.cons_append, List.append_assoc] at hRest
  have hInside : (q.after 1 0 false).rest = tokens ++ closeShape :: more := by
    rw [rest_after, hRest]
    rfl
  refine (congrFun (parsed_eq _) q).trans ((bind_of_done (accept_hit hRest (by decide))).trans ?_)
  refine (bind_of_done h).trans ((bind_of_done (expect_close (rest_after_append hInside parameters false))).trans ?_)
  have hLength : 1 + (tokens.length + 1) = tokens.length + 2 := by omega
  rw [after_after, after_after, Nat.zero_add, Nat.add_zero, hLength]
  rfl

theorem parsesTo_enclosed {tree : Expr} (hp : Begins p tokens) (hq : Begins q (enclosed tokens)) (hLexical : Lexical tokens)
    (hFree : Scan.endsWithList tokens = false) (h : ParsesTo p tree) : ParsesTo q tree := by
  obtain ⟨p', hRun, hDown, hEnd⟩ := h
  rw [expression_eq_parsed (ready_of_rest hp.rest)] at hRun
  have hRest : (q.after 0 0 false).rest = enclosed tokens ++ [endShape] := by rw [rest_after, List.drop_zero, hq.rest]
  have hInside : ((q.after 0 0 false).after 1 0 false).rest = tokens ++ closeShape :: [endShape] := by
    rw [rest_after, hRest, enclosed, List.cons_append, List.append_assoc]
    rfl
  obtain ⟨-, parameters, -, hInner⟩ := beside_run hp.index hp.rest hInside hp.flag.symm (hq.parameters.trans hp.parameters.symm)
    hLexical hFree hRun hDown hEnd
  have hPrimary := primary_enclosed hRest hInner
  have hUnary : parsed .parseUnary q = .done (some tree, (q.after 0 0 false).after (tokens.length + 2) parameters true) := by
    refine (congrFun (parsed_eq _) q).trans ((bind_of_done (unaryOperator_miss (by decide) hq.rest)).trans ?_)
    exact hPrimary
  have hBehind : ((q.after 0 0 false).after (tokens.length + 2) parameters true).rest = [endShape] := by
    rw [← length_enclosed]
    exact rest_after_append hRest parameters true
  have hOr := arrives_disjunction hUnary hBehind (by decide)
  refine ⟨_, (expression_eq_parsed (ready_of_rest hq.rest)).trans hOr, hq.fine, ?_⟩
  rw [rest_after, List.drop_zero, hBehind]

theorem enclosing_iff {tree : Expr} (hp : Begins p tokens) (hq : Begins q (enclosed tokens)) (hLexical : Lexical tokens)
    (h : ParsesTo p tree) : ParsesTo q tree ↔ Scan.endsWithList tokens = false := by
  constructor
  · intro hParses
    obtain ⟨q', hRun, hDown, hEnd⟩ := hParses
    rw [expression_eq_parsed (ready_of_rest hq.rest)] at hRun
    by_contra hList
    obtain ⟨lists, hScan⟩ := scan_enclosed (Bool.eq_true_of_not_eq_false hList)
    have hEnclosed : Lexical (enclosed tokens) := by
      intro token hToken hKind
      rw [enclosed, List.mem_cons, List.mem_append, List.mem_singleton] at hToken
      rcases hToken with rfl | hToken | rfl
      · cases hKind
      · exact hLexical token hToken hKind
      · cases hKind
    have hFree : Scan.endsWithList (enclosed tokens) = false := by
      rw [Scan.endsWithList, hScan]
      rfl
    have hComplete := scan_complete hq.index hq.rest hEnclosed hFree hRun hDown hEnd
    rw [hScan] at hComplete
    cases lists <;> cases hComplete
  · intro hFree
    exact parsesTo_enclosed hp hq hLexical hFree h

theorem begins_ofShapes (tokens : List Shape) : Begins (ofShapes (tokens ++ [endShape])) tokens :=
  ⟨rfl, rfl, rfl, rfl, rest_ofShapes _⟩

def succeeds (p : Parser) : Bool :=
  match expression p with
  | .done (some _, p') => decide (p'.status = .ok) && decide (p'.rest = [endShape])
  | _ => false

theorem succeeds_iff (p : Parser) : succeeds p = true ↔ ∃ tree, ParsesTo p tree := by
  rw [succeeds]
  constructor
  · intro h
    split at h
    · next tree p' hRun =>
      rw [Bool.and_eq_true, decide_eq_true_eq, decide_eq_true_eq] at h
      exact ⟨tree, p', hRun, h⟩
    · cases h
  · rintro ⟨tree, p', hRun, hDown, hEnd⟩
    rw [hRun]
    simp [hDown, hEnd]

/-- `a in (1)` -/
def listTokens : List Shape :=
  [(.kWord, ascii "a"), (.kWord, ascii "in"), (.kPunctuation, ascii "("), (.kNumber, ascii "1"), closeShape]

def conjunctionTokens : List Shape := listTokens ++ [(.kWord, ascii "and"), (.kWord, ascii "b")]

theorem conjunction_enclosed : ∃ tree, ParsesTo (ofShapes (conjunctionTokens ++ [endShape])) tree ∧
    ParsesTo (ofShapes (enclosed conjunctionTokens ++ [endShape])) tree := by
  obtain ⟨tree, hTree⟩ := (succeeds_iff (ofShapes (conjunctionTokens ++ [endShape]))).mp (by decide +kernel)
  have hIff := enclosing_iff (begins_ofShapes _) (begins_ofShapes _) (by decide) hTree
  exact ⟨tree, hTree, hIff.mpr (by decide)⟩

/-- The parenthesis behind the list is taken by it, and the one that was opened is not found closed. -/
theorem list_not_enclosed : ∃ tree, ParsesTo (ofShapes (listTokens ++ [endShape])) tree ∧
    ¬ ParsesTo (ofShapes (enclosed listTokens ++ [endShape])) tree := by
  obtain ⟨tree, hTree⟩ := (succeeds_iff (ofShapes (listTokens ++ [endShape]))).mp (by decide +kernel)
  have hFails : succeeds (ofShapes (enclosed listTokens ++ [endShape])) = false := by decide +kernel
  refine ⟨tree, hTree, fun h => ?_⟩
  rw [(succeeds_iff _).mpr ⟨tree, h⟩] at hFails
  cases hFails

end Parser

end TupleStone
