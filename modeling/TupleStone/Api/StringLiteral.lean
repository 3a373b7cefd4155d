import TupleStone.Api.Reading
import TupleStone.Api.TokenText

/-! # String literals

The literal of a byte string is one token whose text is the string. The parser compares texts before it looks at kinds:
four strings are taken for a prefix operator or an opening parenthesis.
-/

set_option autoImplicit false

namespace TupleStone

/-- The literal and the end of the text. -/
def literalTokens (s : Bytes) : List Token := [⟨.kString, s, 0⟩, ⟨.kEnd, [], (sqlLiteral s).length⟩]

theorem tokenize_sqlLiteral (s : Bytes) : tokenize (sqlLiteral s) = .ok (literalTokens s) := by
  have hStep : Tokenize.step 39 (doubled s ++ [39]) = .ok ⟨some (.kString, s), (doubled s ++ [39]).length⟩ := by
    rw [List.length_append]
    exact Tokenize.step_quote s (by decide)
  have hEnd := Tokenize.loop_skip (doubled s ++ [39]) [] 1
  rw [List.append_nil] at hEnd
  rw [Nat.add_comm] at hEnd
  exact Tokenize.loop_token .kString s _ hStep hEnd

/-- The literal is read as the text and nothing of it is left. -/
def ReadAsText (s : Bytes) : Prop :=
  ∃ tokens p, tokenize (sqlLiteral s) = .ok tokens ∧
    Parser.expression { tokens := tokens } = .done (some (.ofLiteral (.text s)), p) ∧
    p.status = .ok ∧ p.index + 1 = tokens.length

/-- The strings that the parser takes for the beginning of an operand. -/
def takenForSyntax : List Bytes := [ascii "not", ascii "-", ascii "+", ascii "("]

namespace Parser

theorem expression_literal {s : Bytes} (h : s ∉ takenForSyntax) :
    ∃ p, expression { tokens := literalTokens s } = .done (some (.ofLiteral (.text s)), p) ∧ p.status = .ok ∧ p.index = 1 := by
  simp only [takenForSyntax, List.mem_cons, List.not_mem_nil, or_false, not_or] at h
  have hUnary : s ∉ [ascii "not", ascii "-", ascii "+"] := by
    simp only [List.mem_cons, List.not_mem_nil, or_false, not_or]
    exact ⟨h.1, h.2.1, h.2.2.1⟩
  have hReads := ((reads_string h.2.2.2).unary hUnary).loosen (by decide) .disjunction (by decide)
  have hReady : Ready { tokens := literalTokens s } := by
    constructor
    · exact ⟨[⟨.kString, s, 0⟩], _, rfl⟩
    · simp [literalTokens]
  obtain ⟨tree, rfl, hParsed⟩ := hReads.expression hReady rfl
  exact ⟨_, hParsed, rfl, rfl⟩

/-- Taken for syntax, the literal lacks an operand behind it. -/
theorem expression_taken : ∀ s ∈ takenForSyntax,
    ∃ r p, expression { tokens := literalTokens s } = .done (r, p) ∧ p.status ≠ .ok := by
  have hFails : ∀ s ∈ takenForSyntax,
      (expression { tokens := literalTokens s }).value?.any (fun result => decide (result.2.status ≠ .ok)) = true := by
    decide +kernel
  intro s hs
  obtain ⟨⟨r, p⟩, hValue, hStatus⟩ := (Option.any_eq_true _ _).mp (hFails s hs)
  exact ⟨r, p, Outcome.value?_eq_some.mp hValue, of_decide_eq_true hStatus⟩

theorem not_readAsText_of_taken {s : Bytes} (h : s ∈ takenForSyntax) : ¬ ReadAsText s := by
  rintro ⟨tokens, p, hTokens, hParsed, hOk, -⟩
  cases (tokenize_sqlLiteral s).symm.trans hTokens
  obtain ⟨r, p', hTaken, hStatus⟩ := expression_taken s h
  cases hTaken.symm.trans hParsed
  exact hStatus hOk

end Parser

theorem readAsText_iff (s : Bytes) : ReadAsText s ↔ s ∉ takenForSyntax := by
  constructor
  · exact fun h hTaken => Parser.not_readAsText_of_taken hTaken h
  · intro h
    obtain ⟨p, hParsed, hOk, hIndex⟩ := Parser.expression_literal h
    refine ⟨_, p, tokenize_sqlLiteral s, hParsed, hOk, ?_⟩
    rw [hIndex]
    rfl

/-- The text `'not'` is the operator without its operand. -/
theorem quotedNot_read_as_operator : ¬ ∀ s, ReadAsText s := fun h =>
  Parser.not_readAsText_of_taken (s := ascii "not") (by decide) (h _)

end TupleStone
