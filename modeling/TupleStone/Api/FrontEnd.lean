import TupleStone.Api.ParsedTree
import TupleStone.Api.ParserTotality

/-! # The front end stays in bounds

Tokens end with their only end token, and from there on no method of the parser leaves them.
-/

set_option autoImplicit false

namespace TupleStone

/-- A text is tokenized, with one end token at the end, or refused. -/
theorem tokenize_cases (sql : Bytes) :
    (∃ body last, tokenize sql = .ok (body ++ [⟨.kEnd, [], last⟩]) ∧ ∀ token ∈ body, token.kind ≠ .kEnd) ∨
      ∃ status, tokenize sql = .error status ∧ status ≠ .ok := by
  cases h : tokenize sql with
  | ok tokens =>
    obtain ⟨body, last, rfl, hBody⟩ := tokenize_shape h
    exact Or.inl ⟨body, last, rfl, hBody⟩
  | error status => exact Or.inr ⟨status, rfl, tokenize_error h⟩

namespace Parser

variable {p : Parser}

theorem returns_peek (h : Ready p) : Returns peek p := (settles_peek h).weaken fun _ _ _ => trivial

theorem returns_peekAt (h : Ready p) (offset : Nat) : Returns (peekAt offset) p := by
  have hInside := h.inside
  have hLess : min (p.index + offset) (p.tokens.length - 1) < p.tokens.length := by omega
  refine ⟨p.tokens.get ⟨_, hLess⟩, p, ?_, h.refl, trivial⟩
  rw [peekAt, List.getElem?_eq_getElem hLess]
  rfl

theorem returns_accept (h : Ready p) {text : Bytes} (hText : text ≠ []) : Returns (accept text) p :=
  (settles_accept h hText).weaken fun _ _ _ => trivial

theorem returns_expect (h : Ready p) {text : Bytes} (hText : text ≠ []) : Returns (expect text) p :=
  (settles_expect h hText).weaken fun _ _ _ => trivial

theorem returns_identifier (h : Ready p) : Returns identifier p := (settles_identifier h).weaken fun _ _ _ => trivial

/-- The bound on the depth of calls is enough for every method and every loop, wherever it is started. -/
theorem returns_parse (h : Ready p) (method : Method) : Returns (parse p.depth method) p := by
  refine bounded_parse p.depth method p h ?_
  have hLevel := method.level_le
  rw [remaining, depth]
  omega

theorem front_end_in_bounds :
    (∀ sql, (∃ body last, tokenize sql = .ok (body ++ [⟨.kEnd, [], last⟩]) ∧ ∀ token ∈ body, token.kind ≠ .kEnd) ∨
      ∃ status, tokenize sql = .error status ∧ status ≠ .ok) ∧
    ∀ p : Parser, Ready p →
      Returns peek p ∧ (∀ offset, Returns (peekAt offset) p) ∧
      (∀ text, text ≠ [] → Returns (accept text) p ∧ Returns (expect text) p) ∧ Returns identifier p ∧
      (∀ method, Returns (parse p.depth method) p) ∧ Returns expression p ∧
      ∀ value p', expression p = .done (value, p') → p'.status = .ok → Whole value := by
  refine ⟨tokenize_cases, fun p h => ?_⟩
  refine ⟨returns_peek h, returns_peekAt h, fun text hText => ?_, returns_identifier h, returns_parse h, ?_⟩
  · exact ⟨returns_accept h hText, returns_expect h hText⟩
  · exact ⟨returns_expression h, fun value p' => whole_of_expression⟩

/-- An unfinished sum. -/
def unfinished : Parser := { tokens := [⟨.kWord, ascii "a", 0⟩, ⟨.kOperator, ascii "+", 1⟩, ⟨.kEnd, [], 2⟩] }

theorem unfinished_in_bounds : Returns expression unfinished :=
  ((front_end_in_bounds.2 unfinished ⟨⟨unfinished.tokens.dropLast, 2, by decide⟩, by decide⟩).2.2.2.2.2).1

end Parser

end TupleStone
