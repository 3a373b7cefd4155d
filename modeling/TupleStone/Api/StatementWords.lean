import TupleStone.Api.StatementEffect

/-! # Reading a statement word by word

Where the next token is known a parser method is one step along the token list.
-/

set_option autoImplicit false

namespace TupleStone

open Attempt

namespace Parser

/-- A parser without a pending parenthesis and without an error. -/
def reading (tokens : List Token) (index : Nat) : Parser := ⟨tokens, index, 0, false, .ok⟩

section At

variable {tokens : List Token} {i : Nat} {token : Token} {text : Bytes}

theorem accept_at (h : tokens[i]? = some token) (text : Bytes) :
    accept text (.reading tokens i) = if token.text = text then .done (true, .reading tokens (i + 1)) else .done (false, .reading tokens i) := by
  simp only [accept, Parser.reading, Bool.false_eq_true, false_and, and_false, if_false, ite_self, h]

theorem exec_accept (h : tokens[i]? = some token) (hText : token.text = text) :
    exec (liftM (accept text) : Front Bool) (.reading tokens i) = .done (.ok true, .reading tokens (i + 1)) := by
  rw [exec_lift, accept_at h, if_pos hText]
  rfl

theorem exec_accept_other (h : tokens[i]? = some token) (hText : token.text ≠ text) :
    exec (liftM (accept text) : Front Bool) (.reading tokens i) = .done (.ok false, .reading tokens i) := by
  rw [exec_lift, accept_at h, if_neg hText]
  rfl

theorem exec_identifier (h : tokens[i]? = some token) (hKind : token.kind = .kWord) :
    exec (liftM identifier : Front Bytes) (.reading tokens i) = .done (.ok token.text, .reading tokens (i + 1)) := by
  have hPeek : peek (.reading tokens i) = .done (token, .reading tokens i) := by rw [peek, Parser.reading, h]
  have hIdentifier : identifier (.reading tokens i) = .done (token.text, .reading tokens (i + 1)) := by
    change (peek (.reading tokens i) >>= _) = _
    rw [hPeek]
    change (if token.kind ≠ .kWord then _ else _ : ParseM Bytes) (.reading tokens i) = _
    rw [if_neg (not_not.mpr hKind)]
    rfl
  rw [exec_lift, hIdentifier]
  rfl

end At

end Parser

namespace Statement

open TupleStone.Parser (accept expect identifier exec_accept exec_accept_other exec_identifier accept_at)

section At

variable {tokens : List Token} {i : Nat} {token : Token} {text : Bytes}

theorem exec_checkStatus : exec checkStatus (.reading tokens i) = .done (.ok (), .reading tokens i) := rfl

theorem exec_expectOrReturn (h : tokens[i]? = some token) (hText : token.text = text) (hOpen : text ≠ ascii ")") :
    exec (expectOrReturn text) (.reading tokens i) = .done (.ok (), .reading tokens (i + 1)) := by
  have hExpect : expect text (.reading tokens i) = .done (true, .reading tokens (i + 1)) := by
    change (accept text (.reading tokens i) >>= _) = _
    rw [accept_at h, if_pos hText]
    change (if text = ascii ")" then _ else _ : ParseM Bool) (.reading tokens (i + 1)) = _
    rw [if_neg hOpen]
    rfl
  have hLift : exec (liftM (expect text) : Front Bool) (.reading tokens i) = .done (.ok true, .reading tokens (i + 1)) := by
    rw [exec_lift, hExpect]
    rfl
  exact exec_bind_ok hLift

theorem exec_expectClose (h : tokens[i]? = some token) (hText : token.text = ascii ")") :
    exec (expectOrReturn (ascii ")")) (.reading tokens i) =
      .done (.ok (), { Parser.reading tokens (i + 1) with closedParen := true }) := by
  have hExpect : expect (ascii ")") (.reading tokens i) =
      .done (true, { Parser.reading tokens (i + 1) with closedParen := true }) := by
    change (accept (ascii ")") (.reading tokens i) >>= _) = _
    rw [accept_at h, if_pos hText]
    rfl
  have hLift : exec (liftM (expect (ascii ")")) : Front Bool) (.reading tokens i) =
      .done (.ok true, { Parser.reading tokens (i + 1) with closedParen := true }) := by
    rw [exec_lift, hExpect]
    rfl
  exact exec_bind_ok hLift

/-- The parenthesis that was expected is accepted once more. -/
theorem exec_acceptClosed (h : tokens[i]? = some token) (hText : token.text ≠ ascii ")") :
    exec (liftM (accept (ascii ")")) : Front Bool) { Parser.reading tokens i with closedParen := true } =
      .done (.ok true, .reading tokens i) := by
  have hAccept : accept (ascii ")") { Parser.reading tokens i with closedParen := true } = .done (true, .reading tokens i) := by
    simp only [accept, Parser.reading, if_true, h, hText, ne_eq, not_false_eq_true, and_self]
  rw [exec_lift, hAccept]
  rfl

theorem exec_tableName (h : tokens[i]? = some token) (hKind : token.kind = .kWord) :
    exec tableName (.reading tokens i) = .done (.ok (lower token.text), .reading tokens (i + 1)) := by
  rw [tableName, exec_bind_ok (exec_identifier h hKind), exec_bind_ok exec_checkStatus]
  rfl

end At

end Statement

end TupleStone
