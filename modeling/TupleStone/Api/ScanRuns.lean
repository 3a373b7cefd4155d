import TupleStone.Api.Diagnostics
import TupleStone.Api.Reading
import TupleStone.Api.Scan
import TupleStone.Lib.Lockstep

/-! # Runs beside their scan

A successful run is accompanied by the scan of its tokens, and by the run on the same tokens with a closing parenthesis
and more tokens behind them. The two runs would part only where the list of an `IN` ends the tokens: there the second one
takes the parenthesis that is not its own.
-/

set_option autoImplicit false

namespace TupleStone

open Flag Unroll

namespace Parser

abbrev endShape : Shape := (.kEnd, [])

abbrev closeShape : Shape := (.kPunctuation, ascii ")")

abbrev Down (p : Parser) : Prop := p.status = .ok

/-- The operator tokens are those of the tokenizer. -/
def Lexical (tokens : List Shape) : Prop := ∀ token ∈ tokens, token.1 = .kOperator → token.2 ∈ operatorTexts

instance (tokens : List Shape) : Decidable (Lexical tokens) :=
  inferInstanceAs (Decidable (∀ token ∈ tokens, token.1 = .kOperator → token.2 ∈ operatorTexts))

/-- The two runs are at the same token, and the tokens of the first one do not end with a list. -/
structure At (start : Parser × Parser) (s : Scan) (p q : Parser) : Prop where
  scanned : p.scanned = some s
  beside : ∃ tokens more, rest p = tokens ++ [endShape] ∧ rest q = tokens ++ closeShape :: more
  parameters : q.parameterCount = p.parameterCount
  lexical : Lexical (rest p)
  free : Scan.endsWithList (p.tokens.dropLast.map shape) = false
  moved : ∃ tokens parameters closed, p = start.1.after tokens parameters closed ∧ q = start.2.after tokens parameters closed

theorem At.flags {start : Parser × Parser} {s : Scan} {p q : Parser} (h : At start s p q) : q.closedParen = p.closedParen := by
  obtain ⟨tokens, parameters, closed, rfl, rfl⟩ := h.moved
  rfl

/-- An operand is to be read. -/
def Fresh (start : Parser × Parser) (lists : List Bool) (p q : Parser) : Prop :=
  ∃ s, At start s p q ∧ ∀ token tail, rest p = token :: tail → s.step token.2 = some (Scan.readOperand lists token.2)

/-- Behind an operand that does not end with a list. -/
def Tight (start : Parser × Parser) (lists : List Bool) : Parser → Parser → Prop := At start ⟨.operator, lists, false⟩

/-- Behind an operand; the parenthesis that a list takes with it was not there. -/
def Loose (start : Parser × Parser) (lists : List Bool) (p q : Parser) : Prop :=
  Tight start lists p q ∨
    (At start ⟨.operator, lists, true⟩ p q ∧ ∃ token tail, rest p = token :: tail ∧ token.2 ≠ ascii ")" ∧ tail ≠ [])

def Clear (R : Parser → Parser → Prop) (p q : Parser) : Prop := R p q ∧ p.closedParen = false ∧ q.closedParen = false

section Probes

variable {α : Type} {R : Parser → Parser → Prop} {start : Parser × Parser} {s s' : Scan} {lists : List Bool} {p q : Parser}

/-- The next token is the same, or the first run has none left. -/
def Together (p q : Parser) : Prop :=
  (∃ token tail tail', rest p = token :: tail ∧ rest q = token :: tail') ∨
    rest p = [endShape] ∧ ∃ more, rest q = closeShape :: more

theorem At.together (h : At start s p q) : Together p q := by
  obtain ⟨tokens, more, hLeft, hRight⟩ := h.beside
  cases tokens with
  | nil => exact .inr ⟨hLeft, more, hRight⟩
  | cons token tokens => exact .inl ⟨token, _, _, hLeft, hRight⟩

theorem At.moved_after (h : At start s p q) (tokens parameters : Nat) (closed : Bool) :
    ∃ tokens' parameters' closed', p.after tokens parameters closed = start.1.after tokens' parameters' closed' ∧
      q.after tokens parameters closed = start.2.after tokens' parameters' closed' := by
  obtain ⟨tokens', parameters', closed', hLeft, hRight⟩ := h.moved
  refine ⟨tokens' + tokens, parameters' + parameters, closed, ?_, ?_⟩
  · rw [hLeft, after_after]
  · rw [hRight, after_after]

theorem At.next (h : At start s p q) {token : Shape} {tail tail' : List Shape} (hLeft : rest p = token :: tail)
    (hRight : rest q = token :: tail') (hStep : s.step token.2 = some s') (parameters : Nat) (closed : Bool) :
    At start s' (p.after 1 parameters closed) (q.after 1 parameters closed) := by
  constructor
  case scanned => rw [scanned_next hLeft, h.scanned, Option.bind_some, hStep]
  case beside =>
    obtain ⟨tokens, more, hTokens, hTokens'⟩ := h.beside
    cases tokens with
    | nil =>
      cases hLeft.symm.trans hTokens
      cases hRight.symm.trans hTokens'
    | cons first tokens =>
      refine ⟨tokens, more, ?_, ?_⟩
      · rw [rest_after, hTokens]
        rfl
      · rw [rest_after, hTokens']
        rfl
  case parameters => exact congrArg (· + parameters) h.parameters
  case lexical =>
    intro other hOther
    rw [rest_after] at hOther
    exact h.lexical other (List.mem_of_mem_drop hOther)
  case free => exact h.free
  case moved => exact h.moved_after 1 parameters closed

theorem At.refresh (h : At start s p q) (closed : Bool) : At start s (p.after 0 0 closed) (q.after 0 0 closed) := by
  refine ⟨h.scanned, ?_, h.parameters, ?_, h.free, h.moved_after 0 0 closed⟩
  · rw [rest_after, rest_after]
    exact h.beside
  · rw [rest_after]
    exact h.lexical

theorem lockstep_accept {R' : Bool → Parser → Parser → Prop} {text : Bytes} (hText : text ≠ []) (hClose : text ≠ ascii ")")
    (hTogether : ∀ p q, R p q → Together p q)
    (hHit : ∀ p q, R p q → ∀ kind tail tail', rest p = (kind, text) :: tail → rest q = (kind, text) :: tail' →
      R' true (p.after 1 0 false) (q.after 1 0 false))
    (hMiss : ∀ p q, R p q → (∀ token tail, rest p = token :: tail → token.2 ≠ text) →
      R' false (p.after 0 0 false) (q.after 0 0 false)) : Lockstep Down R (accept text) R' := by
  intro p p' accepted h hDown
  refine ⟨(accept_status h).symm.trans hDown, fun q hR => ?_⟩
  obtain ⟨⟨kind, other⟩, tail, tail', hLeft, hRight⟩ | ⟨hLeft, tail', hRight⟩ := hTogether p q hR
  · by_cases hSame : other = text
    · subst hSame
      cases (accept_hit hLeft hClose).symm.trans h
      exact ⟨_, accept_hit hRight hClose, hHit p q hR kind tail tail' hLeft hRight⟩
    · cases (accept_miss hLeft hClose hSame).symm.trans h
      refine ⟨_, accept_miss hRight hClose hSame, hMiss p q hR fun token more hToken => ?_⟩
      cases hToken.symm.trans hLeft
      exact hSame
  · cases (accept_miss hLeft hClose hText.symm).symm.trans h
    refine ⟨_, accept_miss hRight hClose hClose.symm, hMiss p q hR fun token more hToken => ?_⟩
    cases hToken.symm.trans hLeft
    exact hText.symm

theorem lockstep_expect {R' : Parser → Parser → Prop} {text : Bytes} (hText : text ≠ []) (hClose : text ≠ ascii ")")
    (hTogether : ∀ p q, R p q → Together p q)
    (hHit : ∀ p q, R p q → ∀ kind tail tail', rest p = (kind, text) :: tail → rest q = (kind, text) :: tail' →
      R' (p.after 1 0 false) (q.after 1 0 false)) :
    Lockstep Down R (expect text) (fun accepted p q => accepted = true ∧ R' p q) := by
  have hAccept : Lockstep Down R (accept text) (fun accepted p q => accepted = true → R' p q) :=
    lockstep_accept hText hClose hTogether (fun p q hR kind tail tail' hLeft hRight _ => hHit p q hR kind tail tail' hLeft hRight)
      fun _ _ _ _ => nofun
  refine hAccept.bind fun accepted => lockstep_ite (fun hAccepted => ?_) fun _ => ?_
  · rw [if_neg hClose]
    exact lockstep_pure fun p q hR => ⟨rfl, hR hAccepted⟩
  · refine lockstep_raised ?_
    rintro p p' a ⟨⟩
    exact Status.noConfusion

/-- A token decides how to go on. -/
theorem lockstep_choice {A B : Parser → Parser → Prop} {R' : α → Parser → Parser → Prop} {m n : ParseM α} {text : Bytes}
    (hText : text ≠ []) (hClose : text ≠ ascii ")") (hTogether : ∀ p q, R p q → Together p q)
    (hHit : ∀ p q, R p q → ∀ kind tail tail', rest p = (kind, text) :: tail → rest q = (kind, text) :: tail' →
      A (p.after 1 0 false) (q.after 1 0 false))
    (hMiss : ∀ p q, R p q → (∀ token tail, rest p = token :: tail → token.2 ≠ text) → B (p.after 0 0 false) (q.after 0 0 false))
    (hm : Lockstep Down A m R') (hn : Lockstep Down B n R') : Lockstep Down R (do if ← accept text then m else n) R' := by
  have hAccept : Lockstep Down R (accept text) (fun accepted p q => accepted = true ∧ A p q ∨ accepted = false ∧ B p q) := by
    refine lockstep_accept hText hClose hTogether ?_ ?_
    · intro p q hR kind tail tail' hLeft hRight
      exact .inl ⟨rfl, hHit p q hR kind tail tail' hLeft hRight⟩
    · intro p q hR hNot
      exact .inr ⟨rfl, hMiss p q hR hNot⟩
  refine hAccept.bind fun accepted => lockstep_ite (fun hAccepted => ?_) fun hAccepted => ?_
  · refine hm.weaken (fun p q hR => ?_) fun _ _ _ => id
    obtain ⟨-, hA⟩ | ⟨hFalse, -⟩ := hR
    · exact hA
    · exact absurd (hAccepted.symm.trans hFalse) Bool.true_eq_false_eq_False
  · refine hn.weaken (fun p q hR => ?_) fun _ _ _ => id
    obtain ⟨hTrue, -⟩ | ⟨-, hB⟩ := hR
    · exact absurd hTrue hAccepted
    · exact hB

theorem lockstep_peek {R' : α → Parser → Parser → Prop} (K : Shape → ParseM α) (hTogether : ∀ p q, R p q → Together p q)
    (hSame : ∀ token, Lockstep Down (fun p q => R p q ∧ ∃ tail tail', rest p = token :: tail ∧ rest q = token :: tail')
      (K token) R')
    (hEnd : ∀ p q p' a, R p q → K endShape p = .done (a, p') → p'.status = .ok →
      ∃ q', K closeShape q = .done (a, q') ∧ R' a p' q') :
    Lockstep Down R (peek >>= fun token => K (shape token)) R' := by
  intro p p' a h hDown
  obtain ⟨token, mid, hPeek, hRest⟩ := bind_done h
  have hMid : mid = p := by
    rw [peek] at hPeek
    split at hPeek
    · cases hPeek
      rfl
    · cases hPeek
  subst hMid
  refine ⟨((hSame (shape token)) mid p' a hRest hDown).1, fun q hR => ?_⟩
  obtain ⟨⟨kind, text⟩, tail, tail', hLeft, hRight⟩ | ⟨hLeft, tail', hRight⟩ := hTogether mid q hR
  · obtain ⟨position, hPeekLeft⟩ := peek_rest hLeft
    obtain ⟨position', hPeekRight⟩ := peek_rest hRight
    cases hPeekLeft.symm.trans hPeek
    obtain ⟨q', hRun, hPost⟩ := ((hSame (kind, text)) mid p' a hRest hDown).2 q ⟨hR, tail, tail', hLeft, hRight⟩
    exact ⟨q', (bind_of_done hPeekRight).trans hRun, hPost⟩
  · obtain ⟨position, hPeekLeft⟩ := peek_rest hLeft
    obtain ⟨position', hPeekRight⟩ := peek_rest hRight
    cases hPeekLeft.symm.trans hPeek
    obtain ⟨q', hRun, hPost⟩ := hEnd mid q p' a hR hRest hDown
    exact ⟨q', (bind_of_done hPeekRight).trans hRun, hPost⟩

theorem lockstep_advance {R' : Parser → Parser → Prop}
    (h : ∀ p q, R p q → R' (p.after 1 0 p.closedParen) (q.after 1 0 q.closedParen)) :
    Lockstep Down R advance (fun _ => R') := by
  rintro p p' a ⟨⟩ hDown
  exact ⟨hDown, fun q hR => ⟨_, rfl, h p q hR⟩⟩

end Probes

section States

variable {start : Parser × Parser} {s : Scan} {lists : List Bool} {p q : Parser}

theorem Fresh.together (h : Fresh start lists p q) : Together p q := by
  obtain ⟨s, hAt, -⟩ := h
  exact hAt.together

theorem Loose.together (h : Loose start lists p q) : Together p q := by
  obtain hTight | ⟨hAt, -⟩ := h
  · exact hTight.together
  · exact hAt.together

theorem Fresh.refresh (h : Fresh start lists p q) (closed : Bool) : Fresh start lists (p.after 0 0 closed) (q.after 0 0 closed) := by
  obtain ⟨s, hAt, hStep⟩ := h
  refine ⟨s, hAt.refresh closed, fun token tail hRest => hStep token tail ?_⟩
  rwa [rest_after] at hRest

theorem Tight.refresh (h : Tight start lists p q) (closed : Bool) : Tight start lists (p.after 0 0 closed) (q.after 0 0 closed) :=
  At.refresh h closed

theorem Loose.refresh (h : Loose start lists p q) (closed : Bool) : Loose start lists (p.after 0 0 closed) (q.after 0 0 closed) := by
  obtain hTight | ⟨hAt, hNext⟩ := h
  · exact .inl (hTight.refresh closed)
  · refine .inr ⟨hAt.refresh closed, ?_⟩
    rw [rest_after]
    exact hNext

theorem Tight.clear (h : Tight start lists p q) (hLeft : p.closedParen = false) : Clear (Loose start lists) p q :=
  ⟨.inl h, hLeft, h.flags.trans hLeft⟩

/-- Where an operand is expected, the scan reads one. -/
theorem At.fresh (h : At start ⟨.operand, lists, false⟩ p q) : Fresh start lists p q := ⟨_, h, fun _ _ _ => rfl⟩

/-- What was opened does not end at once. -/
theorem At.fresh_opening (h : At start ⟨.opening, lists, false⟩ p q)
    (hNext : ∀ token tail, rest p = token :: tail → token.2 ≠ ascii ")") : Fresh start lists p q := by
  refine ⟨_, h, fun token tail hRest => ?_⟩
  exact if_neg (hNext token tail hRest)

theorem Fresh.next (h : Fresh start lists p q) {token : Shape} {tail tail' : List Shape} (hLeft : rest p = token :: tail)
    (hRight : rest q = token :: tail') (parameters : Nat) (closed : Bool) :
    At start (Scan.readOperand lists token.2) (p.after 1 parameters closed) (q.after 1 parameters closed) := by
  obtain ⟨s, hAt, hStep⟩ := h
  exact hAt.next hLeft hRight (hStep token tail hLeft) parameters closed

/-- A token behind an operand that closes nothing is read alike, whether or not a list was just closed. -/
theorem Loose.next (h : Loose start lists p q) {token : Shape} {tail tail' : List Shape} (hLeft : rest p = token :: tail)
    (hRight : rest q = token :: tail') {s : Scan}
    (hStep : ∀ closed, Scan.readOperator lists closed token.2 = some s) (parameters : Nat) (closed : Bool) :
    At start s (p.after 1 parameters closed) (q.after 1 parameters closed) := by
  obtain hTight | ⟨hAt, -⟩ := h
  · exact At.next hTight hLeft hRight (hStep false) parameters closed
  · exact hAt.next hLeft hRight (hStep true) parameters closed

theorem readOperator_operator {text : Bytes} (h : text ∈ operatorTexts) (lists : List Bool) (closed : Bool) :
    Scan.readOperator lists closed text = some ⟨.operand, lists, false⟩ := by
  have hListed : ∀ text ∈ operatorTexts, text ≠ ascii ")" ∧ text ≠ ascii "," ∧ text ≠ ascii "." ∧ text ≠ ascii "(" ∧
      text ≠ ascii "is" ∧ text ≠ ascii "in" := by decide
  obtain ⟨h1, h2, h3, h4, h5, h6⟩ := hListed text h
  simp only [Scan.readOperator, h1, h2, h3, h4, h5, h6, if_false]

end States

/-! ## Closing parentheses -/

section Closing

variable {α : Type} {start : Parser × Parser} {lists : List Bool} {list : Bool}

theorem readOperator_close (list : Bool) (lists : List Bool) :
    Scan.readOperator (list :: lists) false (ascii ")") = some ⟨.operator, lists, list⟩ := rfl

/-- An expected parenthesis is the one of the innermost bracket. -/
theorem lockstep_expect_close : Lockstep Down (Clear (Loose start (list :: lists))) (expect (ascii ")"))
    (fun accepted p q => accepted = true ∧ At start ⟨.operator, lists, list⟩ p q ∧ p.closedParen = true) := by
  intro p p' accepted h hDown
  have hReports : Reports True (expect (ascii ")")) (fun accepted => accepted = true) := reports_expect (ascii ")")
  refine ⟨(hReports p p' accepted h hDown).1, fun q hR => ?_⟩
  obtain ⟨hLoose, hFlag, -⟩ := hR
  -- without the parenthesis the first run fails
  have hMissing (token : Shape) (tail : List Shape) (hRest : rest p = token :: tail) (hNot : token.2 ≠ ascii ")") : False := by
    obtain ⟨kind, text⟩ := token
    have hExpect : expect (ascii ")") p = .done (false, { p with status := .syntaxError (ascii "expected '" ++ ascii ")" ++ ascii "'") }) :=
      (bind_of_done (accept_other hRest hNot hFlag)).trans rfl
    cases hExpect.symm.trans h
    cases hDown
  obtain hTight | ⟨-, token, tail, hRest, hNot, -⟩ := hLoose
  · obtain ⟨⟨kind, text⟩, tail, tail', hLeft, hRight⟩ | ⟨hLeft, -⟩ := hTight.together
    · by_cases hClose : text = ascii ")"
      · subst hClose
        cases (expect_close hLeft).symm.trans h
        exact ⟨_, expect_close hRight, rfl, At.next hTight hLeft hRight (readOperator_close list lists) 0 true, rfl⟩
      · exact absurd (hMissing _ _ hLeft hClose) id
    · exact absurd (hMissing _ _ hLeft (by decide)) id
  · exact absurd (hMissing _ _ hRest hNot) id

/-- Behind the items of a list one more parenthesis is taken, if there is one. -/
theorem lockstep_closed_list : Lockstep Down (fun p q => At start ⟨.operator, lists, true⟩ p q ∧ p.closedParen = true)
    (accept (ascii ")")) (fun accepted p q => accepted = true ∧ Loose start lists p q) := by
  intro p p' accepted h hDown
  refine ⟨(accept_status h).symm.trans hDown, fun q hR => ?_⟩
  obtain ⟨hAt, hFlag⟩ := hR
  have hFlag' : q.closedParen = true := hAt.flags.trans hFlag
  have hVirtual {r : Parser} {kind : TokenKind} {text : Bytes} {tail : List Shape} (hRest : rest r = (kind, text) :: tail)
      (hNot : text ≠ ascii ")") (hOpen : r.closedParen = true) :
      accept (ascii ")") r = .done (true, r.after 0 0 false) := by
    obtain ⟨position, hToken⟩ := token_of_rest hRest
    simp only [accept, if_true, hToken, hOpen, ne_eq, hNot, not_false_eq_true, and_self, if_true]
    rfl
  obtain ⟨⟨kind, text⟩, tail, tail', hLeft, hRight⟩ | ⟨hLeft, -⟩ := hAt.together
  · by_cases hClose : text = ascii ")"
    · subst hClose
      cases (accept_close hLeft).symm.trans h
      refine ⟨_, accept_close hRight, rfl, .inl ?_⟩
      rw [hFlag, hFlag']
      exact hAt.next hLeft hRight rfl 0 true
    · cases (hVirtual hLeft hClose hFlag).symm.trans h
      refine ⟨_, hVirtual hRight hClose hFlag', rfl, .inr ⟨hAt.refresh false, (kind, text), tail, ?_, hClose, ?_⟩⟩
      · rw [rest_after]
        exact hLeft
      · rintro rfl
        obtain ⟨tokens, more, hTokens, hTokens'⟩ := hAt.beside
        cases tokens with
        | nil =>
          cases hLeft.symm.trans hTokens
          cases hRight.symm.trans hTokens'
        | cons first tokens =>
          have hLength := congrArg List.length (hLeft.symm.trans hTokens)
          simp at hLength
  · -- the tokens would end with the list
    have hEnds : Scan.endsWithList (p.tokens.dropLast.map shape) = true := by
      rw [Scan.endsWithList, ← scanned_of_end hLeft, hAt.scanned]
      rfl
    exact absurd (hEnds.symm.trans hAt.free) Bool.true_eq_false_eq_False

/-- What was opened ends at once, or the rest reads what is in it. -/
theorem lockstep_opened {R' : α → Parser → Parser → Prop} {a : α} {k : ParseM α}
    (hHit : ∀ p q, Tight start lists p q → R' a p q) (hElse : Lockstep Down (Fresh start (list :: lists)) k R')
    (hEnd : ∀ p p' a, rest p = [endShape] → k p = .done (a, p') → p'.status ≠ .ok) :
    Lockstep Down (fun p q => At start ⟨.opening, list :: lists, false⟩ p q ∧ p.closedParen = false)
      (do if ← accept (ascii ")") then pure a else k) R' := by
  intro p p' b h hDown
  obtain ⟨accepted, mid, hAccept, hRest⟩ := bind_done h
  have hMid : mid.status = .ok := by
    cases accepted with
    | true =>
      cases hRest
      exact hDown
    | false => exact (hElse mid p' b hRest hDown).1
  refine ⟨(accept_status hAccept).symm.trans hMid, fun q hR => ?_⟩
  obtain ⟨hAt, hFlag⟩ := hR
  have hFlag' : q.closedParen = false := hAt.flags.trans hFlag
  obtain ⟨⟨kind, text⟩, tail, tail', hLeft, hRight⟩ | ⟨hLeft, -⟩ := hAt.together
  · by_cases hClose : text = ascii ")"
    · subst hClose
      cases (accept_close hLeft).symm.trans hAccept
      cases hRest
      refine ⟨_, (bind_of_done (accept_close hRight)).trans rfl, hHit _ _ ?_⟩
      rw [hAt.flags]
      exact hAt.next hLeft hRight rfl 0 _
    · cases (accept_other hLeft hClose hFlag).symm.trans hAccept
      have hFresh := hAt.fresh_opening fun token more hToken => by
        cases hToken.symm.trans hLeft
        exact hClose
      obtain ⟨q', hRun, hPost⟩ := (hElse _ p' b hRest hDown).2 q hFresh
      exact ⟨q', (bind_of_done (accept_other hRight hClose hFlag')).trans hRun, hPost⟩
  · cases (accept_other hLeft (by decide) hFlag).symm.trans hAccept
    exact absurd hDown (hEnd _ p' b hLeft hRest)

/-- Behind an item, what was opened ends, or the rest reads the next one. -/
theorem lockstep_item {R' : α → Parser → Parser → Prop} {a : α} {k : ParseM α}
    (hHit : ∀ p q, Tight start lists p q → R' a p q) (hElse : Lockstep Down (Clear (Loose start (false :: lists))) k R')
    (hEnd : ∀ p p' a, rest p = [endShape] → k p = .done (a, p') → p'.status ≠ .ok) :
    Lockstep Down (Clear (Loose start (false :: lists))) (do if ← accept (ascii ")") then pure a else k) R' := by
  intro p p' b h hDown
  obtain ⟨accepted, mid, hAccept, hRest⟩ := bind_done h
  have hMid : mid.status = .ok := by
    cases accepted with
    | true =>
      cases hRest
      exact hDown
    | false => exact (hElse mid p' b hRest hDown).1
  refine ⟨(accept_status hAccept).symm.trans hMid, fun q hR => ?_⟩
  have hClear := hR
  obtain ⟨hLoose, hFlag, hFlag'⟩ := hR
  obtain ⟨⟨kind, text⟩, tail, tail', hLeft, hRight⟩ | ⟨hLeft, -⟩ := hLoose.together
  · by_cases hClose : text = ascii ")"
    · subst hClose
      cases (accept_close hLeft).symm.trans hAccept
      cases hRest
      refine ⟨_, (bind_of_done (accept_close hRight)).trans rfl, hHit _ _ ?_⟩
      rw [hFlag, hFlag']
      obtain hTight | ⟨-, token, others, hToken, hNot, -⟩ := hLoose
      · exact At.next hTight hLeft hRight (readOperator_close false lists) 0 false
      · cases hToken.symm.trans hLeft
        exact absurd rfl hNot
    · cases (accept_other hLeft hClose hFlag).symm.trans hAccept
      obtain ⟨q', hRun, hPost⟩ := (hElse _ p' b hRest hDown).2 q hClear
      exact ⟨q', (bind_of_done (accept_other hRight hClose hFlag')).trans hRun, hPost⟩
  · cases (accept_other hLeft (by decide) hFlag).symm.trans hAccept
    exact absurd hDown (hEnd _ p' b hLeft hRest)

end Closing

/-! ## The methods -/

/-- No prefix operator is next. -/
def Plain (p : Parser) : Prop := ∀ token tail, rest p = token :: tail → token.2 ∉ unaryOperators

def Method.Before (start : Parser × Parser) (lists : List Bool) : Method → Parser → Parser → Prop
  | .orLoop left | .andLoop left => fun p q => left ≠ none ∧ Loose start lists p q
  | .addLoop left | .mulLoop left => fun p q => left ≠ none ∧ Tight start lists p q
  | .inLoop _ => fun p q =>
    (At start ⟨.opening, true :: lists, false⟩ p q ∧ p.closedParen = false) ∨ (At start ⟨.operator, lists, true⟩ p q ∧ p.closedParen = true)
  | .argumentLoop _ _ => Fresh start (false :: lists)
  | .parsePrimary => fun p q => Fresh start lists p q ∧ Plain p
  | _ => Fresh start lists

def Method.Behind (start : Parser × Parser) (lists : List Bool) : Method → ExprPtr → Parser → Parser → Prop
  | .parseOr | .orLoop _ | .parseAnd | .andLoop _ => fun r p q => r ≠ none ∧ Clear (Loose start lists) p q
  | .parseCompare | .inLoop _ => fun r p q => r ≠ none ∧ Loose start lists p q
  | _ => fun r p q => r ≠ none ∧ Tight start lists p q

/-- Code that cannot succeed where no token is left. -/
def Raises {α : Type} (m : ParseM α) : Prop := ∀ p p' a, rest p = [endShape] → m p = .done (a, p') → ¬ Down p'

theorem Raises.bind {α β : Type} {m : ParseM α} {k : α → ParseM β} {R : α → Parser → Parser → Prop}
    {R' : β → Parser → Parser → Prop} (h : Raises m) (hRest : ∀ a, Lockstep Down (R a) (k a) R') : Raises (m >>= k) := by
  intro p p' b hEnd hRun hDown
  obtain ⟨a, mid, hFirst, hThen⟩ := bind_done hRun
  exact h p mid a hEnd hFirst (hRest a mid p' b hThen hDown).1

/-- Methods that begin with an operand. -/
def Method.Starts : Method → Prop
  | .orLoop _ | .andLoop _ | .inLoop _ | .addLoop _ | .mulLoop _ => False
  | _ => True

/-- The methods called keep to their scan, and fail where no token is left. -/
structure Scanning (call : Method → ParseM ExprPtr) : Prop where
  lockstep : ∀ start lists method, Lockstep Down (method.Before start lists) (call method) (method.Behind start lists)
  raises : ∀ method : Method, method.Starts → Raises (call method)

section Bodies

variable {call : Method → ParseM ExprPtr} {start : Parser × Parser} {lists : List Bool}

theorem lockstep_wordLoop (left : ExprPtr) {word : Bytes} (hWord : word = ascii "or" ∨ word = ascii "and")
    {operand : Method} {loop : ExprPtr → Method}
    (hOperand : Lockstep Down (Fresh start lists) (call operand) (fun r p q => r ≠ none ∧ Loose start lists p q))
    (hLoop : ∀ left, Lockstep Down (fun p q => left ≠ none ∧ Loose start lists p q) (call (loop left))
      (fun r p q => r ≠ none ∧ Clear (Loose start lists) p q)) :
    Lockstep Down (fun p q => left ≠ none ∧ Loose start lists p q) (do
      if left.isNone then pure left
      else if ← accept word then
        let right ← call operand
        call (loop (some (.binary word left right)))
      else pure left) (fun r p q => r ≠ none ∧ Clear (Loose start lists) p q) := by
  have hText : word ≠ [] ∧ word ≠ ascii ")" ∧ ∀ closed, Scan.readOperator lists closed word = some ⟨.operand, lists, false⟩ := by
    obtain rfl | rfl := hWord
    · exact ⟨by decide, by decide, fun _ => rfl⟩
    · exact ⟨by decide, by decide, fun _ => rfl⟩
  cases left with
  | none => exact lockstep_pure fun p q hR => absurd rfl hR.1
  | some tree =>
    rw [Option.isNone_some, if_neg Bool.false_ne_true]
    refine lockstep_choice (B := Clear (Loose start lists)) hText.1 hText.2.1 (fun p q hR => hR.2.together)
      (fun p q hR kind tail tail' hLeft hRight => ?_) (fun p q hR _ => ⟨hR.2.refresh false, rfl, rfl⟩) (hOperand.bind fun right => ?_) ?_
    · exact (hR.2.next hLeft hRight hText.2.2 0 false).fresh
    · exact (hLoop _).weaken (fun p q hR => ⟨Option.some_ne_none _, hR.2⟩) fun _ _ _ => id
    · exact lockstep_pure fun p q hR => ⟨Option.some_ne_none _, hR⟩

theorem lockstep_tokenLoop (left : ExprPtr) (isText : Bytes → Prop) [DecidablePred isText]
    (hOperators : ∀ text, isText text → text ∈ operatorTexts) {operand : Method} {loop : ExprPtr → Method}
    (hOperand : Lockstep Down (Fresh start lists) (call operand) (fun r p q => r ≠ none ∧ Tight start lists p q))
    (hLoop : ∀ left, Lockstep Down (fun p q => left ≠ none ∧ Tight start lists p q) (call (loop left))
      (fun r p q => r ≠ none ∧ Tight start lists p q)) :
    Lockstep Down (fun p q => left ≠ none ∧ Tight start lists p q) (do
      let token ← peek
      if isText token.text then
        advance
        let right ← call operand
        call (loop (some (.binary token.text left right)))
      else pure left) (fun r p q => r ≠ none ∧ Tight start lists p q) := by
  have hNot (text : Bytes) (hText : text ∉ operatorTexts) : ¬ isText text := fun h => hText (hOperators text h)
  refine lockstep_peek (fun token => if isText token.2 then do
      advance
      let right ← call operand
      call (loop (some (.binary token.2 left right)))
    else pure left) (fun p q hR => At.together hR.2) (fun token => ?_) fun p q p' a hR hRun hDown => ?_
  · refine lockstep_ite (fun hText => ?_) fun _ => lockstep_pure fun p q hR => hR.1
    have hAdvance : Lockstep Down (fun p q => (left ≠ none ∧ Tight start lists p q) ∧
        ∃ tail tail', rest p = token :: tail ∧ rest q = token :: tail') advance (fun _ => Fresh start lists) := by
      refine lockstep_advance fun p q hR => ?_
      obtain ⟨⟨-, hTight⟩, tail, tail', hLeft, hRight⟩ := hR
      have hFlags : q.closedParen = p.closedParen := At.flags hTight
      rw [hFlags]
      exact (At.next hTight hLeft hRight (readOperator_operator (hOperators _ hText) lists false) 0 _).fresh
    refine hAdvance.bind fun _ => hOperand.bind fun right => ?_
    exact (hLoop _).weaken (fun p q hR => ⟨Option.some_ne_none _, hR.2⟩) fun _ _ _ => id
  · rw [if_neg (hNot _ (by decide))] at hRun
    cases hRun
    refine ⟨q, ?_, hR⟩
    rw [if_neg (hNot _ (by decide))]
    rfl

theorem lockstep_chain {first : Method} {loop : ExprPtr → Method} {Mid R' : ExprPtr → Parser → Parser → Prop}
    {R : Parser → Parser → Prop} (hFirst : Lockstep Down R (call first) Mid)
    (hLoop : ∀ left, Lockstep Down (Mid left) (call (loop left)) R') :
    Lockstep Down R (call first >>= fun left => call (loop left)) R' := hFirst.bind hLoop

theorem lockstep_likeRest (hAdd : Lockstep Down (Fresh start lists) (call .parseAdd) (fun r p q => r ≠ none ∧ Tight start lists p q))
    (left : ExprPtr) :
    Lockstep Down (fun p q => left ≠ none ∧ Tight start lists p q) (do
      if left.isNone then pure left
      else if ← accept (ascii "like") then
        let right ← call .parseAdd
        pure (some (.binary (ascii "like") left right))
      else pure left) (fun r p q => r ≠ none ∧ Tight start lists p q) := by
  cases left with
  | none => exact lockstep_pure fun p q hR => absurd rfl hR.1
  | some tree =>
    rw [Option.isNone_some, if_neg Bool.false_ne_true]
    refine lockstep_choice (by decide) (by decide) (fun p q hR => At.together hR.2) ?_
      (fun p q hR _ => hR.2.refresh false) (hAdd.bind fun right => ?_) ?_
    · intro p q hR kind tail tail' hLeft hRight
      exact (At.next hR.2 hLeft hRight rfl 0 false).fresh
    · exact lockstep_pure fun p q hR => ⟨Option.some_ne_none _, hR.2⟩
    · exact lockstep_pure fun p q hR => ⟨Option.some_ne_none _, hR⟩

theorem lockstep_parseIs (left : ExprPtr) : Lockstep Down (At start ⟨.afterIs, lists, false⟩) (parseIs left)
    (fun r p q => r ≠ none ∧ Loose start lists p q) := by
  have hNot : Lockstep Down (At start ⟨.afterIs, lists, false⟩) (accept (ascii "not")) (fun _ => At start ⟨.afterIs, lists, false⟩) := by
    refine lockstep_accept (by decide) (by decide) (fun p q hR => hR.together) ?_ ?_
    · intro p q hR kind tail tail' hLeft hRight
      exact hR.next hLeft hRight rfl 0 false
    · intro p q hR _
      exact hR.refresh false
  have hNull : Lockstep Down (At start ⟨.afterIs, lists, false⟩) (expect (ascii "null"))
      (fun accepted p q => accepted = true ∧ Loose start lists p q) := by
    refine lockstep_expect (by decide) (by decide) (fun p q hR => hR.together) ?_
    intro p q hR kind tail tail' hLeft hRight
    exact .inl (hR.next hLeft hRight rfl 0 false)
  refine hNot.bind fun negated => hNull.bind fun accepted => lockstep_ite (fun _ => ?_) fun hMissing => ?_
  · exact lockstep_pure fun p q hR => ⟨Option.some_ne_none _, hR.2⟩
  · exact lockstep_pure fun p q hR => absurd hR.1 hMissing

/-- An operator of a comparison is followed by what its text asks for. -/
def compareRest (call : Method → ParseM ExprPtr) (left : ExprPtr) (token : Shape) : ParseM ExprPtr := do
  if token.1 = .kOperator ∨ token.2 = ascii "is" ∨ token.2 = ascii "in" then
    advance
    if token.2 = ascii "is" then parseIs left
    else if token.2 = ascii "in" then
      if ← expect (ascii "(") then call (.inLoop [left]) else pure none
    else
      let right ← call .parseAdd
      pure (some (.binary token.2 left right))
  else pure left

theorem lockstep_compareRest (hAdd : Lockstep Down (Fresh start lists) (call .parseAdd) (fun r p q => r ≠ none ∧ Tight start lists p q))
    (hIn : ∀ args, Lockstep Down (fun p q => At start ⟨.opening, true :: lists, false⟩ p q ∧ p.closedParen = false)
      (call (.inLoop args)) (fun r p q => r ≠ none ∧ Loose start lists p q)) (left : ExprPtr) :
    Lockstep Down (fun p q => left ≠ none ∧ Tight start lists p q) (peek >>= fun token => compareRest call left (shape token))
      (fun r p q => r ≠ none ∧ Loose start lists p q) := by
  refine lockstep_peek (compareRest call left) (fun p q hR => At.together hR.2) (fun token => ?_) fun p q p' a hR hRun hDown => ?_
  · refine lockstep_ite (fun hToken => ?_) fun _ => lockstep_pure fun p q hR => ⟨hR.1.1, .inl hR.1.2⟩
    -- the token behind the operand is consumed
    have hAdvance (s : Scan) (hStep : ∀ p : Parser, ∀ tail, rest p = token :: tail → Lexical (rest p) →
        Scan.readOperator lists false token.2 = some s) :
        Lockstep Down (fun p q => (left ≠ none ∧ Tight start lists p q) ∧ ∃ tail tail', rest p = token :: tail ∧ rest q = token :: tail')
          advance (fun _ => At start s) := by
      refine lockstep_advance fun p q hR => ?_
      obtain ⟨⟨-, hTight⟩, tail, tail', hLeft, hRight⟩ := hR
      have hFlags : q.closedParen = p.closedParen := At.flags hTight
      rw [hFlags]
      exact At.next hTight hLeft hRight (hStep p tail hLeft (At.lexical hTight)) 0 _
    by_cases hIs : token.2 = ascii "is"
    · simp only [hIs, if_true]
      exact (hAdvance ⟨.afterIs, lists, false⟩ fun _ _ _ _ => by rw [hIs]; rfl).bind fun _ => lockstep_parseIs left
    simp only [hIs, if_false]
    by_cases hWord : token.2 = ascii "in"
    · simp only [hWord, if_true]
      have hOpen : Lockstep Down (At start ⟨.afterIn, lists, false⟩) (expect (ascii "("))
          (fun accepted p q => accepted = true ∧ At start ⟨.opening, true :: lists, false⟩ p q ∧ p.closedParen = false) := by
        refine lockstep_expect (by decide) (by decide) (fun p q hR => hR.together) ?_
        intro p q hR kind tail tail' hLeft hRight
        exact ⟨hR.next hLeft hRight rfl 0 false, rfl⟩
      refine (hAdvance ⟨.afterIn, lists, false⟩ fun _ _ _ _ => by rw [hWord]; rfl).bind fun _ => hOpen.bind fun accepted => ?_
      refine lockstep_ite (fun _ => ?_) fun hMissing => lockstep_pure fun p q hR => absurd hR.1 hMissing
      exact (hIn [left]).weaken (fun p q hR => hR.2) fun _ _ _ => id
    simp only [hWord, if_false]
    have hKind : token.1 = .kOperator := (hToken.resolve_right (not_or.mpr ⟨hIs, hWord⟩))
    refine (hAdvance ⟨.operand, lists, false⟩ fun p tail hRest hLexical => ?_).bind fun _ => ?_
    · exact readOperator_operator (hLexical token (by rw [hRest]; exact List.mem_cons_self) hKind) lists false
    · refine (hAdd.weaken (fun p q hR => At.fresh hR) fun _ _ _ => id).bind fun right => ?_
      exact lockstep_pure fun p q hR => ⟨Option.some_ne_none _, .inl hR.2⟩
  · cases (show compareRest call left endShape p = .done (left, p) from rfl).symm.trans hRun
    exact ⟨q, rfl, hR.1, .inl hR.2⟩

/-- Behind an item of a list. -/
theorem lockstep_inRest (args : List ExprPtr)
    (hIn : ∀ args, Lockstep Down ((Method.inLoop args).Before start lists) (call (.inLoop args)) (fun r p q => r ≠ none ∧ Loose start lists p q))
    (arg : ExprPtr) :
    Lockstep Down (fun p q => arg ≠ none ∧ Clear (Loose start (true :: lists)) p q) (do
      if ← accept (ascii ",") then call (.inLoop (args ++ [arg]))
      else if ← expect (ascii ")") then call (.inLoop (args ++ [arg]))
      else pure none) (fun r p q => r ≠ none ∧ Loose start lists p q) := by
  refine lockstep_choice (by decide) (by decide) (fun p q hR => hR.2.1.together)
    (A := fun p q => At start ⟨.opening, true :: lists, false⟩ p q ∧ p.closedParen = false) (B := Clear (Loose start (true :: lists))) ?_ ?_
    ((hIn (args ++ [arg])).weaken (fun p q hR => .inl hR) fun _ _ _ => id) ?_
  · intro p q hR kind tail tail' hLeft hRight
    exact ⟨hR.2.1.next hLeft hRight (fun closed => by cases closed <;> rfl) 0 false, rfl⟩
  · intro p q hR _
    exact ⟨hR.2.1.refresh false, rfl, rfl⟩
  · refine lockstep_expect_close.bind fun closed => ?_
    refine lockstep_ite (fun _ => ?_) fun hMissing => lockstep_pure fun p q hR => absurd hR.1 hMissing
    exact (hIn (args ++ [arg])).weaken (fun p q hR => .inr hR.2) fun _ _ _ => id

theorem lockstep_inLoop (args : List ExprPtr) (hRaises : Raises (call .parseOr))
    (hOr : ∀ lists, Lockstep Down (Fresh start lists) (call .parseOr) (fun r p q => r ≠ none ∧ Clear (Loose start lists) p q))
    (hIn : ∀ args, Lockstep Down ((Method.inLoop args).Before start lists) (call (.inLoop args)) (fun r p q => r ≠ none ∧ Loose start lists p q)) :
    Lockstep Down ((Method.inLoop args).Before start lists) (inLoop call args) (fun r p q => r ≠ none ∧ Loose start lists p q) := by
  have hItem := lockstep_inRest args hIn
  refine Lockstep.or ?_ ?_
  · exact lockstep_opened (fun p q hTight => ⟨Option.some_ne_none _, .inl hTight⟩) ((hOr (true :: lists)).bind hItem)
      (hRaises.bind hItem)
  · refine lockstep_closed_list.bind fun accepted => lockstep_ite (fun _ => ?_) fun hMissing => ?_
    · exact lockstep_pure fun p q hR => ⟨Option.some_ne_none _, hR.2⟩
    · exact ((hOr (true :: lists)).bind hItem).weaken (fun p q hR => absurd hR.1 hMissing) fun _ _ _ => id

theorem readOperand_unary {text : Bytes} (lists : List Bool) (h : text ∈ unaryOperators) :
    Scan.readOperand lists text = ⟨.operand, lists, false⟩ := if_pos h

theorem lockstep_unaryOperator : Lockstep Down (Fresh start lists) unaryOperator
    (fun op p q => op ≠ none ∧ Fresh start lists p q ∨ op = none ∧ Fresh start lists p q ∧ Plain p) := by
  intro p p' op h hDown
  have hPlain (text : Bytes) (kind : TokenKind) (tail : List Shape) (hRest : rest p = (kind, text) :: tail)
      (hText : text ∉ unaryOperators) : Plain (p.after 0 0 false) := by
    intro token more hToken
    rw [rest_after, List.drop_zero, hRest] at hToken
    cases hToken
    exact hText
  have hHonest : Honest Down True unaryOperator (fun op => ∀ text, op = some text → text ∈ unaryOperators) :=
    honest_unaryOperator describes_whole
  refine ⟨(hHonest p p' op h hDown).1, fun q hR => ?_⟩
  obtain ⟨⟨kind, text⟩, tail, tail', hLeft, hRight⟩ | ⟨hLeft, tail', hRight⟩ := hR.together
  · by_cases hText : text ∈ unaryOperators
    · cases (unaryOperator_hit hText hLeft).symm.trans h
      refine ⟨_, unaryOperator_hit hText hRight, .inl ⟨Option.some_ne_none _, ?_⟩⟩
      have hNext := hR.next hLeft hRight 0 false
      rw [readOperand_unary lists hText] at hNext
      exact hNext.fresh
    · cases (unaryOperator_miss hText hLeft).symm.trans h
      exact ⟨_, unaryOperator_miss hText hRight, .inr ⟨rfl, hR.refresh false, hPlain text kind tail hLeft hText⟩⟩
  · cases (unaryOperator_miss (by decide) hLeft).symm.trans h
    exact ⟨_, unaryOperator_miss (by decide) hRight, .inr ⟨rfl, hR.refresh false, hPlain _ _ _ hLeft (by decide)⟩⟩

theorem lockstep_parseUnary (hUnary : Lockstep Down (Fresh start lists) (call .parseUnary) (fun r p q => r ≠ none ∧ Tight start lists p q))
    (hPrimary : Lockstep Down (fun p q => Fresh start lists p q ∧ Plain p) (call .parsePrimary) (fun r p q => r ≠ none ∧ Tight start lists p q)) :
    Lockstep Down (Fresh start lists) (parseUnary call) (fun r p q => r ≠ none ∧ Tight start lists p q) := by
  refine lockstep_unaryOperator.bind fun op => ?_
  cases op with
  | some op =>
    refine Lockstep.bind (hUnary.weaken (fun p q hR => ?_) fun _ _ _ => id) fun arg =>
      lockstep_pure fun p q hR => ⟨Option.some_ne_none _, hR.2⟩
    obtain ⟨-, hFresh⟩ | ⟨hNone, -⟩ := hR
    · exact hFresh
    · cases hNone
  | none =>
    refine hPrimary.weaken (fun p q hR => ?_) fun _ _ _ => id
    obtain ⟨hSome, -⟩ | ⟨-, hLeaf⟩ := hR
    · exact absurd rfl hSome
    · exact hLeaf

/-- An operand of one token, or what starts with a word. -/
def Leaf (start : Parser × Parser) (lists : List Bool) (p q : Parser) : Prop :=
  Fresh start lists p q ∧ ∀ token tail, rest p = token :: tail → Scan.readOperand lists token.2 = ⟨.operator, lists, false⟩

theorem lockstep_identifier {R : Parser → Parser → Prop} {R' : Bytes → Parser → Parser → Prop}
    (hTogether : ∀ p q, R p q → Together p q)
    (hWord : ∀ p q, R p q → ∀ text tail tail', rest p = (.kWord, text) :: tail → rest q = (.kWord, text) :: tail' →
      R' text (p.after 1 0 p.closedParen) (q.after 1 0 q.closedParen)) : Lockstep Down R identifier R' := by
  refine lockstep_peek (fun token => if token.1 ≠ .kWord then do
      fail (.syntaxError (ascii "expected identifier"))
      pure []
    else do
      advance
      pure token.2) hTogether (fun token => ?_) fun p q p' a hR hRun hDown => ?_
  · refine lockstep_ite (fun _ => lockstep_raised ?_) fun hKind => ?_
    · rintro p p' a ⟨⟩
      exact Status.noConfusion
    · have hAdvance : Lockstep Down (fun p q => R p q ∧ ∃ tail tail', rest p = token :: tail ∧ rest q = token :: tail')
          advance (fun _ => R' token.2) := by
        refine lockstep_advance fun p q hR => ?_
        obtain ⟨hR, tail, tail', hLeft, hRight⟩ := hR
        obtain ⟨kind, text⟩ := token
        have hKind : kind = .kWord := not_not.mp hKind
        subst hKind
        exact hWord p q hR text tail tail' hLeft hRight
      exact hAdvance.bind fun _ => lockstep_pure fun p q hR => hR
  · cases hRun
    cases hDown

theorem lockstep_qualifiedName (name : Bytes) : Lockstep Down (Tight start lists) (qualifiedName name) (fun _ => Tight start lists) := by
  have hPart : Lockstep Down (At start ⟨.afterDot, lists, false⟩) identifier (fun _ => Tight start lists) := by
    refine lockstep_identifier (fun p q hR => hR.together) fun p q hR text tail tail' hLeft hRight => ?_
    rw [hR.flags]
    exact hR.next hLeft hRight rfl 0 _
  refine lockstep_choice (by decide) (by decide) (fun p q hR => At.together hR) ?_ (fun p q hR _ => hR.refresh false)
    (hPart.bind fun part => lockstep_pure fun p q hR => hR) (lockstep_pure fun p q hR => hR)
  intro p q hR kind tail tail' hLeft hRight
  exact At.next hR hLeft hRight rfl 0 false

theorem lockstep_parseWord
    (hArguments : ∀ name args, Lockstep Down (Fresh start (false :: lists)) (call (.argumentLoop name args)) (fun r p q => r ≠ none ∧ Tight start lists p q))
    (hRaises : ∀ name args, Raises (call (.argumentLoop name args))) :
    Lockstep Down (Leaf start lists) (parseWord call) (fun r p q => r ≠ none ∧ Tight start lists p q) := by
  have hName : Lockstep Down (Leaf start lists) identifier (fun _ => Tight start lists) := by
    refine lockstep_identifier (fun p q hR => hR.1.together) fun p q hR text tail tail' hLeft hRight => ?_
    obtain ⟨⟨s, hAt, hStep⟩, hLeaf⟩ := hR
    rw [hAt.flags]
    exact hAt.next hLeft hRight ((hStep _ _ hLeft).trans (congrArg some (hLeaf _ _ hLeft))) 0 _
  have hCall (name : Bytes) : Lockstep Down (Tight start lists) (do
      if ← accept (ascii "(") then
        if ← accept (ascii ")") then pure (some (.ofFunction name []))
        else call (.argumentLoop name [])
      else pure (some (.ofColumn name))) (fun r p q => r ≠ none ∧ Tight start lists p q) := by
    refine lockstep_choice (A := fun p q => At start ⟨.opening, false :: lists, false⟩ p q ∧ p.closedParen = false)
      (by decide) (by decide) (fun p q hR => At.together hR) ?_ (fun p q hR _ => hR.refresh false) ?_ ?_
    · intro p q hR kind tail tail' hLeft hRight
      exact ⟨At.next hR hLeft hRight rfl 0 false, rfl⟩
    · exact lockstep_opened (fun p q hTight => ⟨Option.some_ne_none _, hTight⟩) (hArguments name []) (hRaises name [])
    · exact lockstep_pure fun p q hR => ⟨Option.some_ne_none _, hR⟩
  have hLiteral (literal : ExprPtr) (h : literal ≠ none) :
      Lockstep Down (Tight start lists) (pure literal : ParseM ExprPtr) (fun r p q => r ≠ none ∧ Tight start lists p q) :=
    lockstep_pure fun p q hR => ⟨h, hR⟩
  refine hName.bind fun name => lockstep_ite (fun _ => hLiteral _ (Option.some_ne_none _)) fun _ => ?_
  refine lockstep_ite (fun _ => hLiteral _ (Option.some_ne_none _)) fun _ => ?_
  exact (lockstep_qualifiedName name).bind hCall

theorem lockstep_leaf (token : Shape) (hWord : Lockstep Down (Leaf start lists) (parseWord call) (fun r p q => r ≠ none ∧ Tight start lists p q)) :
    Lockstep Down (fun p q => Leaf start lists p q ∧ ∃ tail tail', rest p = token :: tail ∧ rest q = token :: tail')
      (ofKind call token.1 token.2) (fun r p q => r ≠ none ∧ Tight start lists p q) := by
  have hAdvance : Lockstep Down (fun p q => Leaf start lists p q ∧ ∃ tail tail', rest p = token :: tail ∧ rest q = token :: tail')
      advance (fun _ => Tight start lists) := by
    refine lockstep_advance fun p q hR => ?_
    obtain ⟨⟨⟨s, hAt, hStep⟩, hLeaf⟩, tail, tail', hLeft, hRight⟩ := hR
    rw [hAt.flags]
    exact hAt.next hLeft hRight ((hStep _ _ hLeft).trans (congrArg some (hLeaf _ _ hLeft))) 0 _
  obtain ⟨kind, text⟩ := token
  cases kind with
  | kNumber =>
    refine hAdvance.bind fun _ => ?_
    cases numericLiteral text with
    | some value => exact lockstep_pure fun p q hR => ⟨Option.some_ne_none _, hR⟩
    | none =>
      refine lockstep_raised ?_
      rintro p p' a ⟨⟩
      exact Status.noConfusion
  | kString => exact hAdvance.bind fun _ => lockstep_pure fun p q hR => ⟨Option.some_ne_none _, hR⟩
  | kParameter =>
    refine hAdvance.bind fun _ => ?_
    rintro p p' a ⟨⟩ hDown
    refine ⟨hDown, fun q hR => ⟨{ q with parameterCount := q.parameterCount + 1 }, ?_, Option.some_ne_none _, ?_⟩⟩
    · rw [← At.parameters hR]
      rfl
    · have hTight : Tight start lists p q := hR
      obtain ⟨tokens, parameters, closed, hLeft, hRight⟩ := hTight.moved_after 0 1 p.closedParen
      rw [← hTight.flags] at hRight
      exact ⟨hTight.scanned, hTight.beside, congrArg (· + 1) hTight.parameters, hTight.lexical, hTight.free,
        tokens, parameters, closed, hLeft, hRight⟩
  | kWord => exact hWord.weaken (fun p q hR => hR.1) fun _ _ _ => id
  | kOperator | kPunctuation | kEnd =>
    refine lockstep_raised ?_
    rintro p p' a ⟨⟩
    exact Status.noConfusion

theorem lockstep_parsePrimary
    (hOr : Lockstep Down (Fresh start (false :: lists)) (call .parseOr) (fun r p q => r ≠ none ∧ Clear (Loose start (false :: lists)) p q))
    (hWord : Lockstep Down (Leaf start lists) (parseWord call) (fun r p q => r ≠ none ∧ Tight start lists p q)) :
    Lockstep Down (fun p q => Fresh start lists p q ∧ Plain p) (parsePrimary call) (fun r p q => r ≠ none ∧ Tight start lists p q) := by
  have hOpen : ascii "(" ∉ unaryOperators := by decide
  refine lockstep_choice (A := Fresh start (false :: lists)) (B := Leaf start lists) (by decide) (by decide) (fun p q hR => hR.1.together)
    ?_ ?_ (hOr.bind fun value => ?_) ?_
  · intro p q hR kind tail tail' hLeft hRight
    have hNext := hR.1.next hLeft hRight 0 false
    exact At.fresh hNext
  · intro p q hR hNot
    refine ⟨hR.1.refresh false, fun token tail hRest => ?_⟩
    rw [rest_after, List.drop_zero] at hRest
    exact (if_neg (hR.2 token tail hRest)).trans (if_neg (hNot token tail hRest))
  · have hClose : Lockstep Down (Clear (Loose start (false :: lists))) (do if ← expect (ascii ")") then pure value else pure none)
        (fun r p q => r = value ∧ Tight start lists p q) := by
      refine lockstep_expect_close.bind fun accepted => lockstep_ite (fun _ => ?_) fun hMissing => ?_
      · exact lockstep_pure fun p q hR => ⟨rfl, hR.2.1⟩
      · exact lockstep_pure fun p q hR => absurd hR.1 hMissing
    cases value with
    | none => exact hClose.never fun p q hR => hR.1 rfl
    | some tree => exact hClose.weaken (fun p q hR => hR.2) fun r p q hR => ⟨by rw [hR.1]; exact Option.some_ne_none _, hR.2⟩
  · have hPeek : Lockstep Down (Leaf start lists) (peek >>= fun token => ofKind call (shape token).1 (shape token).2)
        (fun r p q => r ≠ none ∧ Tight start lists p q) := by
      refine lockstep_peek (fun token => ofKind call token.1 token.2) (fun p q hR => hR.1.together)
        (fun token => lockstep_leaf token hWord) ?_
      rintro p q p' a hR ⟨⟩ hDown
      cases hDown
    exact hPeek

theorem lockstep_argument
    (hOr : Lockstep Down (Fresh start lists) (call .parseOr) (fun r p q => r ≠ none ∧ Clear (Loose start lists) p q)) :
    Lockstep Down (Fresh start lists) (argument call) (fun r p q => r ≠ none ∧ Clear (Loose start lists) p q) := by
  refine lockstep_choice (A := Clear (Tight start lists)) (by decide) (by decide) (fun p q hR => hR.together) ?_
    (fun p q hR _ => hR.refresh false) (lockstep_pure fun p q hR => ?_) hOr
  · intro p q hR kind tail tail' hLeft hRight
    exact ⟨hR.next hLeft hRight 0 false, rfl, rfl⟩
  · exact ⟨Option.some_ne_none _, .inl hR.1, hR.2⟩

theorem raises_argument (h : Raises (call .parseOr)) : Raises (argument call) := by
  intro p p' r hEnd hRun
  have hMiss : accept (ascii "*") p = .done (false, p.after 0 0 false) := accept_miss hEnd (by decide) (by decide)
  refine h (p.after 0 0 false) p' r ?_ ((bind_of_done hMiss).symm.trans hRun)
  rw [rest_after, List.drop_zero, hEnd]

theorem raises_expect {α : Type} {text : Bytes} (hText : text ≠ []) (hClose : text ≠ ascii ")") {m n : ParseM α} {R : Parser → Parser → Prop}
    {R' : α → Parser → Parser → Prop} (hRest : Lockstep Down R n R') : Raises (do if ← expect text then m else n) := by
  intro p p' a hEnd hRun hDown
  have hExpect : expect text p =
      .done (false, { p.after 0 0 false with status := .syntaxError (ascii "expected '" ++ text ++ ascii "'") }) :=
    (bind_of_done (accept_miss hEnd hClose hText.symm)).trans rfl
  have hStatus := (hRest _ p' a ((bind_of_done hExpect).symm.trans hRun) hDown).1
  cases hStatus

/-- Behind an argument. -/
theorem lockstep_argumentRest (name : Bytes) (args : List ExprPtr)
    (hLoop : ∀ args, Lockstep Down (Fresh start (false :: lists)) (call (.argumentLoop name args)) (fun r p q => r ≠ none ∧ Tight start lists p q))
    (arg : ExprPtr) :
    Lockstep Down (fun p q => arg ≠ none ∧ Clear (Loose start (false :: lists)) p q) (do
      if ← accept (ascii ")") then pure (some (.ofFunction name (args ++ [arg])))
      else if ← expect (ascii ",") then call (.argumentLoop name (args ++ [arg]))
      else pure none) (fun r p q => r ≠ none ∧ Tight start lists p q) := by
  have hComma : Lockstep Down (Clear (Loose start (false :: lists))) (expect (ascii ","))
      (fun accepted p q => accepted = true ∧ Fresh start (false :: lists) p q) := by
    refine lockstep_expect (by decide) (by decide) (fun p q hR => hR.1.together) ?_
    intro p q hR kind tail tail' hLeft hRight
    exact (hR.1.next hLeft hRight (fun closed => by cases closed <;> rfl) 0 false).fresh
  have hNever : Lockstep Down (fun _ _ => False) (pure none : ParseM ExprPtr) (fun r p q => r ≠ none ∧ Tight start lists p q) :=
    lockstep_pure fun p q hR => hR.elim
  refine (lockstep_item (fun p q hTight => ⟨Option.some_ne_none _, hTight⟩) (hComma.bind fun accepted => ?_)
    (raises_expect (by decide) (by decide) hNever)).weaken (fun p q hR => hR.2) fun _ _ _ => id
  refine lockstep_ite (fun _ => ?_) fun hMissing => lockstep_pure fun p q hR => absurd hR.1 hMissing
  exact (hLoop (args ++ [arg])).weaken (fun p q hR => hR.2) fun _ _ _ => id

/-- Behind the left side of a comparison. -/
theorem lockstep_compareNext (hAdd : Lockstep Down (Fresh start lists) (call .parseAdd) (fun r p q => r ≠ none ∧ Tight start lists p q))
    (hIn : ∀ args, Lockstep Down ((Method.inLoop args).Before start lists) (call (.inLoop args)) (fun r p q => r ≠ none ∧ Loose start lists p q))
    (left : ExprPtr) :
    Lockstep Down (fun p q => left ≠ none ∧ Tight start lists p q)
      (if left.isNone then pure none else peek >>= fun token => compareRest call left (shape token))
      (fun r p q => r ≠ none ∧ Loose start lists p q) := by
  refine lockstep_ite (fun hNone => lockstep_pure fun p q hR => absurd (Option.isNone_iff_eq_none.mp hNone) hR.1) fun _ => ?_
  exact lockstep_compareRest hAdd (fun args => (hIn args).weaken (fun p q hR => .inl hR) fun _ _ _ => id) left

theorem raises_parseUnary (h : Raises (call .parsePrimary)) : Raises (parseUnary call) := by
  intro p p' r hEnd hRun
  have hMiss : unaryOperator p = .done (none, p.after 0 0 false) := unaryOperator_miss (by decide) hEnd
  refine h (p.after 0 0 false) p' r ?_ ((bind_of_done hMiss).symm.trans hRun)
  rw [rest_after, List.drop_zero, hEnd]

theorem raises_parsePrimary : Raises (parsePrimary call) := by
  intro p p' r hEnd hRun hDown
  have hMiss : accept (ascii "(") p = .done (false, p.after 0 0 false) := accept_miss hEnd (by decide) (by decide)
  have hAgain : rest (p.after 0 0 false) = [endShape] := by rw [rest_after, List.drop_zero, hEnd]
  obtain ⟨position, hPeek⟩ := peek_rest hAgain
  have hRest := (bind_of_done hMiss).symm.trans hRun
  cases (bind_of_done hPeek).symm.trans hRest
  cases hDown

variable (hCall : Scanning call)

include hCall

theorem scanning_lockstep (start : Parser × Parser) (lists : List Bool) (method : Method) :
    Lockstep Down (method.Before start lists) (body call method) (method.Behind start lists) := by
  have hAdd := hCall.lockstep start lists .parseAdd
  have hOr := fun lists => hCall.lockstep start lists .parseOr
  cases method with
  | parseOr =>
    exact (hCall.lockstep start lists .parseAnd).bind fun left =>
      (hCall.lockstep start lists (.orLoop left)).weaken (fun p q hR => ⟨hR.1, hR.2.1⟩) fun _ _ _ => id
  | orLoop left =>
    exact lockstep_wordLoop left (.inl rfl)
      ((hCall.lockstep start lists .parseAnd).weaken (fun _ _ => id) fun r p q hR => ⟨hR.1, hR.2.1⟩)
      (fun left => hCall.lockstep start lists (.orLoop left))
  | parseAnd => exact (hCall.lockstep start lists .parseCompare).bind fun left => hCall.lockstep start lists (.andLoop left)
  | andLoop left =>
    exact lockstep_wordLoop left (.inr rfl) (hCall.lockstep start lists .parseCompare)
      (fun left => hCall.lockstep start lists (.andLoop left))
  | parseCompare =>
    exact (hCall.lockstep start lists .parseLike).bind
      (lockstep_compareNext hAdd fun args => hCall.lockstep start lists (.inLoop args))
  | inLoop args =>
    exact lockstep_inLoop args (hCall.raises .parseOr trivial) hOr fun args => hCall.lockstep start lists (.inLoop args)
  | parseLike => exact hAdd.bind (lockstep_likeRest hAdd)
  | parseAdd => exact (hCall.lockstep start lists .parseMul).bind fun left => hCall.lockstep start lists (.addLoop left)
  | addLoop left =>
    exact lockstep_tokenLoop left (fun text => text = ascii "+" ∨ text = ascii "-")
      (by rintro text (rfl | rfl) <;> decide) (hCall.lockstep start lists .parseMul)
      (fun left => hCall.lockstep start lists (.addLoop left))
  | parseMul => exact (hCall.lockstep start lists .parseUnary).bind fun left => hCall.lockstep start lists (.mulLoop left)
  | mulLoop left =>
    exact lockstep_tokenLoop left (fun text => text = ascii "*" ∨ text = ascii "/" ∨ text = ascii "%")
      (by rintro text (rfl | rfl | rfl) <;> decide) (hCall.lockstep start lists .parseUnary)
      (fun left => hCall.lockstep start lists (.mulLoop left))
  | parseUnary => exact lockstep_parseUnary (hCall.lockstep start lists .parseUnary) (hCall.lockstep start lists .parsePrimary)
  | parsePrimary =>
    exact lockstep_parsePrimary (hOr (false :: lists))
      (lockstep_parseWord (fun name args => hCall.lockstep start lists (.argumentLoop name args))
        fun name args => hCall.raises (.argumentLoop name args) trivial)
  | argumentLoop name args =>
    exact (lockstep_argument (hOr (false :: lists))).bind
      (lockstep_argumentRest name args fun args => hCall.lockstep start lists (.argumentLoop name args))

theorem scanning_raises (method : Method) (hStarts : method.Starts) : Raises (body call method) := by
  have hRest := hCall.lockstep ({ tokens := [] }, { tokens := [] }) []
  cases method with
  | parseOr => exact (hCall.raises .parseAnd trivial).bind fun left => hRest (.orLoop left)
  | parseAnd => exact (hCall.raises .parseCompare trivial).bind fun left => hRest (.andLoop left)
  | parseCompare =>
    exact (hCall.raises .parseLike trivial).bind
      (lockstep_compareNext (hRest .parseAdd) fun args => hRest (.inLoop args))
  | parseLike => exact (hCall.raises .parseAdd trivial).bind (lockstep_likeRest (hRest .parseAdd))
  | parseAdd => exact (hCall.raises .parseMul trivial).bind fun left => hRest (.addLoop left)
  | parseMul => exact (hCall.raises .parseUnary trivial).bind fun left => hRest (.mulLoop left)
  | parseUnary => exact raises_parseUnary (hCall.raises .parsePrimary trivial)
  | parsePrimary => exact raises_parsePrimary
  | argumentLoop name args =>
    exact (raises_argument (hCall.raises .parseOr trivial)).bind
      (lockstep_argumentRest name args fun args => hRest (.argumentLoop name args))
  | orLoop | andLoop | inLoop | addLoop | mulLoop => exact hStarts.elim

end Bodies

theorem scanning_parse (fuel : Nat) : Scanning (parse fuel) := by
  induction fuel with
  | zero =>
    constructor
    · intro start lists method p p' a h
      cases h
    · intro method _ p p' a _ h
      cases h
  | succ fuel ih => exact ⟨scanning_lockstep ih, scanning_raises ih⟩

end Parser

end TupleStone
