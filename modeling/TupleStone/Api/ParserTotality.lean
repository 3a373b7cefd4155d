import TupleStone.Api.Parser

/-! # The parser is total

On a token list that ends with an end token, every method returns: it never reads past the end, and each loop
iteration consumes a token, so the bound on the depth of calls is not reached.
-/

set_option autoImplicit false

namespace TupleStone

namespace Parser

def WellEnded (tokens : List Token) : Prop := ∃ body last, tokens = body ++ [⟨.kEnd, [], last⟩]

structure Ready (p : Parser) : Prop where
  ended : WellEnded p.tokens
  inside : p.index < p.tokens.length

structure Moves (p p' : Parser) : Prop where
  tokens : p'.tokens = p.tokens
  forward : p.index ≤ p'.index
  inside : p'.index < p'.tokens.length

theorem Ready.moves {p p' : Parser} (h : Ready p) (hMoves : Moves p p') : Ready p' :=
  ⟨hMoves.tokens ▸ h.ended, hMoves.inside⟩

theorem Ready.refl {p : Parser} (h : Ready p) : Moves p p := ⟨rfl, Nat.le_refl _, h.inside⟩

theorem Moves.trans {p q r : Parser} (h : Moves p q) (h' : Moves q r) : Moves p r :=
  ⟨h'.tokens.trans h.tokens, h.forward.trans h'.forward, h'.inside⟩

def remaining (p : Parser) : Nat := p.tokens.length - p.index

theorem Moves.remaining_le {p p' : Parser} (h : Moves p p') : p'.remaining ≤ p.remaining := by
  have hForward := h.forward
  rw [remaining, remaining, h.tokens]
  omega

theorem Moves.remaining_lt {p p' : Parser} (h : Moves p p') (hIndex : p.index < p'.index) :
    p'.remaining < p.remaining := by
  have hInside := h.inside
  rw [remaining, remaining, h.tokens]
  rw [h.tokens] at hInside
  omega

/-- A token that is not the end token has another one after it. -/
theorem Ready.succ_inside {p : Parser} (h : Ready p) {token : Token} (hToken : p.tokens[p.index]? = some token)
    (hKind : token.kind ≠ .kEnd ∨ token.text ≠ []) : p.index + 1 < p.tokens.length := by
  obtain ⟨body, last, hTokens⟩ := h.ended
  have hInside := h.inside
  rw [hTokens] at hToken hInside ⊢
  rw [List.length_append, List.length_singleton] at hInside ⊢
  obtain hLess | hSame := Nat.lt_or_ge p.index body.length
  · omega
  · have hIndex : p.index = body.length := by omega
    rw [hIndex, List.getElem?_append_right (Nat.le_refl _), Nat.sub_self] at hToken
    cases hToken
    simp at hKind

theorem Ready.token {p : Parser} (h : Ready p) : ∃ token, p.tokens[p.index]? = some token :=
  ⟨p.tokens.get ⟨p.index, h.inside⟩, List.getElem?_eq_getElem h.inside⟩

/-- `m` returns from `p`, having moved forward only, with `post`. -/
def Settles {α : Type} (m : ParseM α) (p : Parser) (post : α → Parser → Prop) : Prop :=
  ∃ a p', m p = .done (a, p') ∧ Moves p p' ∧ post a p'

variable {α β : Type}

theorem settles_pure {p : Parser} (h : Ready p) {a : α} {post : α → Parser → Prop} (hPost : post a p) :
    Settles (pure a) p post := ⟨a, p, rfl, h.refl, hPost⟩

theorem Settles.bind {m : ParseM α} {k : α → ParseM β} {p : Parser} {mid : α → Parser → Prop}
    {post : β → Parser → Prop} (hm : Settles m p mid)
    (hk : ∀ a p', Moves p p' → mid a p' → Settles (k a) p' post) : Settles (m >>= k) p post := by
  obtain ⟨a, p', hExec, hMoves, hMid⟩ := hm
  obtain ⟨b, p'', hExec', hMoves', hPost⟩ := hk a p' hMoves hMid
  refine ⟨b, p'', ?_, hMoves.trans hMoves', hPost⟩
  change (m p >>= fun r => k r.1 r.2) = _
  rw [hExec]
  exact hExec'

theorem Settles.weaken {m : ParseM α} {p : Parser} {post post' : α → Parser → Prop} (h : Settles m p post)
    (hPost : ∀ a p', post a p' → post' a p') : Settles m p post' := by
  obtain ⟨a, p', hExec, hMoves, h⟩ := h
  exact ⟨a, p', hExec, hMoves, hPost a p' h⟩

/-! ## Token access -/

theorem settles_peek {p : Parser} (h : Ready p) :
    Settles peek p (fun token p' => p' = p ∧ p.tokens[p.index]? = some token) := by
  obtain ⟨token, hToken⟩ := h.token
  refine ⟨token, p, ?_, h.refl, rfl, hToken⟩
  rw [peek, hToken]

theorem settles_advance {p : Parser} (h : Ready p) {token : Token} (hToken : p.tokens[p.index]? = some token)
    (hKind : token.kind ≠ .kEnd ∨ token.text ≠ []) : Settles advance p (fun _ p' => p.index < p'.index) :=
  ⟨(), _, rfl, ⟨rfl, Nat.le_succ _, h.succ_inside hToken hKind⟩, Nat.lt_succ_self _⟩

theorem settles_fail {p : Parser} (h : Ready p) (status : Status) : Settles (fail status) p (fun _ _ => True) :=
  ⟨(), _, rfl, ⟨rfl, Nat.le_refl _, h.inside⟩, trivial⟩

/-- An accepted text was consumed, unless it was a closing parenthesis right after an expected one. -/
theorem settles_accept {p : Parser} (h : Ready p) {text : Bytes} (hText : text ≠ []) :
    Settles (accept text) p (fun accepted p' =>
      (accepted = true → text ≠ ascii ")" ∨ p.closedParen = false → p.index < p'.index) ∧
        (text ≠ ascii ")" → p'.closedParen = false)) := by
  obtain ⟨token, hToken⟩ := h.token
  have hSucc : token.text = text → p.index + 1 < p.tokens.length := by
    rintro rfl
    exact h.succ_inside hToken (Or.inr hText)
  have hOpen : ∀ flag : Bool, Moves p { p with closedParen := flag } := fun _ => ⟨rfl, Nat.le_refl _, h.inside⟩
  cases hParen : decide (text = ascii ")") with
  | true =>
    have hParen : text = ascii ")" := of_decide_eq_true hParen
    subst hParen
    cases hClosed : p.closedParen with
    | true =>
      cases hSame : decide (token.text = ascii ")") with
      | true =>
        have hSame := of_decide_eq_true hSame
        refine ⟨true, { p with index := p.index + 1 }, ?_, ⟨rfl, Nat.le_succ _, hSucc hSame⟩, ?_, ?_⟩
        · simp [accept, hToken, hSame]
        · intro _ _
          exact Nat.lt_succ_self _
        · simp
      | false =>
        have hSame := of_decide_eq_false hSame
        refine ⟨true, { p with closedParen := false }, ?_, hOpen false, ?_, ?_⟩
        · simp [accept, hToken, hClosed, hSame]
        · simp
        · simp
    | false =>
      cases hSame : decide (token.text = ascii ")") with
      | true =>
        have hSame := of_decide_eq_true hSame
        refine ⟨true, { p with index := p.index + 1 }, ?_, ⟨rfl, Nat.le_succ _, hSucc hSame⟩, ?_, ?_⟩
        · simp [accept, hToken, hSame]
        · intro _ _
          exact Nat.lt_succ_self _
        · simp
      | false =>
        have hSame := of_decide_eq_false hSame
        refine ⟨false, p, ?_, h.refl, ?_, ?_⟩
        · simp [accept, hToken, hClosed, hSame]
        · simp
        · simp
  | false =>
    have hParen : text ≠ ascii ")" := of_decide_eq_false hParen
    cases hSame : decide (token.text = text) with
    | true =>
      have hSame := of_decide_eq_true hSame
      refine ⟨true, { p with closedParen := false, index := p.index + 1 }, ?_,
        ⟨rfl, Nat.le_succ _, hSucc hSame⟩, ?_, ?_⟩
      · simp [accept, hToken, hParen, hSame]
      · intro _ _
        exact Nat.lt_succ_self _
      · intro _
        rfl
    | false =>
      have hSame := of_decide_eq_false hSame
      refine ⟨false, { p with closedParen := false }, ?_, hOpen false, ?_, ?_⟩
      · simp [accept, hToken, hParen, hSame]
      · simp
      · intro _
        rfl

theorem settles_expect {p : Parser} (h : Ready p) {text : Bytes} (hText : text ≠ []) :
    Settles (expect text) p (fun accepted p' =>
      accepted = true → text ≠ ascii ")" ∨ p.closedParen = false → p.index < p'.index) := by
  refine (settles_accept h hText).bind (fun accepted p' hMoves hAccept => ?_)
  have hReady := h.moves hMoves
  cases accepted with
  | true =>
    rw [if_pos rfl]
    split
    · exact ⟨true, { p' with closedParen := true }, rfl, ⟨rfl, Nat.le_refl _, hMoves.inside⟩, hAccept.1⟩
    · exact settles_pure hReady hAccept.1
  | false =>
    refine (settles_fail hReady _).bind (fun _ p'' hMoves' _ => settles_pure (hReady.moves hMoves') ?_)
    simp

theorem settles_identifier {p : Parser} (h : Ready p) :
    Settles identifier p (fun _ p' => ∀ token, p.tokens[p.index]? = some token → token.kind = .kWord → p.index < p'.index) := by
  refine (settles_peek h).bind (fun token p' hMoves hPeek => ?_)
  obtain ⟨rfl, hToken⟩ := hPeek
  split
  · rename_i hKind
    refine (settles_fail h _).bind (fun _ p'' hMoves' _ => settles_pure (h.moves hMoves') ?_)
    intro token' hToken' hWord
    rw [hToken] at hToken'
    cases hToken'
    exact absurd hWord hKind
  · rename_i hKind
    have hWord : token.kind ≠ .kEnd ∨ token.text ≠ [] := Or.inl (by rw [not_not.mp hKind]; decide)
    refine (settles_advance h hToken hWord).bind (fun _ p'' hMoves' hIndex => settles_pure (h.moves hMoves') ?_)
    exact fun _ _ _ => hIndex

/-! ## Grammar methods -/

/-- How deep calls nest before the first token is consumed. -/
def Method.level : Method → Nat
  | .parseOr => 9
  | .parseAnd => 8
  | .parseCompare => 7
  | .parseLike => 6
  | .parseAdd => 5
  | .parseMul => 4
  | .parseUnary => 3
  | .parsePrimary => 2
  | .inLoop _ => 10
  | .argumentLoop _ _ => 10
  | .orLoop _ => 1
  | .andLoop _ => 1
  | .addLoop _ => 1
  | .mulLoop _ => 1

theorem Method.level_le (method : Method) : method.level ≤ 10 := by
  cases method <;> simp [level]

def Returns (m : ParseM α) (p : Parser) : Prop := Settles m p (fun _ _ => True)

theorem Returns.bind {m : ParseM α} {k : α → ParseM β} {p : Parser} (hm : Returns m p)
    (hk : ∀ a p', Moves p p' → Returns (k a) p') : Returns (m >>= k) p :=
  Settles.bind hm (fun a p' hMoves _ => hk a p' hMoves)

theorem returns_pure {p : Parser} (h : Ready p) (a : α) : Returns (pure a) p := settles_pure h trivial

/-- Called methods return whenever the bound exceeds what they may nest. -/
def Bounded (fuel : Nat) (call : Method → ParseM ExprPtr) : Prop :=
  ∀ method p, Ready p → 10 * p.remaining + method.level ≤ fuel → Returns (call method) p

section Bodies

variable {fuel : Nat} {call : Method → ParseM ExprPtr} {p : Parser}

theorem Bounded.same (hCall : Bounded fuel call) (method : Method) {method' : Method} (h : Ready p)
    (hFuel : 10 * p.remaining + method.level ≤ fuel + 1) {p' : Parser} (hMoves : Moves p p')
    (hLevel : method'.level < method.level) : Returns (call method') p' := by
  refine hCall method' p' (h.moves hMoves) ?_
  have hLe := hMoves.remaining_le
  omega

theorem Bounded.less (hCall : Bounded fuel call) {level : Nat} {method' : Method} (h : Ready p)
    (hFuel : 10 * p.remaining + (level + 1) ≤ fuel + 1) {p' : Parser} (hMoves : Moves p p')
    (hIndex : p.index < p'.index) : Returns (call method') p' := by
  refine hCall method' p' (h.moves hMoves) ?_
  have hLess := hMoves.remaining_lt hIndex
  have hLevel := method'.level_le
  omega

/-- A method that calls the next one of the precedence chain and then its own loop. -/
theorem Bounded.chain (hCall : Bounded fuel call) (method : Method) (h : Ready p) {first : Method} {loop : ExprPtr → Method}
    (hFuel : 10 * p.remaining + method.level ≤ fuel + 1) (hFirst : first.level < method.level)
    (hLoop : ∀ left, (loop left).level < method.level) :
    Returns (call first >>= fun left => call (loop left)) p :=
  (hCall.same method h hFuel h.refl hFirst).bind (fun left _ hMoves => hCall.same method h hFuel hMoves (hLoop left))

/-- A loop that consumes an operator word, then an operand, then goes on. -/
theorem returns_wordLoop (hCall : Bounded fuel call) (h : Ready p) (hFuel : 10 * p.remaining + 1 ≤ fuel + 1)
    (left : ExprPtr) {word : Bytes} (hWord : word ≠ [] ∧ word ≠ ascii ")") (operand : Method) (loop : ExprPtr → Method) :
    Returns (do
      if left.isNone then pure left
      else if ← accept word then
        let right ← call operand
        call (loop (some (.binary word left right)))
      else pure left) p := by
  split
  · exact returns_pure h left
  · refine (settles_accept h hWord.1).bind (fun accepted p' hMoves hAccept => ?_)
    cases accepted with
    | true =>
      have hIndex := hAccept.1 rfl (Or.inl hWord.2)
      refine (hCall.less h hFuel hMoves hIndex).bind (fun right p'' hMoves' => ?_)
      exact hCall.less h hFuel (hMoves.trans hMoves') (hIndex.trans_le hMoves'.forward)
    | false => exact returns_pure (h.moves hMoves) left

theorem returns_orLoop (hCall : Bounded fuel call) (h : Ready p) (hFuel : 10 * p.remaining + 1 ≤ fuel + 1)
    (left : ExprPtr) : Returns (orLoop call left) p :=
  returns_wordLoop hCall h hFuel left (by decide) .parseAnd .orLoop

theorem returns_andLoop (hCall : Bounded fuel call) (h : Ready p) (hFuel : 10 * p.remaining + 1 ≤ fuel + 1)
    (left : ExprPtr) : Returns (andLoop call left) p :=
  returns_wordLoop hCall h hFuel left (by decide) .parseCompare .andLoop

theorem returns_parseLike (hCall : Bounded fuel call) (h : Ready p) (hFuel : 10 * p.remaining + 6 ≤ fuel + 1) :
    Returns (parseLike call) p := by
  refine (hCall.same .parseLike h hFuel h.refl (by decide)).bind (fun left p' hMoves => ?_)
  have hReady := h.moves hMoves
  split
  · exact returns_pure hReady left
  · refine (settles_accept hReady (by decide)).bind (fun accepted p'' hMoves' hAccept => ?_)
    cases accepted with
    | true =>
      have hIndex := hAccept.1 rfl (Or.inl (by decide))
      refine (hCall.less h hFuel (hMoves.trans hMoves') (hMoves.forward.trans_lt hIndex)).bind (fun right q hMoves'' => ?_)
      exact returns_pure ((hReady.moves hMoves').moves hMoves'') _
    | false => exact returns_pure (hReady.moves hMoves') left

theorem returns_parseIs (h : Ready p) (left : ExprPtr) : Returns (parseIs left) p := by
  refine (settles_accept h (by decide)).bind (fun negated p' hMoves _ => ?_)
  have hReady := h.moves hMoves
  refine (settles_expect hReady (by decide)).bind (fun accepted p'' hMoves' _ => ?_)
  have hReady' := hReady.moves hMoves'
  cases accepted with
  | true => exact returns_pure hReady' _
  | false => exact returns_pure hReady' _

theorem returns_parseCompare (hCall : Bounded fuel call) (h : Ready p) (hFuel : 10 * p.remaining + 7 ≤ fuel + 1) :
    Returns (parseCompare call) p := by
  refine (hCall.same .parseCompare h hFuel h.refl (by decide)).bind (fun left p' hMoves => ?_)
  have hReady := h.moves hMoves
  split
  · exact returns_pure hReady none
  refine (settles_peek hReady).bind (fun token q _ hPeek => ?_)
  obtain ⟨rfl, hToken⟩ := hPeek
  split
  · rename_i hOperator
    have hKind : token.kind ≠ .kEnd ∨ token.text ≠ [] := by
      obtain hKind | hText | hText := hOperator
      · exact Or.inl (by rw [hKind]; decide)
      · exact Or.inr (by rw [hText]; decide)
      · exact Or.inr (by rw [hText]; decide)
    refine (settles_advance hReady hToken hKind).bind (fun _ p'' hMoves' hIndex => ?_)
    have hReady' := hReady.moves hMoves'
    have hIndex' := hMoves.forward.trans_lt hIndex
    split
    · exact returns_parseIs hReady' left
    split
    · refine (settles_expect hReady' (by decide)).bind (fun accepted r hMoves'' _ => ?_)
      cases accepted with
      | true => exact hCall.less h hFuel ((hMoves.trans hMoves').trans hMoves'') (hIndex'.trans_le hMoves''.forward)
      | false => exact returns_pure (hReady'.moves hMoves'') none
    · refine (hCall.less h hFuel (hMoves.trans hMoves') hIndex').bind (fun right r hMoves'' => ?_)
      exact returns_pure (hReady'.moves hMoves'') _
  · exact returns_pure hReady left

theorem returns_inLoop (hCall : Bounded fuel call) (h : Ready p) (hFuel : 10 * p.remaining + 10 ≤ fuel + 1)
    (args : List ExprPtr) : Returns (inLoop call args) p := by
  refine (settles_accept h (by decide)).bind (fun closed p' hMoves _ => ?_)
  have hReady := h.moves hMoves
  cases closed with
  | true => exact returns_pure hReady _
  | false =>
    refine (hCall.same (.inLoop args) h hFuel hMoves (by simp [Method.level])).bind (fun arg q hMoves' => ?_)
    have hReady' := hReady.moves hMoves'
    have hFar := hMoves.trans hMoves'
    -- a refused comma clears the flag, so the parenthesis expected next has to be there
    refine (settles_accept hReady' (by decide)).bind (fun comma r hMoves'' hComma => ?_)
    have hReady'' := hReady'.moves hMoves''
    have hFar' := hFar.trans hMoves''
    cases comma with
    | true =>
      have hIndex := hComma.1 rfl (Or.inl (by decide))
      exact hCall.less h hFuel hFar' (hFar.forward.trans_lt hIndex)
    | false =>
      refine (settles_expect hReady'' (by decide)).bind (fun accepted s hMoves''' hExpect => ?_)
      cases accepted with
      | true =>
        have hIndex := hExpect rfl (Or.inr (hComma.2 (by decide)))
        exact hCall.less h hFuel (hFar'.trans hMoves''') (hFar'.forward.trans_lt hIndex)
      | false => exact returns_pure (hReady''.moves hMoves''') none

/-- A loop that consumes an operator token, then an operand, then goes on. -/
theorem returns_tokenLoop (hCall : Bounded fuel call) (h : Ready p) (hFuel : 10 * p.remaining + 1 ≤ fuel + 1)
    (left : ExprPtr) (isOperator : Token → Prop) [DecidablePred isOperator]
    (hText : ∀ token, isOperator token → token.text ≠ []) (operand : Method) (loop : ExprPtr → Method) :
    Returns (do
      let token ← peek
      if isOperator token then
        advance
        let right ← call operand
        call (loop (some (.binary token.text left right)))
      else pure left) p := by
  refine (settles_peek h).bind (fun token q _ hPeek => ?_)
  obtain ⟨rfl, hToken⟩ := hPeek
  split
  · rename_i hOperator
    refine (settles_advance h hToken (Or.inr (hText token hOperator))).bind (fun _ p' hMoves hIndex => ?_)
    refine (hCall.less h hFuel hMoves hIndex).bind (fun right p'' hMoves' => ?_)
    exact hCall.less h hFuel (hMoves.trans hMoves') (hIndex.trans_le hMoves'.forward)
  · exact returns_pure h left

theorem returns_addLoop (hCall : Bounded fuel call) (h : Ready p) (hFuel : 10 * p.remaining + 1 ≤ fuel + 1)
    (left : ExprPtr) : Returns (addLoop call left) p := by
  refine returns_tokenLoop hCall h hFuel left (fun token => token.text = ascii "+" ∨ token.text = ascii "-") ?_
    .parseMul .addLoop
  rintro token (hText | hText) <;> (rw [hText]; decide)

theorem returns_mulLoop (hCall : Bounded fuel call) (h : Ready p) (hFuel : 10 * p.remaining + 1 ≤ fuel + 1)
    (left : ExprPtr) : Returns (mulLoop call left) p := by
  refine returns_tokenLoop hCall h hFuel left
    (fun token => token.text = ascii "*" ∨ token.text = ascii "/" ∨ token.text = ascii "%") ?_ .parseUnary .mulLoop
  rintro token (hText | hText | hText) <;> (rw [hText]; decide)

theorem settles_unaryOperator (h : Ready p) :
    Settles unaryOperator p (fun op p' => op.isSome → p.index < p'.index) := by
  have hWord : ∀ {q : Parser} {word : Bytes} {rest : ParseM (Option Bytes)}, Ready q → Moves p q →
      word ≠ [] ∧ word ≠ ascii ")" →
      (∀ r, Moves q r → Settles rest r (fun op p' => op.isSome → p.index < p'.index)) →
      Settles (do if ← accept word then pure (some word) else rest) q (fun op p' => op.isSome → p.index < p'.index) := by
    intro q word rest hq hMoves hWord hRest
    refine (settles_accept hq hWord.1).bind (fun accepted r hMoves' hAccept => ?_)
    cases accepted with
    | true => exact settles_pure (hq.moves hMoves') (fun _ => hMoves.forward.trans_lt (hAccept.1 rfl (Or.inl hWord.2)))
    | false => exact hRest r hMoves'
  refine hWord h h.refl (by decide) (fun q hMoves => ?_)
  refine hWord (h.moves hMoves) hMoves (by decide) (fun r hMoves' => ?_)
  refine hWord ((h.moves hMoves).moves hMoves') (hMoves.trans hMoves') (by decide) (fun s hMoves'' => ?_)
  exact settles_pure (((h.moves hMoves).moves hMoves').moves hMoves'') (by simp)

theorem returns_parseUnary (hCall : Bounded fuel call) (h : Ready p) (hFuel : 10 * p.remaining + 3 ≤ fuel + 1) :
    Returns (parseUnary call) p := by
  refine (settles_unaryOperator h).bind (fun op p' hMoves hOp => ?_)
  cases op with
  | some op =>
    refine (hCall.less h hFuel hMoves (hOp rfl)).bind (fun arg p'' hMoves' => ?_)
    exact returns_pure ((h.moves hMoves).moves hMoves') _
  | none => exact hCall.same .parseUnary h hFuel hMoves (by decide)

theorem returns_parseNumber (h : Ready p) {token : Token} (hToken : p.tokens[p.index]? = some token)
    (hKind : token.kind ≠ .kEnd) (text : Bytes) : Returns (parseNumber text) p := by
  refine (settles_advance h hToken (Or.inl hKind)).bind (fun _ p' hMoves _ => ?_)
  have hReady := h.moves hMoves
  cases numericLiteral text with
  | some value => exact returns_pure hReady _
  | none => exact (settles_fail hReady _).bind (fun _ p'' hMoves' _ => returns_pure (hReady.moves hMoves') none)

theorem returns_parseParameter (h : Ready p) {token : Token} (hToken : p.tokens[p.index]? = some token)
    (hKind : token.kind ≠ .kEnd) : Returns parseParameter p := by
  refine (settles_advance h hToken (Or.inl hKind)).bind (fun _ p' hMoves _ => ?_)
  exact ⟨_, { p' with parameterCount := p'.parameterCount + 1 }, rfl, ⟨rfl, Nat.le_refl _, hMoves.inside⟩, trivial⟩

theorem returns_qualifiedName (h : Ready p) (name : Bytes) : Returns (qualifiedName name) p := by
  refine (settles_accept h (by decide)).bind (fun accepted p' hMoves _ => ?_)
  have hReady := h.moves hMoves
  cases accepted with
  | true => exact (settles_identifier hReady).bind (fun part p'' hMoves' _ => returns_pure (hReady.moves hMoves') _)
  | false => exact returns_pure hReady name

theorem returns_parseWord (hCall : Bounded fuel call) (h : Ready p) (hFuel : 10 * p.remaining + 2 ≤ fuel + 1)
    {token : Token} (hToken : p.tokens[p.index]? = some token) (hKind : token.kind = .kWord) :
    Returns (parseWord call) p := by
  refine (settles_identifier h).bind (fun name p' hMoves hIndex => ?_)
  have hReady := h.moves hMoves
  have hIndex := hIndex token hToken hKind
  split
  · exact returns_pure hReady _
  split
  · exact returns_pure hReady _
  refine (returns_qualifiedName hReady name).bind (fun name q hMoves' => ?_)
  have hReady' := hReady.moves hMoves'
  refine (settles_accept hReady' (by decide)).bind (fun opened r hMoves'' _ => ?_)
  have hReady'' := hReady'.moves hMoves''
  have hFar := (hMoves.trans hMoves').trans hMoves''
  cases opened with
  | true =>
    refine (settles_accept hReady'' (by decide)).bind (fun closed s hMoves''' _ => ?_)
    cases closed with
    | true => exact returns_pure (hReady''.moves hMoves''') _
    | false =>
      refine hCall.less h hFuel (hFar.trans hMoves''') ?_
      exact hIndex.trans_le (hMoves'.forward.trans (hMoves''.forward.trans hMoves'''.forward))
  | false => exact returns_pure hReady'' _

theorem returns_parsePrimary (hCall : Bounded fuel call) (h : Ready p) (hFuel : 10 * p.remaining + 2 ≤ fuel + 1) :
    Returns (parsePrimary call) p := by
  refine (settles_accept h (by decide)).bind (fun opened p' hMoves hOpened => ?_)
  have hReady := h.moves hMoves
  cases opened with
  | true =>
    have hIndex := hOpened.1 rfl (Or.inl (by decide))
    refine (hCall.less h hFuel hMoves hIndex).bind (fun value q hMoves' => ?_)
    refine (settles_expect (hReady.moves hMoves') (by decide)).bind (fun accepted r hMoves'' _ => ?_)
    have hReady'' := (hReady.moves hMoves').moves hMoves''
    cases accepted with
    | true => exact returns_pure hReady'' _
    | false => exact returns_pure hReady'' _
  | false =>
    have hFuel' : 10 * p'.remaining + 2 ≤ fuel + 1 := by
      have hLe := hMoves.remaining_le
      omega
    refine (settles_peek hReady).bind (fun token q _ hPeek => ?_)
    obtain ⟨rfl, hToken⟩ := hPeek
    have hOther : Returns (do fail (.syntaxError (ascii "expected expression")); pure (none : ExprPtr)) q :=
      (settles_fail hReady _).bind (fun _ r hMoves' _ => returns_pure (hReady.moves hMoves') none)
    cases hKind : token.kind with
    | kNumber => exact returns_parseNumber hReady hToken (by rw [hKind]; decide) _
    | kString =>
      refine (settles_advance hReady hToken (Or.inl (by rw [hKind]; decide))).bind (fun _ r hMoves' _ => ?_)
      exact returns_pure (hReady.moves hMoves') _
    | kParameter => exact returns_parseParameter hReady hToken (by rw [hKind]; decide)
    | kWord => exact returns_parseWord hCall hReady hFuel' hToken hKind
    | kOperator => exact hOther
    | kPunctuation => exact hOther
    | kEnd => exact hOther

theorem returns_argumentLoop (hCall : Bounded fuel call) (h : Ready p) (hFuel : 10 * p.remaining + 10 ≤ fuel + 1)
    (name : Bytes) (args : List ExprPtr) : Returns (argumentLoop call name args) p := by
  have hArgument : Returns (argument call) p := by
    refine (settles_accept h (by decide)).bind (fun star p' hMoves _ => ?_)
    cases star with
    | true => exact returns_pure (h.moves hMoves) _
    | false => exact hCall.same (.argumentLoop name args) h hFuel hMoves (by simp [Method.level])
  refine hArgument.bind (fun arg p' hMoves => ?_)
  have hReady := h.moves hMoves
  refine (settles_accept hReady (by decide)).bind (fun closed q hMoves' _ => ?_)
  have hReady' := hReady.moves hMoves'
  cases closed with
  | true => exact returns_pure hReady' _
  | false =>
    refine (settles_expect hReady' (by decide)).bind (fun comma r hMoves'' hComma => ?_)
    have hFar := hMoves.trans hMoves'
    cases comma with
    | true => exact hCall.less h hFuel (hFar.trans hMoves'') (hFar.forward.trans_lt (hComma rfl (Or.inl (by decide))))
    | false => exact returns_pure (hReady'.moves hMoves'') none

theorem returns_body (hCall : Bounded fuel call) (h : Ready p) (method : Method)
    (hFuel : 10 * p.remaining + method.level ≤ fuel + 1) : Returns (body call method) p := by
  cases method with
  | parseOr => exact hCall.chain .parseOr h hFuel (by decide) (fun _ => by simp [Method.level])
  | orLoop left => exact returns_orLoop hCall h hFuel left
  | parseAnd => exact hCall.chain .parseAnd h hFuel (by decide) (fun _ => by simp [Method.level])
  | andLoop left => exact returns_andLoop hCall h hFuel left
  | parseCompare => exact returns_parseCompare hCall h hFuel
  | inLoop args => exact returns_inLoop hCall h hFuel args
  | parseLike => exact returns_parseLike hCall h hFuel
  | parseAdd => exact hCall.chain .parseAdd h hFuel (by decide) (fun _ => by simp [Method.level])
  | addLoop left => exact returns_addLoop hCall h hFuel left
  | parseMul => exact hCall.chain .parseMul h hFuel (by decide) (fun _ => by simp [Method.level])
  | mulLoop left => exact returns_mulLoop hCall h hFuel left
  | parseUnary => exact returns_parseUnary hCall h hFuel
  | parsePrimary => exact returns_parsePrimary hCall h hFuel
  | argumentLoop name args => exact returns_argumentLoop hCall h hFuel name args

end Bodies

theorem bounded_parse (fuel : Nat) : Bounded fuel (parse fuel) := by
  induction fuel with
  | zero =>
    intro method p h hFuel
    have hInside := h.inside
    rw [remaining] at hFuel
    omega
  | succ fuel ih => exact fun method p h hFuel => returns_body ih h method hFuel

/-- Every expression, well formed or not, is parsed to an end inside the token list. -/
theorem returns_expression {p : Parser} (h : Ready p) : Returns expression p := by
  have hFuel : 10 * p.remaining + Method.level .parseOr ≤ p.depth := by
    rw [remaining, depth, Method.level]
    omega
  obtain ⟨value, p', hExec, hMoves, hPost⟩ := bounded_parse p.depth .parseOr p h hFuel
  exact ⟨value, p', (expression_eq p).trans hExec, hMoves, hPost⟩

end Parser

end TupleStone
