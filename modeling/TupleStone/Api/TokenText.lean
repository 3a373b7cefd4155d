import TupleStone.Api.Tokenize

/-! # Tokens and the text they are written as

Every token is written with a blank behind it. What the scanner recognises at the first byte of a token, and where it
stops, does not depend on what follows the blank, so a text made of written tokens is read back token by token.
-/

set_option autoImplicit false

namespace TupleStone

/-- The string with every single quote doubled. -/
def doubled (s : Bytes) : Bytes := s.flatMap (fun c => if c = 39 then [39, 39] else [c])

def sqlLiteral (s : Bytes) : Bytes := 39 :: (doubled s ++ [39])

namespace Tokenize

/-! ## The loop over a text whose beginning is known -/

theorem loop_blank {c : UInt8} {position : Nat} {rest : Bytes} {tokens : List Token} (hSpace : isSpace c = true)
    (h : loop 0 (position + 1) rest = .ok tokens) : loop 0 position (c :: rest) = .ok tokens := by
  rw [loop, step, if_pos hSpace]
  change (loop 0 (position + 1) rest >>= _) = _
  rw [h]
  rfl

theorem loop_token {c : UInt8} {position : Nat} {rest : Bytes} {tokens : List Token} (kind : TokenKind) (text : Bytes)
    (more : Nat) (hStep : step c rest = .ok ⟨some (kind, text), more⟩) (h : loop more (position + 1) rest = .ok tokens) :
    loop 0 position (c :: rest) = .ok (⟨kind, text, position⟩ :: tokens) := by
  rw [loop, hStep]
  change (loop more (position + 1) rest >>= _) = _
  rw [h]
  rfl

theorem loop_skip (skipped rest : Bytes) (position : Nat) :
    loop skipped.length position (skipped ++ rest) = loop 0 (position + skipped.length) rest := by
  induction skipped generalizing position with
  | nil => rfl
  | cons c skipped ih => rw [List.length_cons, List.cons_append, loop, ih, Nat.add_assoc, Nat.add_comm 1]

/-! ## Quoted literals -/

theorem quoted_doubled (s : Bytes) {rest : Bytes} (h : rest.head? ≠ some 39) :
    quoted 39 (doubled s ++ 39 :: rest) = some (s, (doubled s).length + 1) := by
  induction s with
  | nil =>
    cases rest with
    | nil => rfl
    | cons c rest =>
      have hQuote : c ≠ 39 := by
        rintro rfl
        exact h rfl
      have hEmpty : doubled [] = [] := rfl
      rw [hEmpty, List.nil_append, quoted, if_pos rfl]
      exact if_neg hQuote
  | cons c s ih =>
    by_cases hQuote : c = 39
    · subst hQuote
      have hDoubled : doubled (39 :: s) = 39 :: 39 :: doubled s := rfl
      rw [hDoubled, List.cons_append, List.cons_append]
      simp only [quoted, if_true, ih, Option.map_some, List.length_cons]
    · have hDoubled : doubled (c :: s) = c :: doubled s := by
        simp only [doubled, List.flatMap_cons, if_neg hQuote, List.singleton_append]
      rw [hDoubled, List.cons_append]
      unfold quoted
      rw [if_neg hQuote, ih]
      rfl

theorem step_quote (s : Bytes) {rest : Bytes} (h : rest.head? ≠ some 39) :
    step 39 (doubled s ++ 39 :: rest) = .ok ⟨some (.kString, s), (doubled s).length + 1⟩ := by
  simp only [step, quoted_doubled s h]
  rfl

end Tokenize

/-! ## Written tokens -/

/-- A token as it may be written: lower-case identifiers, numbers that begin as `Tokenize` requires, any string, the
operators and the punctuation. -/
inductive Lexeme where
  | word (first : UInt8) (rest : Bytes) (hFirst : (isLower first || first == 95) = true)
      (hRest : ∀ c ∈ rest, (isLower c || isDigit c || c == 95) = true)
  | number (first : UInt8) (rest : Bytes) (hFirst : (isDigit first || (first == 46 && rest.head?.any isDigit)) = true)
      (hRest : ∀ c ∈ rest, (isDigit c || c == 46) = true)
  | string (value : Bytes)
  | operator (text : Bytes) (hText : text ∈ operatorTexts)
  | punctuation (c : UInt8) (hByte : c ∈ ascii "(),.;")
  | parameter

inductive Blank where
  | space
  | newline

def Blank.byte : Blank → UInt8
  | space => 32
  | newline => 10

namespace Lexeme

def kind : Lexeme → TokenKind
  | word .. => .kWord
  | number .. => .kNumber
  | string _ => .kString
  | operator .. => .kOperator
  | punctuation .. => .kPunctuation
  | parameter => .kParameter

/-- The text of the token. -/
def text : Lexeme → Bytes
  | word first rest _ _ => first :: rest
  | number first rest _ _ => first :: rest
  | string value => value
  | operator text _ => text
  | punctuation c _ => [c]
  | parameter => ascii "?"

/-- The token in a SQL text. -/
def written : Lexeme → Bytes
  | string value => sqlLiteral value
  | lexeme => lexeme.text

end Lexeme

/-- The tokens written one after the other, each with a blank behind it. -/
def render (lexemes : List (Lexeme × Blank)) : Bytes :=
  lexemes.flatMap (fun lexeme => lexeme.1.written ++ [lexeme.2.byte])

/-- The tokens of a text that begins at an offset, each at the offset where it is written. -/
def tokensAt (offset : Nat) : List (Lexeme × Blank) → List Token
  | [] => [⟨.kEnd, [], offset⟩]
  | (lexeme, _) :: rest => ⟨lexeme.kind, lexeme.text, offset⟩ :: tokensAt (offset + (lexeme.written.length + 1)) rest

namespace Tokenize

theorem isSpace_blank : ∀ blank : Blank, isSpace blank.byte = true
  | .space => rfl
  | .newline => rfl

/-! ## What is recognised at the first byte of a token -/

theorem takeWhile_blank {p : UInt8 → Bool} {word : Bytes} (hWord : ∀ c ∈ word, p c = true) {c : UInt8} (hc : p c = false)
    (rest : Bytes) : (word ++ c :: rest).takeWhile p = word := by
  rw [List.takeWhile_append_of_pos hWord, List.takeWhile_cons, hc]
  exact List.append_nil _

theorem step_word {first : UInt8} {body : Bytes} (hFirst : (isLower first || first == 95) = true)
    (hBody : ∀ c ∈ body, (isLower c || isDigit c || c == 95) = true) (blank : Blank) (rest : Bytes) :
    step first (body ++ blank.byte :: rest) = .ok ⟨some (.kWord, first :: body), body.length⟩ := by
  have hBegins : ∀ c : UInt8, (isLower c || c == 95) = true →
      isSpace c = false ∧ c ≠ 45 ∧ (isAlpha c || c == 95) = true ∧ toLower c = c := forall_byte (by decide +kernel)
  have hGoesOn : ∀ c : UInt8, (isLower c || isDigit c || c == 95) = true → isWordByte c = true ∧ toLower c = c :=
    forall_byte (by decide +kernel)
  obtain ⟨hSpace, hComment, hAlpha, hLower⟩ := hBegins first hFirst
  have hStops : isWordByte blank.byte = false := by cases blank <;> rfl
  have hLowerBody : body.map toLower = body := by
    have hSame : body.map toLower = body.map id := List.map_congr_left (fun c hc => (hGoesOn c (hBody c hc)).2)
    rw [hSame, List.map_id]
  simp only [step, hSpace, hComment, hAlpha, false_and, if_true, if_false, Bool.false_eq_true,
    takeWhile_blank (fun c hc => (hGoesOn c (hBody c hc)).1) hStops, lower, List.map_cons, hLower, hLowerBody]

theorem step_number {first : UInt8} {body : Bytes} (hFirst : (isDigit first || (first == 46 && body.head?.any isDigit)) = true)
    (hBody : ∀ c ∈ body, (isDigit c || c == 46) = true) (blank : Blank) (rest : Bytes) :
    step first (body ++ blank.byte :: rest) = .ok ⟨some (.kNumber, first :: body), body.length⟩ := by
  have hBegins : ∀ c : UInt8, (isDigit c || c == 46) = true →
      isSpace c = false ∧ c ≠ 45 ∧ (isAlpha c || c == 95) = false := forall_byte (by decide +kernel)
  have hByte : (isDigit first || first == 46) = true := by
    cases hDigit : isDigit first with
    | true => rfl
    | false =>
      rw [hDigit, Bool.false_or, Bool.and_eq_true] at hFirst
      exact hFirst.1
  have hHead : (isDigit first || (first == 46 && (body ++ blank.byte :: rest).head?.any isDigit)) = true := by
    cases body with
    | nil =>
      rw [List.head?_nil, Option.any_none, Bool.and_false, Bool.or_false] at hFirst
      rw [hFirst, Bool.true_or]
    | cons c body => exact hFirst
  obtain ⟨hSpace, hComment, hAlpha⟩ := hBegins first hByte
  have hStops : isNumberByte blank.byte = false := by cases blank <;> rfl
  have hNumber : ((body ++ blank.byte :: rest).takeWhile isNumberByte) = body := takeWhile_blank hBody hStops rest
  simp only [step, hSpace, hComment, hAlpha, false_and, if_true, if_false, Bool.false_eq_true, hHead, hNumber]

theorem step_parameter (rest : Bytes) : step 63 rest = .ok ⟨some (.kParameter, ascii "?"), 0⟩ := rfl

theorem step_punctuation {c : UInt8} (h : c ∈ ascii "(),.;") (blank : Blank) (rest : Bytes) :
    step c (blank.byte :: rest) = .ok ⟨some (.kPunctuation, [c]), 0⟩ := by
  have hListed : ∀ c ∈ ascii "(),.;", c = 40 ∨ c = 41 ∨ c = 44 ∨ c = 46 ∨ c = 59 := by decide +kernel
  obtain rfl | rfl | rfl | rfl | rfl := hListed c h <;> cases blank <;> rfl

theorem step_operator_written {c : UInt8} {body : Bytes} (h : c :: body ∈ operatorTexts) (blank : Blank) (rest : Bytes) :
    step c (body ++ blank.byte :: rest) = .ok ⟨some (.kOperator, c :: body), body.length⟩ := by
  have hListed : ∀ text ∈ operatorTexts, ∀ c body, text = c :: body → ∀ blank : Blank, ∀ rest,
      step c (body ++ blank.byte :: rest) = .ok ⟨some (.kOperator, c :: body), body.length⟩ := by
    simp only [operatorTexts, List.forall_mem_cons]
    refine ⟨?_, ?_, ?_, ?_, ?_, ?_, ?_, ?_, ?_, ?_, ?_, ?_, ?_, by simp⟩ <;>
      (rintro c body ⟨⟩ blank rest; cases blank <;> rfl)
  exact hListed _ h c body rfl blank rest

/-- A written token is recognised at its first byte, and the scanner stops in front of the blank. -/
theorem step_written (lexeme : Lexeme) (blank : Blank) (rest : Bytes) : ∃ c body, lexeme.written = c :: body ∧
    step c (body ++ blank.byte :: rest) = .ok ⟨some (lexeme.kind, lexeme.text), body.length⟩ := by
  cases lexeme with
  | word first body hFirst hBody => exact ⟨first, body, rfl, step_word hFirst hBody blank rest⟩
  | number first body hFirst hBody => exact ⟨first, body, rfl, step_number hFirst hBody blank rest⟩
  | string value =>
    refine ⟨39, doubled value ++ [39], rfl, ?_⟩
    rw [List.append_assoc, List.length_append]
    have hByte : blank.byte ≠ 39 := by cases blank <;> decide
    exact step_quote value (fun h => hByte (Option.some.inj h))
  | operator text hText =>
    cases text with
    | nil => exact absurd hText (by decide)
    | cons c body => exact ⟨c, body, rfl, step_operator_written hText blank rest⟩
  | punctuation c hByte => exact ⟨c, [], rfl, step_punctuation hByte blank rest⟩
  | parameter => exact ⟨63, [], rfl, step_parameter _⟩

theorem loop_render (lexemes : List (Lexeme × Blank)) (offset : Nat) :
    loop 0 offset (render lexemes) = .ok (tokensAt offset lexemes) := by
  induction lexemes generalizing offset with
  | nil => rfl
  | cons lexeme lexemes ih =>
    obtain ⟨lexeme, blank⟩ := lexeme
    obtain ⟨c, body, hWritten, hStep⟩ := step_written lexeme blank (render lexemes)
    have hText : render ((lexeme, blank) :: lexemes) = c :: (body ++ blank.byte :: render lexemes) := by
      rw [render, List.flatMap_cons, hWritten, List.append_assoc]
      rfl
    have hRest : loop body.length (offset + 1) (body ++ blank.byte :: render lexemes) =
        .ok (tokensAt (offset + (lexeme.written.length + 1)) lexemes) := by
      rw [loop_skip]
      apply loop_blank (isSpace_blank blank)
      have hOffset : offset + 1 + body.length + 1 = offset + (lexeme.written.length + 1) := by
        rw [hWritten, List.length_cons]
        omega
      rw [hOffset, ih]
    rw [hText, tokensAt]
    exact loop_token lexeme.kind lexeme.text body.length hStep hRest

end Tokenize

/-- Tokenizing inverts writing. -/
theorem tokenize_render (lexemes : List (Lexeme × Blank)) : tokenize (render lexemes) = .ok (tokensAt 0 lexemes) :=
  Tokenize.loop_render lexemes 0

end TupleStone
