import TupleStone.Common.Status
import Mathlib.Data.List.Basic

/-! # Tokens of a SQL text

The loop of `Tokenize` is a recursion over the remaining bytes: an iteration recognises one token, a comment or
a blank at the first of them and says how many further bytes it consumed, which the recursion then skips.
-/

set_option autoImplicit false

namespace TupleStone

inductive TokenKind where
  | kWord
  | kNumber
  | kString
  | kOperator
  | kPunctuation
  | kParameter
  | kEnd
  deriving DecidableEq, Repr

structure Token where
  kind : TokenKind := .kEnd
  text : Bytes := []
  position : Nat := 0
  deriving DecidableEq, Repr

namespace Tokenize

def isWordByte (c : UInt8) : Bool := isAlnum c || c == 95

def isNumberByte (c : UInt8) : Bool := isDigit c || c == 46

/-- The value of a quoted literal after its opening quote, with the bytes up to and including the closing one. -/
def quoted (quote : UInt8) : Bytes → Option (Bytes × Nat)
  | [] => none
  | c :: rest =>
    if c = quote then
      match rest with
      | [] => some ([], 1)
      | c' :: rest' =>
        if c' = quote then (quoted quote rest').map (fun read => (quote :: read.1, read.2 + 2)) else some ([], 1)
    else (quoted quote rest).map (fun read => (c :: read.1, read.2 + 1))

def twoByteOperators : List Bytes := [ascii "<=", ascii ">=", ascii "!=", ascii "<>"]

/-- What one iteration of the loop does at a byte: skip, or push a token; and the bytes consumed after this one. -/
structure Step where
  token : Option (TokenKind × Bytes)
  more : Nat
  deriving DecidableEq, Repr

def step (c : UInt8) (rest : Bytes) : Except Status Step :=
  if isSpace c then .ok ⟨none, 0⟩
  else if c = 45 ∧ rest.head? = some 45 then .ok ⟨none, 1 + (rest.tail.takeWhile (· != 10)).length⟩
  else if isAlpha c || c == 95 then
    let word := rest.takeWhile isWordByte
    .ok ⟨some (.kWord, lower (c :: word)), word.length⟩
  else if isDigit c || (c == 46 && rest.head?.any isDigit) then
    let number := rest.takeWhile isNumberByte
    .ok ⟨some (.kNumber, c :: number), number.length⟩
  else if c = 39 ∨ c = 34 then
    match quoted c rest with
    | none => .error (.syntaxError (ascii "unterminated quoted literal"))
    | some (value, more) => .ok ⟨some (if c = 39 then (.kString, value) else (.kWord, lower value)), more⟩
  else if c = 63 then .ok ⟨some (.kParameter, ascii "?"), 0⟩
  else if twoByteOperators.contains (c :: rest.take 1) then .ok ⟨some (.kOperator, c :: rest.take 1), 1⟩
  else if (ascii "=<>+-*/%!").contains c then .ok ⟨some (.kOperator, [c]), 0⟩
  else if (ascii "(),.;").contains c then .ok ⟨some (.kPunctuation, [c]), 0⟩
  else .error (.syntaxError (ascii "unexpected character in SQL"))

/-- The loop at byte `position`, of whose bytes the first `skip` belong to the last token. -/
def loop : (skip position : Nat) → Bytes → Except Status (List Token)
  | _, position, [] => .ok [⟨.kEnd, [], position⟩]
  | skip + 1, position, _ :: rest => loop skip (position + 1) rest
  | 0, position, c :: rest => do
    let read ← step c rest
    let tokens ← loop read.more (position + 1) rest
    pure ((read.token.map (fun token => (⟨token.1, token.2, position⟩ : Token))).toList ++ tokens)

end Tokenize

def tokenize (sql : Bytes) : Except Status (List Token) := Tokenize.loop 0 0 sql

example : (tokenize (ascii "SELECT a<=1.5 -- x")).map (List.map (fun token => (token.kind, token.text))) =
    .ok [(.kWord, ascii "select"), (.kWord, ascii "a"), (.kOperator, ascii "<="), (.kNumber, ascii "1.5"), (.kEnd, [])] := by
  decide +kernel

namespace Tokenize

theorem step_kind {c : UInt8} {rest : Bytes} {read : Step} (h : step c rest = .ok read) :
    ∀ token, read.token = some token → token.1 ≠ .kEnd := by
  rw [step] at h
  split at h
  · cases h; simp
  split at h
  · cases h; simp
  split at h
  · cases h; simp
  split at h
  · cases h; simp
  split at h
  · split at h
    · cases h
    · cases h
      split <;> simp
  split at h
  · cases h; simp
  split at h
  · cases h; simp
  split at h
  · cases h; simp
  split at h
  · cases h; simp
  · cases h

theorem loop_cons {position : Nat} {c : UInt8} {rest : Bytes} {tokens : List Token}
    (h : loop 0 position (c :: rest) = .ok tokens) :
    ∃ read more, step c rest = .ok read ∧ loop read.more (position + 1) rest = .ok more ∧
      tokens = (read.token.map (fun token => (⟨token.1, token.2, position⟩ : Token))).toList ++ more := by
  rw [loop] at h
  cases hStep : step c rest with
  | error status =>
    rw [hStep] at h
    cases h
  | ok read =>
    rw [hStep] at h
    change (loop read.more (position + 1) rest >>= _) = _ at h
    cases hRest : loop read.more (position + 1) rest with
    | error status =>
      rw [hRest] at h
      cases h
    | ok more =>
      rw [hRest] at h
      cases h
      exact ⟨read, more, rfl, hRest, rfl⟩

theorem loop_shape {skip position : Nat} {sql : Bytes} {tokens : List Token} (h : loop skip position sql = .ok tokens) :
    ∃ body last, tokens = body ++ [⟨.kEnd, [], last⟩] ∧ ∀ token ∈ body, token.kind ≠ .kEnd := by
  induction sql generalizing skip position tokens with
  | nil =>
    cases skip <;> (cases h; exact ⟨[], _, rfl, by simp⟩)
  | cons c rest ih =>
    cases skip with
    | succ skip => exact ih h
    | zero =>
      obtain ⟨read, more, hStep, hRest, rfl⟩ := loop_cons h
      obtain ⟨body, last, rfl, hBody⟩ := ih hRest
      refine ⟨(read.token.map (fun token => (⟨token.1, token.2, position⟩ : Token))).toList ++ body, last, ?_, ?_⟩
      · rw [List.append_assoc]
      · intro token hToken
        obtain hHead | hTail := List.mem_append.mp hToken
        · rw [Option.mem_toList, Option.map_eq_some_iff] at hHead
          obtain ⟨pair, hPair, rfl⟩ := hHead
          exact step_kind hStep pair hPair
        · exact hBody token hTail

/-- What holds of the token that every step pushes holds of every token. -/
theorem loop_forall {P : TokenKind → Bytes → Prop} (hEnd : P .kEnd [])
    (hStep : ∀ c rest read token, step c rest = .ok read → read.token = some token → P token.1 token.2)
    {skip position : Nat} {sql : Bytes} {tokens : List Token} (h : loop skip position sql = .ok tokens) :
    ∀ token ∈ tokens, P token.kind token.text := by
  induction sql generalizing skip position tokens with
  | nil => cases skip <;> (cases h; intro token hToken; cases List.mem_singleton.mp hToken; exact hEnd)
  | cons c rest ih =>
    cases skip with
    | succ skip => exact ih h
    | zero =>
      obtain ⟨read, more, hRead, hRest, rfl⟩ := loop_cons h
      intro token hToken
      obtain hHead | hTail := List.mem_append.mp hToken
      · rw [Option.mem_toList, Option.map_eq_some_iff] at hHead
        obtain ⟨pair, hPair, rfl⟩ := hHead
        exact hStep c rest read pair hRead hPair
      · exact ih hRest token hTail

theorem step_error {c : UInt8} {rest : Bytes} {status : Status} (h : step c rest = .error status) : status ≠ .ok := by
  rintro rfl
  simp only [step, Status.syntaxError] at h
  grind

theorem loop_error {skip position : Nat} {sql : Bytes} {status : Status} (h : loop skip position sql = .error status) :
    status ≠ .ok := by
  induction sql generalizing skip position with
  | nil => cases skip <;> cases h
  | cons c rest ih =>
    cases skip with
    | succ skip => exact ih h
    | zero =>
      rw [loop] at h
      cases hStep : step c rest with
      | error failure =>
        rw [hStep] at h
        cases h
        exact step_error hStep
      | ok read =>
        rw [hStep] at h
        change (loop read.more (position + 1) rest >>= _) = _ at h
        cases hRest : loop read.more (position + 1) rest with
        | error failure =>
          rw [hRest] at h
          cases h
          exact ih hRest
        | ok more =>
          rw [hRest] at h
          cases h

end Tokenize

/-- The end token is the last one and only the last one. -/
theorem tokenize_shape {sql : Bytes} {tokens : List Token} (h : tokenize sql = .ok tokens) :
    ∃ body last, tokens = body ++ [⟨.kEnd, [], last⟩] ∧ ∀ token ∈ body, token.kind ≠ .kEnd := Tokenize.loop_shape h

def operatorTexts : List Bytes :=
  [ascii "<=", ascii ">=", ascii "!=", ascii "<>", ascii "=", ascii "<", ascii ">", ascii "+", ascii "-", ascii "*",
   ascii "/", ascii "%", ascii "!"]

theorem Tokenize.step_operator {c : UInt8} {rest : Bytes} {read : Step} {token : TokenKind × Bytes}
    (h : step c rest = .ok read) (hToken : read.token = some token) (hKind : token.1 = .kOperator) :
    token.2 ∈ operatorTexts := by
  rw [step] at h
  split at h
  · cases h; cases hToken
  split at h
  · cases h; cases hToken
  split at h
  · cases h; cases hToken; cases hKind
  split at h
  · cases h; cases hToken; cases hKind
  split at h
  · split at h
    · cases h
    · cases h; cases hToken
      split at hKind <;> cases hKind
  split at h
  · cases h; cases hToken; cases hKind
  split at h
  · rename_i hTwo
    cases h; cases hToken
    have hListed : ∀ text ∈ twoByteOperators, text ∈ operatorTexts := by decide
    exact hListed _ (List.contains_iff_mem.mp hTwo)
  split at h
  · rename_i hOne
    cases h; cases hToken
    have hListed : ∀ byte ∈ ascii "=<>+-*/%!", [byte] ∈ operatorTexts := by decide +kernel
    exact hListed _ (List.contains_iff_mem.mp hOne)
  split at h
  · cases h; cases hToken; cases hKind
  · cases h

theorem tokenize_operator {sql : Bytes} {tokens : List Token} (h : tokenize sql = .ok tokens) :
    ∀ token ∈ tokens, token.kind = .kOperator → token.text ∈ operatorTexts :=
  Tokenize.loop_forall (P := fun kind text => kind = .kOperator → text ∈ operatorTexts) nofun
    (fun _ _ _ _ hStep hToken => Tokenize.step_operator hStep hToken) h

theorem tokenize_error {sql : Bytes} {status : Status} (h : tokenize sql = .error status) : status ≠ .ok :=
  Tokenize.loop_error h

end TupleStone
