import TupleStone.Api.Tokenize
import Mathlib.Data.List.Induction

/-! # The standalone lexer

Line and column are kept beside the text. Beside each token stands the offset at which it starts, the loop's `start`.
-/

set_option autoImplicit false

namespace TupleStone

structure SourcePos where
  line : UInt32 := 0
  column : UInt32 := 0
  deriving DecidableEq, Repr

inductive SqlTokenKind where
  | kWord
  | kNumber
  | kString
  | kOperator
  | kPunctuation
  | kParameter
  deriving DecidableEq, Repr

structure SqlToken where
  kind : SqlTokenKind
  text : Bytes
  pos : SourcePos
  deriving DecidableEq, Repr

namespace LexSql

open Tokenize (isWordByte isNumberByte)

/-- What one iteration does at a byte: the token pushed, the next line and column, and the further bytes consumed. -/
structure Lexed where
  token : Option (SqlTokenKind × Bytes)
  line : UInt32
  column : UInt32
  more : Nat

def step (line column : UInt32) (c : UInt8) (rest : Bytes) : Except Status Lexed :=
  if isSpace c then
    if c = 10 then .ok ⟨none, line + 1, 1, 0⟩ else .ok ⟨none, line, column + 1, 0⟩
  else if isAlpha c || c == 95 then
    let word := c :: rest.takeWhile isWordByte
    .ok ⟨some (.kWord, word), line, column + UInt32.ofNat word.length, word.length - 1⟩
  else if isDigit c then
    let number := c :: rest.takeWhile isNumberByte
    .ok ⟨some (.kNumber, number), line, column + UInt32.ofNat number.length, number.length - 1⟩
  else if c = 39 ∨ c = 34 then
    let value := rest.takeWhile (· != c)
    if value.length = rest.length then .error (.syntaxError (ascii "unterminated quoted literal"))
    else
      .ok ⟨some (if c = 39 then .kString else .kWord, value), line, column + UInt32.ofNat (value.length + 2), value.length + 1⟩
  else if c = 63 then .ok ⟨some (.kParameter, ascii "?"), line, column + 1, 0⟩
  else if (ascii "(),;=<>+-*/%").contains c then
    .ok ⟨some (if (ascii "(),;").contains c then .kPunctuation else .kOperator, [c]), line, column + 1, 0⟩
  else .error (.syntaxError (ascii "unexpected character"))

/-- The loop at an offset, of whose bytes the first `skip` belong to the last token. -/
def loop : (skip offset : Nat) → (line column : UInt32) → Bytes → Except (Nat × Status × SourcePos) (List (Nat × SqlToken))
  | _, _, _, _, [] => .ok []
  | skip + 1, offset, line, column, _ :: rest => loop skip (offset + 1) line column rest
  | 0, offset, line, column, c :: rest =>
    match step line column c rest with
    | .error status => .error (offset, status, ⟨line, column⟩)
    | .ok read =>
      match loop read.more (offset + 1) read.line read.column rest with
      | .error e => .error e
      | .ok tokens => .ok ((read.token.map (fun t => (offset, (⟨t.1, t.2, ⟨line, column⟩⟩ : SqlToken)))).toList ++ tokens)

end LexSql

def lexSql (sql : Bytes) : Except (Status × SourcePos) (List SqlToken) :=
  match LexSql.loop 0 0 1 1 sql with
  | .error (_, e) => .error e
  | .ok tokens => .ok (tokens.map Prod.snd)

namespace LexSql

/-- The offsets and positions reported: those of the tokens, or of the error. -/
def reports : Except (Nat × Status × SourcePos) (List (Nat × SqlToken)) → List (Nat × SourcePos)
  | .error (start, _, pos) => [(start, pos)]
  | .ok tokens => tokens.map (fun t => (t.1, t.2.pos))

/-! ## True positions -/

def trueLine (before : Bytes) : Nat := 1 + before.count 10

def trueColumn (before : Bytes) : Nat := 1 + (before.reverse.takeWhile (· != 10)).length

/-- The position is that of the byte behind these. -/
def At (before : Bytes) (pos : SourcePos) : Prop :=
  pos.line.toNat = trueLine before ∧ pos.column.toNat = trueColumn before

/-- The quote that is open behind a byte. -/
def quoteStep : Option UInt8 → UInt8 → Option UInt8
  | none, c => if c = 39 ∨ c = 34 then some c else none
  | some quote, c => if c = quote then none else some quote

def openQuote (before : Bytes) : Option UInt8 := before.foldl quoteStep none

def NewlineInQuotes (before : Bytes) : Prop := ∃ front back, before = front ++ 10 :: back ∧ openQuote front ≠ none

/-! ## What the loop counts -/

/-- Lines and columns as the loop counts them, without bound, and the newlines that it misses. -/
structure Count where
  quote : Option UInt8 := none
  line : Nat := 1
  column : Nat := 1
  missed : Nat := 0

def Count.next (n : Count) (c : UInt8) : Count :=
  match n.quote with
  | none => if c = 10 then ⟨none, n.line + 1, 1, n.missed⟩ else ⟨quoteStep none c, n.line, n.column + 1, n.missed⟩
  | some quote => ⟨quoteStep (some quote) c, n.line, n.column + 1, if c = 10 then n.missed + 1 else n.missed⟩

def count (before : Bytes) : Count := before.foldl Count.next {}

theorem count_snoc (before : Bytes) (c : UInt8) : count (before ++ [c]) = (count before).next c := by
  rw [count, List.foldl_append]
  rfl

theorem openQuote_snoc (before : Bytes) (c : UInt8) : openQuote (before ++ [c]) = quoteStep (openQuote before) c := by
  rw [openQuote, List.foldl_append]
  rfl

theorem quote_next (n : Count) (c : UInt8) : (n.next c).quote = quoteStep n.quote c := by
  obtain ⟨quote, line, column, missed⟩ := n
  cases quote with
  | none =>
    rw [Count.next]
    dsimp only
    split
    · rename_i hNewline
      rw [hNewline]
      rfl
    · rfl
  | some quote => rfl

theorem quote_count (before : Bytes) : (count before).quote = openQuote before := by
  induction before using List.reverseRecOn with
  | nil => rfl
  | append_singleton before c ih => rw [count_snoc, openQuote_snoc, quote_next, ih]

theorem newlineInQuotes_snoc (before : Bytes) (c : UInt8) :
    NewlineInQuotes (before ++ [c]) ↔ NewlineInQuotes before ∨ (c = 10 ∧ openQuote before ≠ none) := by
  constructor
  · rintro ⟨front, back, hSplit, hOpen⟩
    rcases List.eq_nil_or_concat back with rfl | ⟨back, last, rfl⟩
    · obtain ⟨rfl, hLast⟩ := List.append_inj' hSplit rfl
      cases hLast
      exact Or.inr ⟨rfl, hOpen⟩
    · rw [List.concat_eq_append, ← List.cons_append, ← List.append_assoc] at hSplit
      exact Or.inl ⟨front, back, (List.append_inj' hSplit rfl).1, hOpen⟩
  · rintro (⟨front, back, rfl, hOpen⟩ | ⟨rfl, hOpen⟩)
    · exact ⟨front, back ++ [c], by rw [List.append_assoc, List.cons_append], hOpen⟩
    · exact ⟨before, [], rfl, hOpen⟩

theorem missed_eq_zero_iff (before : Bytes) : (count before).missed = 0 ↔ ¬ NewlineInQuotes before := by
  induction before using List.reverseRecOn with
  | nil =>
    constructor
    · rintro - ⟨front, back, hSplit, -⟩
      cases front <;> cases hSplit
    · exact fun _ => rfl
  | append_singleton before c ih =>
    rw [newlineInQuotes_snoc, not_or, ← ih, ← quote_count, count_snoc, Count.next]
    cases hQuote : (count before).quote with
    | none =>
      dsimp only
      split <;> simp
    | some quote =>
      dsimp only
      split <;> simp_all

/-- Every newline is counted or missed. -/
theorem trueLine_eq (before : Bytes) : trueLine before = (count before).line + (count before).missed := by
  induction before using List.reverseRecOn with
  | nil => rfl
  | append_singleton before c ih =>
    rw [trueLine, List.count_append, ← Nat.add_assoc]
    rw [trueLine] at ih
    rw [ih, count_snoc, Count.next]
    cases (count before).quote with
    | none =>
      dsimp only
      split
      · rename_i hNewline
        simp [hNewline]
        omega
      · rename_i hNewline
        simp [Ne.symm hNewline, List.count_singleton, hNewline]
    | some quote =>
      dsimp only
      split
      · rename_i hNewline
        simp [hNewline, Nat.add_assoc]
      · rename_i hNewline
        simp [List.count_singleton, hNewline]

theorem trueColumn_snoc (before : Bytes) (c : UInt8) :
    trueColumn (before ++ [c]) = if c = 10 then 1 else trueColumn before + 1 := by
  rw [trueColumn, List.reverse_append]
  change 1 + ((c :: before.reverse).takeWhile (· != 10)).length = _
  rw [List.takeWhile_cons]
  split
  · rename_i hOther
    rw [if_neg (bne_iff_ne.mp hOther), List.length_cons, trueColumn]
    omega
  · rename_i hNewline
    rw [if_pos (by simpa using hNewline)]
    rfl

/-- While no newline is missed the column counted is the true one. -/
theorem trueColumn_eq {before : Bytes} (h : (count before).missed = 0) : trueColumn before = (count before).column := by
  induction before using List.reverseRecOn with
  | nil => rfl
  | append_singleton before c ih =>
    rw [trueColumn_snoc]
    rw [count_snoc, Count.next] at h ⊢
    cases hQuote : (count before).quote with
    | none =>
      rw [hQuote] at h
      dsimp only at h ⊢
      split
      · rfl
      · rename_i hNewline
        rw [if_neg hNewline] at h
        rw [ih h]
    | some quote =>
      rw [hQuote] at h
      dsimp only at h ⊢
      split
      · rename_i hNewline
        rw [if_pos hNewline] at h
        cases h
      · rename_i hNewline
        rw [if_neg hNewline] at h
        rw [ih h]

end LexSql

end TupleStone
