import TupleStone.Sql.Lexer
import Mathlib.Data.List.Forall2
import Mathlib.Data.List.TakeWhile

/-! # Positions that are true

What the lexer reports is what its loop counts, which is the truth until a quoted text has a newline.
-/

set_option autoImplicit false

namespace TupleStone.LexSql

open Tokenize (isWordByte isNumberByte)

/-- The 32-bit variables of the loop outside quotes. -/
structure Shows (n : Count) (line column : UInt32) : Prop where
  quote : n.quote = none
  line : line = UInt32.ofNat n.line
  column : column = UInt32.ofNat n.column

theorem foldl_next_plain {n : Count} (hQuote : n.quote = none) {xs : Bytes} (h : ∀ c ∈ xs, c ≠ 10 ∧ c ≠ 39 ∧ c ≠ 34) :
    xs.foldl Count.next n = { n with column := n.column + xs.length } := by
  induction xs generalizing n with
  | nil => rfl
  | cons c xs ih =>
    obtain ⟨⟨hNewline, hSingle, hDouble⟩, hRest⟩ := List.forall_mem_cons.mp h
    have hNext : n.next c = { n with column := n.column + 1 } := by
      obtain ⟨quote, line, column, missed⟩ := n
      cases hQuote
      simp [Count.next, quoteStep, hNewline, hSingle, hDouble]
    have hOpen : (n.next c).quote = none := by rw [hNext]; exact hQuote
    rw [List.foldl_cons, ih hOpen hRest, hNext, List.length_cons]
    simp only [Nat.add_assoc, Nat.add_comm 1]

theorem foldl_next_inside {n : Count} {quote : UInt8} (hQuote : n.quote = some quote) {xs : Bytes} (h : ∀ c ∈ xs, c ≠ quote) :
    (xs.foldl Count.next n).quote = some quote ∧ (xs.foldl Count.next n).line = n.line ∧
      (xs.foldl Count.next n).column = n.column + xs.length := by
  induction xs generalizing n with
  | nil => exact ⟨hQuote, rfl, rfl⟩
  | cons c xs ih =>
    obtain ⟨hOther, hRest⟩ := List.forall_mem_cons.mp h
    have hNext : (n.next c).quote = some quote ∧ (n.next c).line = n.line ∧ (n.next c).column = n.column + 1 := by
      obtain ⟨open?, line, column, missed⟩ := n
      cases hQuote
      simp [Count.next, quoteStep, hOther]
    obtain ⟨hOpen, hLine, hColumn⟩ := ih hNext.1 hRest
    rw [List.foldl_cons]
    exact ⟨hOpen, hLine.trans hNext.2.1, by rw [hColumn, hNext.2.2, List.length_cons]; omega⟩

/-- Bytes of a word or a number are on the line and open no quote. -/
theorem word_plain : ∀ c, isWordByte c = true → c ≠ 10 ∧ c ≠ 39 ∧ c ≠ 34 := forall_byte (by decide +kernel)

theorem number_plain : ∀ c, isNumberByte c = true → c ≠ 10 ∧ c ≠ 39 ∧ c ≠ 34 := forall_byte (by decide +kernel)

theorem letter_word : ∀ c, (isAlpha c || c == 95) = true → isWordByte c = true := forall_byte (by decide +kernel)

theorem digit_number : ∀ c, isDigit c = true → isNumberByte c = true := forall_byte (by decide +kernel)

theorem space_plain : ∀ c, isSpace c = true → c ≠ 39 ∧ c ≠ 34 := forall_byte (by decide +kernel)

theorem operator_plain : ∀ c ∈ ascii "(),;=<>+-*/%", c ≠ 10 ∧ c ≠ 39 ∧ c ≠ 34 := by
  intro c hc
  have hAll : ∀ c, (ascii "(),;=<>+-*/%").contains c = true → c ≠ 10 ∧ c ≠ 39 ∧ c ≠ 34 := forall_byte (by decide +kernel)
  exact hAll c (List.contains_iff_mem.mpr hc)

theorem Shows.plain {n : Count} {line column : UInt32} (h : Shows n line column) {xs : Bytes}
    (hPlain : ∀ c ∈ xs, c ≠ 10 ∧ c ≠ 39 ∧ c ≠ 34) : Shows (xs.foldl Count.next n) line (column + UInt32.ofNat xs.length) := by
  rw [foldl_next_plain h.quote hPlain]
  constructor
  · exact h.quote
  · exact h.line
  · rw [h.column, UInt32.ofNat_add]

/-- A run of bytes of one kind is what is taken and skipped. -/
theorem Shows.takeWhile {n : Count} {line column : UInt32} (h : Shows n line column) {p : UInt8 → Bool} {c : UInt8} {rest : Bytes}
    (hFirst : p c = true) (hPlain : ∀ c, p c = true → c ≠ 10 ∧ c ≠ 39 ∧ c ≠ 34) :
    Shows ((c :: rest.take ((c :: rest.takeWhile p).length - 1)).foldl Count.next n) line
      (column + UInt32.ofNat (c :: rest.takeWhile p).length) := by
  have hTaken : rest.take ((c :: rest.takeWhile p).length - 1) = rest.takeWhile p :=
    (List.prefix_iff_eq_take.mp (List.takeWhile_prefix p)).symm
  rw [hTaken]
  apply h.plain
  intro d hd
  rcases List.mem_cons.mp hd with rfl | hd
  · exact hPlain d hFirst
  · exact hPlain d (List.mem_takeWhile_imp hd)

/-- What an iteration counts is what it consumes. -/
theorem Shows.step {n : Count} {line column : UInt32} (h : Shows n line column) {c : UInt8} {rest : Bytes} {read : Lexed}
    (hStep : step line column c rest = .ok read) :
    Shows ((c :: rest.take read.more).foldl Count.next n) read.line read.column ∧ read.more ≤ rest.length := by
  have hOne : ∀ d : UInt8, d ≠ 10 ∧ d ≠ 39 ∧ d ≠ 34 → Shows ([d].foldl Count.next n) line (column + 1) :=
    fun d hd => h.plain (by simpa using hd)
  rw [LexSql.step] at hStep
  split at hStep
  · rename_i hSpace
    obtain ⟨hSingle, hDouble⟩ := space_plain c hSpace
    split at hStep
    · rename_i hNewline
      cases hStep
      subst hNewline
      refine ⟨?_, Nat.zero_le _⟩
      have hNext : n.next 10 = ⟨none, n.line + 1, 1, n.missed⟩ := by rw [Count.next, h.quote]; rfl
      rw [List.take_zero, List.foldl_cons, List.foldl_nil, hNext]
      exact ⟨rfl, by rw [h.line, UInt32.ofNat_add]; rfl, rfl⟩
    · rename_i hNewline
      cases hStep
      exact ⟨hOne c ⟨hNewline, hSingle, hDouble⟩, Nat.zero_le _⟩
  split at hStep
  · rename_i hLetter
    cases hStep
    exact ⟨h.takeWhile (letter_word c hLetter) word_plain, (List.takeWhile_prefix _).length_le⟩
  split at hStep
  · rename_i hDigit
    cases hStep
    exact ⟨h.takeWhile (digit_number c hDigit) number_plain, (List.takeWhile_prefix _).length_le⟩
  split at hStep
  · rename_i hQuote
    dsimp only at hStep
    split at hStep
    · cases hStep
    · rename_i hClosed
      cases hStep
      -- The closing quote stands behind the value.
      obtain ⟨behind, hRest⟩ : ∃ behind, rest = rest.takeWhile (· != c) ++ c :: behind := by
        cases hDrop : rest.dropWhile (· != c) with
        | nil =>
          have hWhole := List.takeWhile_append_dropWhile (p := (· != c)) (l := rest)
          rw [hDrop, List.append_nil] at hWhole
          exact absurd (congrArg List.length hWhole) hClosed
        | cons d behind =>
          have hHead := List.head?_dropWhile_not (· != c) rest
          rw [hDrop] at hHead
          have hSame : d = c := by simpa using hHead
          refine ⟨behind, ?_⟩
          rw [← hSame, ← hDrop, hSame, List.takeWhile_append_dropWhile]
      have hValue : ∀ d ∈ rest.takeWhile (· != c), d ≠ c := by
        intro d hd
        have hOther := List.mem_takeWhile_imp hd
        exact bne_iff_ne.mp hOther
      generalize rest.takeWhile (· != c) = value at hRest hValue hClosed
      subst hRest
      have hTaken : (value ++ c :: behind).take (value.length + 1) = value ++ [c] := by
        rw [List.take_append, List.take_of_length_le (by omega), Nat.add_sub_cancel_left]
        rfl
      have hOpened : (n.next c).quote = some c ∧ (n.next c).line = n.line ∧ (n.next c).column = n.column + 1 := by
        obtain ⟨open?, line, column, missed⟩ := n
        cases h.quote
        have hNewline : c ≠ 10 := by
          rcases hQuote with rfl | rfl <;> decide
        simp [Count.next, quoteStep, hNewline, hQuote]
      obtain ⟨hInside, hLine, hColumn⟩ := foldl_next_inside hOpened.1 hValue
      dsimp only
      rw [hTaken, List.foldl_cons, List.foldl_append]
      generalize value.foldl Count.next (n.next c) = inside at hInside hLine hColumn
      have hEnd : ([c].foldl Count.next inside).quote = none ∧ ([c].foldl Count.next inside).line = inside.line ∧
          ([c].foldl Count.next inside).column = inside.column + 1 := by
        obtain ⟨open?, line, column, missed⟩ := inside
        cases hInside
        simp [Count.next, quoteStep]
      refine ⟨⟨hEnd.1, ?_, ?_⟩, ?_⟩
      · rw [hEnd.2.1, hLine, hOpened.2.1, h.line]
      · rw [hEnd.2.2, hColumn, hOpened.2.2, h.column, ← UInt32.ofNat_add]
        congr 1
        omega
      · rw [List.length_append, List.length_cons]
        omega
  split at hStep
  · rename_i hParameter
    cases hStep
    exact ⟨hOne c (by rw [hParameter]; decide), Nat.zero_le _⟩
  split at hStep
  · rename_i hOperator
    cases hStep
    exact ⟨hOne c (operator_plain c (List.contains_iff_mem.mp hOperator)), Nat.zero_le _⟩
  · cases hStep

/-- Every report shows what was counted before its offset. -/
theorem shows_reports (bytes : Bytes) (skip offset : Nat) (line column : UInt32) (before : Bytes)
    (hShows : Shows ((bytes.take skip).foldl Count.next (count before)) line column) (hSkip : skip ≤ bytes.length) :
    ∀ r ∈ reports (loop skip offset line column bytes), ∃ front back, bytes = front ++ back ∧ r.1 = offset + front.length ∧
      Shows (count (before ++ front)) r.2.line r.2.column := by
  induction bytes generalizing skip offset line column before with
  | nil =>
    intro r hr
    rw [loop] at hr
    cases hr
  | cons c rest ih =>
    -- What a later report says of the rest it says of the bytes from here.
    have hLater : ∀ skip line column, Shows ((rest.take skip).foldl Count.next (count (before ++ [c]))) line column →
        skip ≤ rest.length → ∀ r ∈ reports (loop skip (offset + 1) line column rest), ∃ front back,
          c :: rest = front ++ back ∧ r.1 = offset + front.length ∧ Shows (count (before ++ front)) r.2.line r.2.column := by
      intro skip line column hShows hSkip r hr
      obtain ⟨front, back, hSplit, hStart, hCount⟩ := ih skip (offset + 1) line column (before ++ [c]) hShows hSkip r hr
      refine ⟨c :: front, back, by rw [hSplit, List.cons_append], by rw [hStart, List.length_cons]; omega, ?_⟩
      rwa [List.append_assoc] at hCount
    have hHere : Shows (count before) line column → ∃ front back, c :: rest = front ++ back ∧ offset = offset + front.length ∧
        Shows (count (before ++ front)) line column :=
      fun h => ⟨[], c :: rest, rfl, rfl, by rwa [List.append_nil]⟩
    cases skip with
    | succ skip =>
      intro r hr
      rw [loop] at hr
      rw [List.take_succ_cons, List.foldl_cons, ← count_snoc] at hShows
      exact hLater skip line column hShows (Nat.le_of_succ_le_succ hSkip) r hr
    | zero =>
      intro r hr
      rw [loop] at hr
      cases hStep : step line column c rest with
      | error status =>
        rw [hStep] at hr
        rw [List.mem_singleton.mp hr]
        exact hHere hShows
      | ok read =>
        rw [hStep] at hr
        obtain ⟨hNext, hMore⟩ := hShows.step hStep
        rw [List.foldl_cons] at hNext
        change Shows ((rest.take read.more).foldl Count.next ((count before).next c)) read.line read.column at hNext
        rw [← count_snoc] at hNext
        have hRest := hLater read.more read.line read.column hNext hMore
        dsimp only at hr
        cases hLoop : loop read.more (offset + 1) read.line read.column rest with
        | error e =>
          rw [hLoop] at hr hRest
          exact hRest r hr
        | ok tokens =>
          rw [hLoop] at hr hRest
          rw [reports, List.map_append, List.mem_append] at hr
          rcases hr with hOwn | hBehind
          · cases hToken : read.token with
            | none =>
              rw [hToken] at hOwn
              cases hOwn
            | some token =>
              rw [hToken] at hOwn
              rw [List.mem_singleton.mp hOwn]
              exact hHere hShows
          · exact hRest r hBehind

theorem Shows.at_iff {before : Bytes} {pos : SourcePos} (h : Shows (count before) pos.line pos.column) :
    At before pos ↔ ¬ NewlineInQuotes before ∧ trueLine before < 2 ^ 32 ∧ trueColumn before < 2 ^ 32 := by
  have hLine : pos.line.toNat = (count before).line % 2 ^ 32 := by rw [h.line]; exact UInt32.toNat_ofNat'
  have hColumn : pos.column.toNat = (count before).column % 2 ^ 32 := by rw [h.column]; exact UInt32.toNat_ofNat'
  have hTrue := trueLine_eq before
  rw [At, hLine, hColumn, ← missed_eq_zero_iff]
  constructor
  · rintro ⟨hSameLine, hSameColumn⟩
    have hMod := Nat.mod_le (count before).line (2 ^ 32)
    have hBound := Nat.mod_lt (count before).line (Nat.two_pow_pos 32)
    have hColumnBound := Nat.mod_lt (count before).column (Nat.two_pow_pos 32)
    exact ⟨by omega, by omega, by omega⟩
  · rintro ⟨hMissed, hLineBound, hColumnBound⟩
    rw [trueColumn_eq hMissed] at hColumnBound ⊢
    rw [hTrue, hMissed] at hLineBound ⊢
    exact ⟨Nat.mod_eq_of_lt hLineBound, Nat.mod_eq_of_lt hColumnBound⟩

/-! ## Whole texts -/

/-- The offsets of the tokens, or of what an error is about. -/
def starts (sql : Bytes) : List Nat := (reports (loop 0 0 1 1 sql)).map Prod.fst

def positions : Except (Status × SourcePos) (List SqlToken) → List SourcePos
  | .error e => [e.2]
  | .ok tokens => tokens.map SqlToken.pos

theorem positions_lexSql (sql : Bytes) : positions (lexSql sql) = (reports (loop 0 0 1 1 sql)).map Prod.snd := by
  rw [lexSql]
  cases loop 0 0 1 1 sql with
  | error e => rfl
  | ok tokens => simp [positions, reports]

/-- Every position that the lexer gives is that of the byte it is about. -/
def TruePositions (sql : Bytes) : Prop :=
  List.Forall₂ (fun start pos => At (sql.take start) pos) (starts sql) (positions (lexSql sql))

/-- Exactly when no quoted text before one has a newline, and lines and columns have 32 bits. -/
theorem truePositions_iff (sql : Bytes) :
    TruePositions sql ↔ ∀ start ∈ starts sql,
      ¬ NewlineInQuotes (sql.take start) ∧ trueLine (sql.take start) < 2 ^ 32 ∧ trueColumn (sql.take start) < 2 ^ 32 := by
  have hEach : ∀ r ∈ reports (loop 0 0 1 1 sql), At (sql.take r.1) r.2 ↔
      ¬ NewlineInQuotes (sql.take r.1) ∧ trueLine (sql.take r.1) < 2 ^ 32 ∧ trueColumn (sql.take r.1) < 2 ^ 32 := by
    intro r hr
    obtain ⟨front, back, hSplit, hStart, hShows⟩ := shows_reports sql 0 0 1 1 [] ⟨rfl, rfl, rfl⟩ (Nat.zero_le _) r hr
    have hFront : sql.take r.1 = front := by rw [hStart, hSplit, Nat.zero_add, List.take_left]
    rw [hFront]
    exact hShows.at_iff
  rw [TruePositions, positions_lexSql, starts, List.forall₂_map_left_iff, List.forall₂_map_right_iff, List.forall₂_same]
  constructor
  · intro h start hStart
    obtain ⟨r, hr, rfl⟩ := List.mem_map.mp hStart
    exact (hEach r hr).mp (h r hr)
  · intro h r hr
    exact (hEach r hr).mpr (h r.1 (List.mem_map_of_mem hr))

/-- The word behind the quoted newline stands on line 2 and is reported on line 1. -/
theorem truePositions_quoted_newline :
    lexSql (ascii "'\n' a") = .ok [⟨.kString, [10], ⟨1, 1⟩⟩, ⟨.kWord, ascii "a", ⟨1, 5⟩⟩] ∧
      trueLine ((ascii "'\n' a").take 4) = 2 ∧ ¬ TruePositions (ascii "'\n' a") := by
  have hLexed : lexSql (ascii "'\n' a") = .ok [⟨.kString, [10], ⟨1, 1⟩⟩, ⟨.kWord, ascii "a", ⟨1, 5⟩⟩] := by decide +kernel
  have hStarts : starts (ascii "'\n' a") = [0, 4] := by decide +kernel
  refine ⟨hLexed, by decide, ?_⟩
  rw [TruePositions, hLexed, hStarts]
  rintro (_ | ⟨-, (_ | ⟨hAt, -⟩)⟩)
  exact absurd hAt.1 (by decide)

end TupleStone.LexSql
