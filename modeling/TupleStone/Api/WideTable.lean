import TupleStone.Api.StatementWords
import TupleStone.Api.TokenText

/-! # Reading a statement of any length

A text made of equal column definitions is tokenized and parsed by induction on their number, so CREATE TABLE takes as
many of them as there are.
-/

set_option autoImplicit false

namespace TupleStone

open Attempt

/-! ## Tokenizing -/

/-- `a text,` as often as asked for, and `a text)`. -/
def columnText : Nat → Bytes
  | 0 => ascii "a text)"
  | n + 1 => ascii "a text," ++ columnText n

def wideTable (n : Nat) : Bytes := ascii "create table t(" ++ columnText n

def columnTokens (position : Nat) : Nat → List Token
  | 0 =>
    [⟨.kWord, ascii "a", position⟩, ⟨.kWord, ascii "text", position + 2⟩, ⟨.kPunctuation, ascii ")", position + 6⟩,
     ⟨.kEnd, [], position + 7⟩]
  | n + 1 =>
    ⟨.kWord, ascii "a", position⟩ :: ⟨.kWord, ascii "text", position + 2⟩ :: ⟨.kPunctuation, ascii ",", position + 6⟩ ::
      columnTokens (position + 7) n

def wideTokens (n : Nat) : List Token :=
  ⟨.kWord, ascii "create", 0⟩ :: ⟨.kWord, ascii "table", 7⟩ :: ⟨.kWord, ascii "t", 13⟩ :: ⟨.kPunctuation, ascii "(", 14⟩ ::
    columnTokens 15 n

theorem loop_columnText (n position : Nat) : Tokenize.loop 0 position (columnText n) = .ok (columnTokens position n) := by
  induction n generalizing position with
  | zero =>
    apply Tokenize.loop_token .kWord (ascii "a") 0 rfl
    apply Tokenize.loop_blank rfl
    apply Tokenize.loop_token .kWord (ascii "text") 3 rfl
    exact Tokenize.loop_token .kPunctuation (ascii ")") 0 rfl rfl
  | succ n ih =>
    apply Tokenize.loop_token .kWord (ascii "a") 0 rfl
    apply Tokenize.loop_blank rfl
    apply Tokenize.loop_token .kWord (ascii "text") 3 rfl
    exact Tokenize.loop_token .kPunctuation (ascii ",") 0 rfl (ih (position + 7))

theorem tokenize_wideTable (n : Nat) : tokenize (wideTable n) = .ok (wideTokens n) := by
  apply Tokenize.loop_token .kWord (ascii "create") 5 rfl
  apply Tokenize.loop_blank rfl
  apply Tokenize.loop_token .kWord (ascii "table") 4 rfl
  apply Tokenize.loop_blank rfl
  apply Tokenize.loop_token .kWord (ascii "t") 0 rfl
  exact Tokenize.loop_token .kPunctuation (ascii "(") 0 rfl (loop_columnText n 15)

/-! ## Parsing it -/

namespace Statement

open TupleStone.Parser (accept expect identifier exec_accept exec_accept_other exec_identifier accept_at)

section At

variable {tokens : List Token} {i : Nat} {token : Token} {text : Bytes}

/-- A column definition that ends at a token which is no constraint. -/
theorem exec_columnDefinition {name type last : Token} (hName : tokens[i]? = some name) (hType : tokens[i + 1]? = some type)
    (hLast : tokens[i + 2]? = some last) (hNameKind : name.kind = .kWord) (hTypeKind : type.kind = .kWord) {typeId : TypeId}
    (hTypeId : columnType type.text = some typeId)
    (hNone : last.text ≠ ascii "not" ∧ last.text ≠ ascii "primary" ∧ last.text ≠ ascii "unique") :
    exec columnDefinition (.reading tokens i) = .done (.ok { name := name.text, type := typeId }, .reading tokens (i + 2)) := by
  rw [columnDefinition, exec_bind_ok (exec_identifier hName hNameKind), exec_bind_ok exec_checkStatus,
    exec_bind_ok (exec_identifier hType hTypeKind), exec_bind_ok exec_checkStatus, hTypeId]
  have hNotNull : ∀ column, exec (notNull column) (.reading tokens (i + 2)) = .done (.ok column, .reading tokens (i + 2)) :=
    fun column => exec_bind_ok (exec_accept_other hLast hNone.1)
  have hPrimary : ∀ column, exec (primaryKey column) (.reading tokens (i + 2)) = .done (.ok column, .reading tokens (i + 2)) :=
    fun column => exec_bind_ok (exec_accept_other hLast hNone.2.1)
  dsimp only
  rw [columnConstraints, exec_bind_ok (hNotNull _), exec_bind_ok (hPrimary _)]
  exact exec_bind_ok (exec_accept_other hLast hNone.2.2)

end At

def textColumn : Column := { name := ascii "a", type := .kText }

theorem exec_columnLoop (n position : Nat) (before : List Token) (columns : List Column) {fuel : Nat} (hFuel : n + 1 < fuel) :
    exec (columnLoop fuel columns) (.reading (before ++ columnTokens position n) before.length) =
      .done (.ok (columns ++ List.replicate (n + 1) textColumn),
        .reading (before ++ columnTokens position n) (before.length + 3 * n + 3)) := by
  have hOpen : ascii "a" ≠ ascii ")" := by decide
  have hClose : ascii ")" ≠ ascii "not" ∧ ascii ")" ≠ ascii "primary" ∧ ascii ")" ≠ ascii "unique" := by decide
  have hComma : ascii "," ≠ ascii "not" ∧ ascii "," ≠ ascii "primary" ∧ ascii "," ≠ ascii "unique" := by decide
  induction n generalizing position before columns fuel with
  | zero =>
    obtain ⟨fuel, rfl⟩ : ∃ more, fuel = more + 2 := ⟨fuel - 2, by omega⟩
    have hToken : ∀ k, (before ++ columnTokens position 0)[before.length + k]? = (columnTokens position 0)[k]? :=
      fun k => by rw [List.getElem?_append_right (Nat.le_add_right _ _), Nat.add_sub_cancel_left]
    have hLast : ascii ")" ≠ ascii "," := by decide
    have hEnd : ([] : Bytes) ≠ ascii ")" := by decide
    have hStart : (before ++ columnTokens position 0)[before.length]? = some ⟨.kWord, ascii "a", position⟩ := hToken 0
    have hDefinition := exec_columnDefinition hStart (hToken 1) (hToken 2) rfl rfl rfl hClose
    have hSeparator : exec separator (.reading (before ++ columnTokens position 0) (before.length + 2)) = _ :=
      (exec_bind_ok (exec_accept_other (hToken 2) hLast)).trans (exec_expectClose (hToken 2) rfl)
    rw [columnLoop, exec_bind_ok (exec_accept_other hStart hOpen), if_neg (by decide), exec_bind_ok hDefinition,
      exec_bind_ok hSeparator, columnLoop, exec_bind_ok (exec_acceptClosed (hToken 3) hEnd)]
    rfl
  | succ n ih =>
    obtain ⟨fuel, rfl⟩ : ∃ more, fuel = more + 1 := ⟨fuel - 1, by omega⟩
    have hToken : ∀ k, (before ++ columnTokens position (n + 1))[before.length + k]? = (columnTokens position (n + 1))[k]? :=
      fun k => by rw [List.getElem?_append_right (Nat.le_add_right _ _), Nat.add_sub_cancel_left]
    have hStart : (before ++ columnTokens position (n + 1))[before.length]? = some ⟨.kWord, ascii "a", position⟩ := hToken 0
    have hDefinition := exec_columnDefinition hStart (hToken 1) (hToken 2) rfl rfl rfl hComma
    have hSeparator : exec separator (.reading (before ++ columnTokens position (n + 1)) (before.length + 2)) = _ :=
      exec_bind_ok (exec_accept (hToken 2) rfl)
    rw [columnLoop, exec_bind_ok (exec_accept_other hStart hOpen), if_neg (by decide), exec_bind_ok hDefinition,
      exec_bind_ok hSeparator]
    have hRest := ih (position + 7) (before ++ (columnTokens position (n + 1)).take 3) (columns ++ [textColumn])
      (show n + 1 < fuel by omega)
    have hTokens : before ++ (columnTokens position (n + 1)).take 3 ++ columnTokens (position + 7) n =
        before ++ columnTokens position (n + 1) := by
      rw [List.append_assoc]
      rfl
    have hIndex : (before ++ (columnTokens position (n + 1)).take 3).length = before.length + 3 := by
      rw [List.length_append]
      rfl
    rw [hTokens, hIndex, List.append_assoc, List.singleton_append, ← List.replicate_succ] at hRest
    refine hRest.trans ?_
    rw [show before.length + 3 + 3 * n + 3 = before.length + 3 * (n + 1) + 3 by omega]

theorem length_columnTokens (n position : Nat) : (columnTokens position n).length = 3 * n + 4 := by
  induction n generalizing position with
  | zero => rfl
  | succ n ih =>
    rw [columnTokens, List.length_cons, List.length_cons, List.length_cons, ih]
    omega

/-- The statement from its second word on. -/
theorem exec_createTable_wide {tables : Tables} (hAbsent : tables.find? (ascii "t") = none) (n : Nat) :
    exec (createTable tables) (.reading (wideTokens n) 1) =
      .done (.ok (tables.insert (ascii "t") ⟨⟨List.replicate (n + 1) textColumn⟩, []⟩),
        .reading (wideTokens n) (4 + 3 * n + 3)) := by
  have hIf : ascii "t" ≠ ascii "if" := by decide
  have hTable : ascii "table" ≠ ascii ")" := by decide
  have hOpen : ascii "(" ≠ ascii ")" := by decide
  have hSecond : (wideTokens n)[1]? = some ⟨.kWord, ascii "table", 7⟩ := rfl
  have hThird : (wideTokens n)[2]? = some ⟨.kWord, ascii "t", 13⟩ := rfl
  have hFourth : (wideTokens n)[3]? = some ⟨.kPunctuation, ascii "(", 14⟩ := rfl
  have hIfNotExists : exec (liftM ifNotExists : Front Bool) (.reading (wideTokens n) 2) =
      .done (.ok false, .reading (wideTokens n) 2) := by
    have hAccept : ifNotExists (.reading (wideTokens n) 2) = .done (false, .reading (wideTokens n) 2) := by
      change (accept (ascii "if") (.reading (wideTokens n) 2) >>= _) = _
      rw [accept_at hThird, if_neg hIf]
      rfl
    rw [exec_lift, hAccept]
    rfl
  have hName : exec tableName (.reading (wideTokens n) 2) = .done (.ok (ascii "t"), .reading (wideTokens n) 3) :=
    exec_tableName hThird rfl
  have hBound : exec loopBound (.reading (wideTokens n) 4) = .done (.ok ((wideTokens n).length + 1), .reading (wideTokens n) 4) :=
    rfl
  have hFuel : n + 1 < (wideTokens n).length + 1 := by
    simp only [wideTokens, List.length_cons, length_columnTokens]
    omega
  have hLoop := exec_columnLoop n 15 ((wideTokens n).take 4) [] hFuel
  rw [createTable, exec_bind_ok (exec_expectOrReturn hSecond rfl hTable), exec_bind_ok hIfNotExists, exec_bind_ok hName,
    hAbsent, if_neg (by decide), exec_bind_ok (exec_expectOrReturn hFourth rfl hOpen), exec_bind_ok hBound]
  refine (exec_bind_ok hLoop).trans ?_
  rw [OrderedMap.emplace_of_none tables hAbsent, List.nil_append]
  rfl

end Statement

theorem runStatement_wideTable {tables : Tables} (hAbsent : (refreshCatalog tables).find? (ascii "t") = none) (n : Nat)
    (params : List Value) : ∃ q, runStatement tables (wideTable n) params =
      .done ((.persist, (refreshCatalog tables).insert (ascii "t") ⟨⟨List.replicate (n + 1) Statement.textColumn⟩, []⟩), q) := by
  have hFirst : (wideTokens n)[0]? = some ⟨.kWord, ascii "create", 0⟩ := rfl
  have hPeek : Parser.peek (.reading (wideTokens n) 0) = .done (⟨.kWord, ascii "create", 0⟩, .reading (wideTokens n) 0) := rfl
  have hAt : ∀ {k token}, k < 4 → (wideTokens n)[k]? = some token →
      Parser.peekAt k (.reading (wideTokens n) 0) = .done (token, .reading (wideTokens n) 0) := by
    intro k token hk hToken
    have hIndex : min (0 + k) ((wideTokens n).length - 1) = k := by
      simp only [wideTokens, List.length_cons]
      omega
    rw [Parser.peekAt, Parser.reading, hIndex, hToken]
  have hAccept : Parser.accept (ascii "create") (.reading (wideTokens n) 0) = .done (true, .reading (wideTokens n) 1) := by
    rw [Parser.accept_at hFirst, if_pos rfl]
  have hIndex : Statement.isIndexDdl (ascii "create") (ascii "table") (ascii "t") = false := by decide
  have hExplain : ascii "create" ≠ ascii "explain" := by decide
  have hCount : Statement.isCount (wideTable n) (ascii "create") = false := rfl
  refine ⟨.reading (wideTokens n) (4 + 3 * n + 3), ?_⟩
  rw [runStatement, Statement.run, tokenize_wideTable]
  change (Parser.peek (.reading (wideTokens n) 0) >>= _) = _
  rw [hPeek, Outcome.done_bind]
  dsimp only
  rw [if_neg hExplain, hCount, if_neg Bool.false_ne_true]
  change Statement.runCommand (refreshCatalog tables) params (.reading (wideTokens n) 0) = _
  rw [Statement.runCommand, hPeek, Outcome.done_bind]
  dsimp only
  rw [hAt (by decide) (show (wideTokens n)[1]? = some ⟨.kWord, ascii "table", 7⟩ from rfl), Outcome.done_bind]
  dsimp only
  rw [hAt (by decide) (show (wideTokens n)[2]? = some ⟨.kWord, ascii "t", 13⟩ from rfl), Outcome.done_bind]
  dsimp only
  rw [hIndex, if_neg Bool.false_ne_true, hAccept, Outcome.done_bind]
  dsimp only
  rw [if_pos rfl, Statement.ofFront, Statement.exec_createTable_wide hAbsent n]
  rfl

end TupleStone
