import TupleStone.Api.SelectRows
import TupleStone.Api.Scripts

/-! # SELECT *

The star stands for one column expression per column, and each is looked up again by its name. This gives the row back
when every name leads to its own column and no name is read as a parameter.
-/

set_option autoImplicit false

namespace TupleStone

/-! ## Looking up column names -/

/-- Every column is the one that its name leads to. -/
def Schema.FindsColumns (schema : Schema) : Prop :=
  ∀ i column, schema.columns[i]? = some column → schema.find column.name = some i

/-- No two columns have one name up to case. -/
def Schema.DistinctNames (schema : Schema) : Prop :=
  schema.columns.Pairwise (fun a b => equalIgnoringCase a.name b.name = false)

theorem equalIgnoringCase_self (name : Bytes) : equalIgnoringCase name name = true := by
  have hAll : ∀ pair ∈ name.zip name, toLower pair.1 = toLower pair.2 := by
    intro pair hPair
    rw [List.zip_eq_zipWith, List.zipWith_self, List.mem_map] at hPair
    obtain ⟨c, -, rfl⟩ := hPair
    rfl
  simpa [equalIgnoringCase] using hAll

theorem equalIgnoringCase_lower (left right : Bytes) : equalIgnoringCase left (lower right) = equalIgnoringCase left right := by
  simp only [equalIgnoringCase, length_lower]
  congr 1
  rw [lower, List.zip_map_right, List.all_map]
  congr 1
  funext pair
  simp [toLower_toLower]

theorem Schema.find_lower (schema : Schema) (name : Bytes) : schema.find (lower name) = schema.find name := by
  simp only [Schema.find, equalIgnoringCase_lower]

theorem Schema.findsColumns_iff (schema : Schema) : schema.FindsColumns ↔ schema.DistinctNames := by
  rw [FindsColumns, DistinctNames, List.pairwise_iff_getElem]
  constructor
  · intro h i j hi hj hLess
    have hFound := h j _ (List.getElem?_eq_getElem hj)
    rw [find, List.findIdx?_eq_some_iff_getElem] at hFound
    obtain ⟨_, _, hBefore⟩ := hFound
    exact eq_false_of_ne_true (hBefore i hLess)
  · intro h i column hColumn
    obtain ⟨hi, rfl⟩ := List.getElem?_eq_some_iff.mp hColumn
    rw [find, List.findIdx?_eq_some_iff_getElem]
    refine ⟨hi, equalIgnoringCase_self _, fun j hLess => ?_⟩
    rw [h j i (hLess.trans hi) hi hLess]
    exact Bool.false_ne_true

namespace Statement

open Attempt

theorem runStatement_select {tables : Tables} {sql : Bytes} {params : List Value} {first : Token} {rest : List Token}
    (hTokens : tokenize sql = .ok (first :: rest)) (hSelect : first.text = ascii "select")
    (hCount : isCount sql (ascii "select") = false) :
    runStatement tables sql params = runSelect (refreshCatalog tables) params (.reading (first :: rest) 1) := by
  have hExplain : first.text ≠ ascii "explain" := by
    rw [hSelect]
    decide
  have hCommand : first.text ∈ [ascii "insert", ascii "update", ascii "delete", ascii "select"] := by
    rw [hSelect]
    decide
  rw [runStatement_eq_runCommand hTokens hExplain (hSelect.symm ▸ hCount), runCommand_eq hCommand, hSelect]
  rfl

/-! ## Projecting the columns -/

theorem projection_eq_some {context : EvalContext} {expressions : List Expr} {output : Row} :
    projection context expressions = some output ↔
      List.Forall₂ (fun expr value => valueOf context (some expr) = some value) expressions output := by
  induction expressions generalizing output with
  | nil => simp [projection, eq_comm]
  | cons expr expressions ih =>
    rw [projection]
    constructor
    · intro h
      obtain ⟨value, hValue, h⟩ := Option.bind_eq_some_iff.mp h
      obtain ⟨rest, hRest, h⟩ := Option.bind_eq_some_iff.mp h
      cases h
      exact .cons hValue (ih.mp hRest)
    · rintro (_ | ⟨hValue, hRest⟩)
      rw [hValue, ih.mpr hRest]
      rfl

variable {schema : Schema} {row : Row} {params : List Value} {name : Bytes}

theorem valueOf_column (hName : name ≠ ascii "?") : valueOf ⟨some schema, some row, params⟩ (some (.ofColumn name)) =
    (schema.find name).bind fun i => row[i]? := by
  have hFound : (schema.find (lower name)).bind (fun i => row[i]?) = (schema.find name).bind fun i => row[i]? := by
    rw [schema.find_lower]
  rw [valueOf, evalPtr, Expr.ofColumn, evalExpr, if_neg hName, Eval.column]
  dsimp only [Option.bind_some]
  rw [hFound]
  cases (schema.find name).bind fun i => row[i]? <;> rfl

/-- A column named `?` is read as the first parameter. -/
theorem valueOf_question (h : params = []) : valueOf ⟨some schema, some row, params⟩ (some (.ofColumn (ascii "?"))) = none := by
  subst h
  rw [valueOf, evalPtr, Expr.ofColumn, evalExpr, if_pos rfl]
  rfl

theorem projection_columns (hFinds : schema.FindsColumns) (hNames : ∀ column ∈ schema.columns, column.name ≠ ascii "?")
    (hWidth : row.length = schema.size) : projection ⟨some schema, some row, params⟩
      (schema.columns.map fun column => Expr.ofColumn column.name) = some row := by
  rw [projection_eq_some, List.forall₂_map_left_iff, List.forall₂_iff_get]
  refine ⟨hWidth.symm, fun i hColumn hRow => ?_⟩
  have hName := hNames _ (List.getElem_mem hColumn)
  have hFind := hFinds i _ (List.getElem?_eq_getElem hColumn)
  rw [List.get_eq_getElem, List.get_eq_getElem, valueOf_column hName, hFind]
  exact List.getElem?_eq_getElem hRow

theorem outputColumns (hFinds : schema.FindsColumns) :
    (schema.columns.map fun column => Expr.ofColumn column.name).map (outputColumn schema) = schema.columns := by
  rw [List.map_map]
  apply List.ext_getElem?
  intro i
  rw [List.getElem?_map]
  cases hColumn : schema.columns[i]? with
  | none => rfl
  | some column =>
    have hFind : schema.find column.name = some i := hFinds i column hColumn
    have hKind : (Expr.ofColumn column.name).kind = .kColumn := rfl
    rw [Option.map_some, Function.comp_apply, outputColumn, if_pos hKind]
    have hName : (Expr.ofColumn column.name).name = column.name := rfl
    rw [hName, hFind, Option.bind_some, hColumn]

/-! ## The statement -/

/-- `SELECT * FROM name`, and nothing behind it that the statement reads. -/
def IsSelectAll (tokens : List Token) (name : Bytes) : Prop :=
  ∃ a b c d last rest, tokens = ⟨.kWord, ascii "select", a⟩ :: ⟨.kOperator, ascii "*", b⟩ :: ⟨.kWord, ascii "from", c⟩ ::
    ⟨.kWord, name, d⟩ :: last :: rest ∧ last.text ∉ [ascii "where", ascii "order", ascii "limit"]

def starPlan (name : Bytes) (table : Table) : SelectPlan := ⟨false, [], name, table, none, [], -1, 0⟩

theorem exec_selectHeader_star {tables : Tables} {tokens : List Token} {table : Table} (hAll : IsSelectAll tokens name)
    (hFound : tables.find? (lower name) = some table) :
    exec (selectHeader tables params) (.reading tokens 1) = .done (.ok (starPlan (lower name) table), .reading tokens 4) := by
  obtain ⟨a, b, c, d, last, rest, rfl, hLast⟩ := hAll
  simp only [List.mem_cons, List.not_mem_nil, or_false, not_or] at hLast
  obtain ⟨hWhere, hOrder, hLimit⟩ := hLast
  generalize hTokens : (⟨.kWord, ascii "select", a⟩ :: ⟨.kOperator, ascii "*", b⟩ :: ⟨.kWord, ascii "from", c⟩ ::
    ⟨.kWord, name, d⟩ :: last :: rest : List Token) = tokens
  have hStarAt : tokens[1]? = some ⟨.kOperator, ascii "*", b⟩ := by rw [← hTokens]; rfl
  have hFromAt : tokens[2]? = some ⟨.kWord, ascii "from", c⟩ := by rw [← hTokens]; rfl
  have hNameAt : tokens[3]? = some ⟨.kWord, name, d⟩ := by rw [← hTokens]; rfl
  have hLastAt : tokens[4]? = some last := by rw [← hTokens]; rfl
  have hNotDistinct : ascii "*" ≠ ascii "distinct" := by decide
  have hNotClose : ascii "from" ≠ ascii ")" := by decide
  have hTable : exec (findTable tables (lower name)) (.reading tokens 4) = .done (.ok table, .reading tokens 4) := by
    rw [findTable, hFound]
    rfl
  have hPredicate : exec (liftM wherePredicate : Front ExprPtr) (.reading tokens 4) = .done (.ok none, .reading tokens 4) := by
    have hParsed : wherePredicate (.reading tokens 4) = .done (none, .reading tokens 4) := by
      change (Parser.accept (ascii "where") (.reading tokens 4) >>= _) = _
      rw [Parser.accept_at hLastAt, if_neg hWhere]
      rfl
    rw [exec_lift, hParsed]
    rfl
  have hOrdering : exec orderBy (.reading tokens 4) = .done (.ok [], .reading tokens 4) :=
    exec_bind_ok (Parser.exec_accept_other hLastAt hOrder)
  have hLimits : exec (limitClause params) (.reading tokens 4) = .done (.ok (-1, 0), .reading tokens 4) :=
    exec_bind_ok (Parser.exec_accept_other hLastAt hLimit)
  rw [selectHeader, exec_bind_ok (Parser.exec_accept_other hStarAt hNotDistinct), exec_bind_ok (Parser.exec_accept hStarAt rfl)]
  change exec (selectTail tables params false []) (.reading tokens 2) = _
  rw [selectTail, exec_bind_ok (exec_expectOrReturn hFromAt rfl hNotClose), exec_bind_ok (exec_tableName hNameAt rfl), exec_bind_ok hTable,
    exec_bind_ok hPredicate, exec_bind_ok hOrdering, exec_bind_ok hLimits]
  rfl

theorem filterRows_all {rows : List Row} :
    exec (filterRows schema params none true rows) .ok = .done (.ok rows, .ok) := by
  induction rows with
  | nil => rfl
  | cons row rows ih =>
    have hSelects : exec (selects ⟨some schema, some row, params⟩ none) .ok = .done (.ok true, .ok) := rfl
    rw [filterRows, exec_bind_ok hSelects, exec_bind_ok ih]
    rfl

section Star

variable {table : Table}

theorem outputs_starPlan : (starPlan name table).outputs = table.schema.columns.map fun column => Expr.ofColumn column.name := rfl

theorem hasKeys_starPlan : (starPlan name table).HasKeys params := fun _ _ _ hKey => by cases hKey

theorem selected_starPlan : (starPlan name table).selected params = table.rows := by
  rw [SelectPlan.selected]
  exact List.filter_eq_self.mpr fun _ _ => rfl

theorem sorted_starPlan : (starPlan name table).sorted params = table.rows := by
  have hNever : lessBy table.schema params [] = fun _ _ => false := by
    funext left right
    rw [lessBy]
  rw [SelectPlan.sorted, selected_starPlan]
  change StableSort.sort (lessBy table.schema params []) table.rows = _
  rw [hNever, StableSort.sort_false]

/-- Without OFFSET, LIMIT and DISTINCT every projected row is put out. -/
theorem emit_starPlan (rows : List Row) (s : OutputState) (hSkipped : 0 ≤ s.skipped) :
    emit (starPlan name table) (rows.map some) s = some (s.rows ++ rows) := by
  induction rows generalizing s with
  | nil => simp [emit]
  | cons row rows ih =>
    have hOffset : ¬ s.skipped < (starPlan name table).offset.toInt := not_lt.mpr hSkipped
    have hLimit : ¬ (0 ≤ (starPlan name table).limit.toInt ∧ (starPlan name table).limit.toInt ≤ s.rows.length) :=
      fun h => absurd h.1 (show ¬ 0 ≤ (-1 : Int64).toInt by decide)
    have hDistinct : ¬ ((starPlan name table).distinct && s.seen.contains (distinctKey row)) = true := Bool.false_ne_true
    have hRest : emit (starPlan name table) (rows.map some) { s with rows := s.rows ++ [row], seen := distinctKey row :: s.seen } = _ :=
      ih _ hSkipped
    rw [List.map_cons, emit, if_neg hOffset, if_neg hLimit, Option.bind_eq_bind, Option.bind_some, if_neg hDistinct, hRest,
      List.append_assoc, List.singleton_append]

theorem runStatement_selectAll {tables : Tables} {sql : Bytes} {tokens : List Token} (hTokens : tokenize sql = .ok tokens)
    (hAll : IsSelectAll tokens name) (hCount : isCount sql (ascii "select") = false)
    (hFound : (refreshCatalog tables).find? (lower name) = some table) : runStatement tables sql params = (do
      match ← exec (selectRows (starPlan (lower name) table) params) .ok with
      | (.error returned, _) => pure ((.status returned, refreshCatalog tables), .reading tokens 4)
      | (.ok rows, _) => pure ((.rows ⟨(starPlan (lower name) table).outputs.map (outputColumn table.schema)⟩ rows,
          refreshCatalog tables), .reading tokens 4)) := by
  have hHeader : exec (selectHeader (refreshCatalog tables) params) (.reading tokens 1) = _ := exec_selectHeader_star hAll hFound
  obtain ⟨a, b, c, d, last, rest, rfl, -⟩ := hAll
  rw [runStatement_select hTokens rfl hCount, runSelect, hHeader]
  rfl

/-- A row of which some column is read as a missing parameter is not put out. -/
theorem outputRow_question {row : Row} {column : Column} (hColumn : column ∈ table.schema.columns)
    (hName : column.name = ascii "?") : (starPlan name table).outputRow [] row = none := by
  cases hOutput : (starPlan name table).outputRow [] row with
  | none => rfl
  | some output =>
    rw [SelectPlan.outputRow, outputs_starPlan, projection_eq_some] at hOutput
    have hAll := List.forall₂_iff_get.mp hOutput
    obtain ⟨i, hi, hGet⟩ := List.mem_iff_getElem.mp (List.mem_map_of_mem (f := fun column => Expr.ofColumn column.name) hColumn)
    have hValue := hAll.2 i hi (hAll.1 ▸ hi)
    rw [List.get_eq_getElem, hGet, hName] at hValue
    change valueOf ⟨some table.schema, some row, []⟩ (some (.ofColumn (ascii "?"))) = _ at hValue
    rw [valueOf_question rfl] at hValue
    cases hValue

end Star

end Statement

open Statement

/-- The statement returns the rows as they are stored, under the stored columns, whatever its parameters. -/
def ReturnsTable (tables : Tables) (sql : Bytes) (table : Table) : Prop :=
  ∀ params, ∃ q, runStatement tables sql params =
    .done ((.rows ⟨table.schema.columns⟩ table.rows, refreshCatalog tables), q)

/-- `SELECT *` is the stored table when no two columns share a name up to case and, in a table with rows, none is `?`. -/
theorem select_all_iff {p : Process} (hReached : p.Reached) {conn : Connection} (hConn : conn ∈ p.connections) {sql : Bytes}
    {tokens : List Token} {name : Bytes} {table : Table} (hTokens : tokenize sql = .ok tokens)
    (hAll : IsSelectAll tokens name) (hCount : isCount sql (ascii "select") = false)
    (hFound : (refreshCatalog (conn.working p.db)).find? (lower name) = some table) :
    ReturnsTable (conn.working p.db) sql table ∧ table.schema.FindsColumns ↔
      table.schema.DistinctNames ∧ (table.rows = [] ∨ ∀ column ∈ table.schema.columns, column.name ≠ ascii "?") := by
  have hShaped : Shaped (conn.working p.db) := by
    have hHolds := hReached.shaped
    rw [Connection.working]
    cases hSome : conn.transactionTables with
    | none => exact hHolds.shared
    | some tables => exact hHolds.snapshot conn hConn tables hSome
  have hWidth := (hShaped.refreshCatalog (lower name) table hFound).width
  rw [← Schema.findsColumns_iff, and_comm]
  refine and_congr_right fun hFinds => ?_
  constructor
  · intro hReturns
    by_contra hNot
    simp only [not_or, not_forall, not_not] at hNot
    obtain ⟨hRows, column, hColumn, hName⟩ := hNot
    obtain ⟨row, rest, hTable⟩ := List.exists_cons_of_ne_nil hRows
    obtain ⟨q, hRun⟩ := hReturns []
    rw [runStatement_selectAll hTokens hAll hCount hFound] at hRun
    obtain ⟨⟨x, status⟩, hExec, hRun⟩ := Outcome.bind_eq_done hRun
    cases x with
    | error returned => cases hRun
    | ok rows =>
      have hEmit := selectRows_ok hasKeys_starPlan hExec
      rw [sorted_starPlan, hTable, List.map_cons, outputRow_question hColumn hName, emit] at hEmit
      cases hEmit
  · intro hNames params
    have hOutput : ∀ row ∈ table.rows, (starPlan (lower name) table).outputRow params row = some row := by
      intro row hRow
      have hNames := hNames.resolve_left (List.ne_nil_of_mem hRow)
      exact projection_columns hFinds hNames (hWidth row hRow)
    have hEmit : emit (starPlan (lower name) table)
        (((starPlan (lower name) table).sorted params).map ((starPlan (lower name) table).outputRow params)) {} = some table.rows := by
      rw [sorted_starPlan, List.map_congr_left hOutput]
      exact emit_starPlan table.rows {} (Int.le_refl 0)
    have hFilter : Attempt.exec (filterRows table.schema params none true table.rows) .ok =
        .done (.ok ((starPlan (lower name) table).selected params), .ok) := by
      rw [selected_starPlan]
      exact filterRows_all
    refine ⟨.reading tokens 4, ?_⟩
    rw [runStatement_selectAll hTokens hAll hCount hFound, exec_selectRows hasKeys_starPlan hFilter hEmit, outputs_starPlan,
      outputColumns hFinds]
    rfl

/-- The text of the statement on a table named `t`. -/
def selectAllT : Bytes := ascii "SELECT * FROM t"

def selectAllTokens : List Token :=
  [⟨.kWord, ascii "select", 0⟩, ⟨.kOperator, ascii "*", 7⟩, ⟨.kWord, ascii "from", 9⟩, ⟨.kWord, ascii "t", 14⟩, ⟨.kEnd, [], 15⟩]

theorem tokenize_selectAllT : tokenize selectAllT = .ok selectAllTokens := by
  have h : (tokenize selectAllT).toOption = some selectAllTokens := by decide +kernel
  cases hTokens : tokenize selectAllT with
  | error status =>
    rw [hTokens] at h
    cases h
  | ok tokens =>
    rw [hTokens] at h
    exact congrArg Except.ok (Option.some.inj h)

theorem isSelectAll_t : IsSelectAll selectAllTokens (ascii "t") :=
  ⟨0, 7, 9, 14, ⟨.kEnd, [], 15⟩, [], rfl, by decide⟩

def pairScript : List Bytes :=
  [ascii "CREATE TABLE t (a INTEGER, b INTEGER)", ascii "INSERT INTO t VALUES (1, NULL)"]

def pairTable : Table :=
  ⟨⟨[{ name := ascii "a", type := .kInteger }, { name := ascii "b", type := .kInteger }]⟩, [[.integer 1, .null]]⟩

theorem pair_select_all : ∃ (p : Process) (conn : Connection), p.Reached ∧ conn ∈ p.connections ∧
    (ReturnsTable (conn.working p.db) selectAllT pairTable ∧ pairTable.schema.FindsColumns ↔
      pairTable.schema.DistinctNames ∧ (pairTable.rows = [] ∨ ∀ column ∈ pairTable.schema.columns, column.name ≠ ascii "?")) := by
  have hScript : ((runScript OrderedMap.empty pairScript).bind fun tables => (refreshCatalog tables).find? (ascii "t")) =
      some pairTable := by decide +kernel
  obtain ⟨tables, hRun, hFound⟩ := Option.bind_eq_some_iff.mp hScript
  obtain ⟨p, conn, hReached, hConn, rfl⟩ := Process.reached_script hRun
  exact ⟨p, conn, hReached, hConn, select_all_iff hReached hConn tokenize_selectAllT isSelectAll_t (by decide +kernel) hFound⟩

/-! ## Names that are not kept apart -/

def twinScript : List Bytes :=
  [ascii "CREATE TABLE t (a INTEGER, A INTEGER)", ascii "INSERT INTO t VALUES (1, 2)"]

def twinTable : Table :=
  ⟨⟨[{ name := ascii "a", type := .kInteger }, { name := ascii "a", type := .kInteger }]⟩, [[.integer 1, .integer 2]]⟩

/-- Both columns of the reply are the first of the table. -/
theorem twin_columns_read_twice : ∃ (p : Process) (conn : Connection), p.Reached ∧ conn ∈ p.connections ∧
    (refreshCatalog (conn.working p.db)).find? (lower (ascii "t")) = some twinTable ∧
    (∃ tables q, runStatement (conn.working p.db) selectAllT [] =
      .done ((.rows twinTable.schema [[.integer 1, .integer 1]], tables), q)) ∧
    ¬ (ReturnsTable (conn.working p.db) selectAllT twinTable ∧ twinTable.schema.FindsColumns) := by
  have hScript : ((runScript OrderedMap.empty twinScript).bind fun tables => (refreshCatalog tables).find? (ascii "t")) =
      some twinTable := by decide +kernel
  have hRows : ((runScript OrderedMap.empty twinScript).bind fun tables =>
      (runStatement tables selectAllT []).value?.map fun result => result.1.1) =
        some (.rows twinTable.schema [[.integer 1, .integer 1]]) := by decide +kernel
  obtain ⟨tables, hRun, hFound⟩ := Option.bind_eq_some_iff.mp hScript
  rw [hRun, Option.bind_some] at hRows
  obtain ⟨p, conn, hReached, hConn, rfl⟩ := Process.reached_script hRun
  have hReply : ∃ tables q, runStatement (conn.working p.db) selectAllT [] =
      .done ((.rows twinTable.schema [[.integer 1, .integer 1]], tables), q) := by
    obtain ⟨⟨⟨reply, tables⟩, q⟩, hResult, rfl⟩ := Option.map_eq_some_iff.mp hRows
    exact ⟨tables, q, Outcome.value?_eq_some.mp hResult⟩
  refine ⟨p, conn, hReached, hConn, hFound, hReply, fun h => ?_⟩
  obtain ⟨q, hStored⟩ := h.1 []
  obtain ⟨tables, q', hRead⟩ := hReply
  cases hStored.symm.trans hRead

-- A column that is called `?` is not read, without parameters.
example : ((runScript OrderedMap.empty [ascii "CREATE TABLE t (\"?\" INTEGER)", ascii "INSERT INTO t VALUES (1)"]).map fun tables =>
    match runStatement tables selectAllT [] with
    | .done ((reply, _), _) => decide (reply = .status (.invalidArgument (ascii "unbound parameter")))
    | _ => false) = some true := by decide +kernel

end TupleStone
