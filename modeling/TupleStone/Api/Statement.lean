import TupleStone.Api.Eval
import TupleStone.Lib.Attempt

/-! # Statements

`ExecuteSql` on the refreshed working set. A statement is parsed and checked against the tables in one pass; an
early return carries the reply, and only INSERT parses, evaluates and stores row by row.
-/

set_option autoImplicit false

namespace TupleStone

/-- A result set, the call of `persist`, or a returned status. -/
inductive Reply where
  | rows (schema : Schema) (rows : List Row)
  | persist
  | status (status : Status)
  deriving DecidableEq, Repr

/-- Parsing that may return from the statement. -/
abbrev Front (α : Type) := Attempt Parser Reply α

/-- Code over the rows of a table that may return a status from the statement. -/
abbrev RowM (α : Type) := Attempt Status Status α

namespace Statement

open TupleStone.Parser (accept expect identifier expression)

def reject {α : Type} (status : Status) : Front α := throw (.status status)

/-- `if (!status.ok()) return status;` -/
def checkStatus : Front Unit := do
  let p ← get
  if p.status = .ok then pure () else reject p.status

def expectOrReturn (text : Bytes) : Front Unit := do
  if ← expect text then pure ()
  else
    let p ← get
    reject p.status

/-- An iteration bound for loops that consume a token each time round. -/
def loopBound : Front Nat := do
  let p ← get
  pure (p.tokens.length + 1)

def exhausted {α : Type} : Front α := fun _ => .outOfFuel

def undefined {α : Type} : Front α := fun _ => .undefined

/-- Evaluation with the parser's status object. -/
def evaluate {α : Type} (m : StatusM α) : ParseM α := fun p => do
  let r ← m p.status
  pure (r.1, { p with status := r.2 })

def tableName : Front Bytes := do
  let name ← identifier
  checkStatus
  pure (lower name)

def findTable (tables : Tables) (name : Bytes) : Front Table :=
  match tables.find? name with
  | some table => pure table
  | none => reject (.notFound (ascii "table does not exist"))

/-- The end of a loop over a parenthesised list: a comma goes on, a closing parenthesis is consumed. -/
def separator : Front Unit := do
  if ← accept (ascii ",") then pure () else expectOrReturn (ascii ")")

/-! ## Row validation -/

def isNumeric (type : TypeId) : Bool := type == .kInteger || type == .kReal

def checkValue (column : Column) (value : Value) : Option Status :=
  if value.isNull then
    if column.nullable then none
    else some (.invalidArgument (ascii "column '" ++ column.name ++ ascii "' may not be NULL"))
  else if value.type = column.type ∨ isNumeric value.type ∧ isNumeric column.type then none
  else some (.typeError (ascii "value for column '" ++ column.name ++ ascii "' has the wrong type"))

/-- Whether a row of `existing` holds a value equal to `value` at index `i`. -/
def holdsAt (i : Nat) (value : Value) : List Row → Outcome Bool
  | [] => .done false
  | row :: existing =>
    match row[i]? with
    | none => .undefined
    | some stored => if stored.same value && !value.isNull then .done true else holdsAt i value existing

def checkUnique (existing : List Row) : Nat → List (Column × Value) → Outcome Status
  | _, [] => .done .ok
  | i, (column, value) :: rest =>
    if column.primaryKey || column.unique then do
      if ← holdsAt i value existing then
        pure (.alreadyExists (ascii "duplicate value for column '" ++ column.name ++ ascii "'"))
      else checkUnique existing (i + 1) rest
    else checkUnique existing (i + 1) rest

/-- `ValidateRow` against the rows of the table other than the ignored one. -/
def validateRow (schema : Schema) (existing : List Row) (row : Row) : Outcome Status :=
  if row.length ≠ schema.size then .done (.invalidArgument (ascii "wrong number of values"))
  else
    match (schema.columns.zip row).findSome? (fun pair => checkValue pair.1 pair.2) with
    | some status => .done status
    | none => checkUnique existing 0 (schema.columns.zip row)

/-! ## CREATE TABLE and DROP TABLE -/

def columnType (name : Bytes) : Option TypeId :=
  if name = ascii "integer" then some .kInteger
  else if name = ascii "real" then some .kReal
  else if name = ascii "text" then some .kText
  else if name = ascii "boolean" then some .kBoolean
  else if name = ascii "blob" then some .kBlob
  else none

def notNull (column : Column) : Front Column := do
  if ← accept (ascii "not") then
    expectOrReturn (ascii "null")
    pure { column with nullable := false }
  else pure column

def primaryKey (column : Column) : Front Column := do
  if ← accept (ascii "primary") then
    expectOrReturn (ascii "key")
    pure { column with primaryKey := true, nullable := false }
  else pure column

def uniqueColumn (column : Column) : Front Column := do
  if ← accept (ascii "unique") then pure { column with unique := true } else pure column

/-- What may follow a column's type. -/
def columnConstraints (column : Column) : Front Column := do
  let column ← notNull column
  let column ← primaryKey column
  uniqueColumn column

def columnDefinition : Front Column := do
  let name ← identifier
  checkStatus
  let typeName ← identifier
  checkStatus
  match columnType typeName with
  | none => reject (.typeError (ascii "unknown column type"))
  | some type => columnConstraints { name := name, type := type }

def columnLoop : Nat → List Column → Front (List Column)
  | 0, _ => exhausted
  | fuel + 1, columns => do
    if ← accept (ascii ")") then pure columns
    else
      let column ← columnDefinition
      separator
      columnLoop fuel (columns ++ [column])

def ifNotExists : ParseM Bool := do
  if ← accept (ascii "if") then
    if ← accept (ascii "not") then accept (ascii "exists") else pure false
  else pure false

/-- The tables with the new one, after `CREATE` was accepted. -/
def createTable (tables : Tables) : Front Tables := do
  expectOrReturn (ascii "table")
  let optional ← ifNotExists
  let name ← tableName
  if (tables.find? name).isSome then
    if optional then throw (.rows ⟨[]⟩ []) else reject (.alreadyExists (ascii "table already exists"))
  else
    expectOrReturn (ascii "(")
    let columns ← columnLoop (← loopBound) []
    pure (tables.emplace name ⟨⟨columns⟩, []⟩)

def dropTable (tables : Tables) : Front Tables := do
  expectOrReturn (ascii "table")
  let name ← tableName
  let _ ← findTable tables name
  pure (tables.erase name)

/-! ## INSERT -/

def targetLoop (schema : Schema) : Nat → List Nat → Front (List Nat)
  | 0, _ => exhausted
  | fuel + 1, targets => do
    if ← accept (ascii ")") then pure targets
    else
      let name ← identifier
      match schema.find name with
      | none => reject (.notFound (ascii "unknown column"))
      | some index =>
        separator
        targetLoop schema fuel (targets ++ [index])

def targetColumns (schema : Schema) : Front (List Nat) := do
  if ← accept (ascii "(") then targetLoop schema (← loopBound) []
  else pure (List.range schema.size)

structure InsertPlan where
  name : Bytes
  table : Table
  targets : List Nat

/-- Everything up to `VALUES`. -/
def insertHeader (tables : Tables) : Front InsertPlan := do
  expectOrReturn (ascii "into")
  let name ← tableName
  let table ← findTable tables name
  let targets ← targetColumns table.schema
  expectOrReturn (ascii "values")
  pure ⟨name, table, targets⟩

def insertValues (schema : Schema) (params : List Value) : List Nat → Row → Front Row
  | [], row => pure row
  | target :: targets, row => do
    let expr ← expression
    checkStatus
    let value ← (evaluate (evalPtr ⟨some schema, none, params⟩ expr) : ParseM (Option Value))
    checkStatus
    match value with
    | none => reject .ok
    | some value =>
      if targets.isEmpty then pure (row.set target value)
      else
        expectOrReturn (ascii ",")
        insertValues schema params targets (row.set target value)

/-- One parenthesised row, validated against the rows stored so far. -/
def insertTuple (plan : InsertPlan) (params : List Value) (stored : List Row) : Front Row := do
  expectOrReturn (ascii "(")
  let row ← insertValues plan.table.schema params plan.targets (List.replicate plan.table.schema.size .null)
  expectOrReturn (ascii ")")
  let status ← (validateRow plan.table.schema stored row : ParseM Status)
  if status = .ok then pure row else reject status

/-- The rows the table holds when the statement returns, and the reply it returns. -/
def insertLoop (plan : InsertPlan) (params : List Value) : Nat → List Row → Parser →
    Outcome ((Reply × List Row) × Parser)
  | 0, _, _ => .outOfFuel
  | fuel + 1, stored, p => do
    match ← (insertTuple plan params stored).exec p with
    | (.error reply, p) => pure ((reply, stored), p)
    | (.ok row, p) =>
      let (more, p) ← accept (ascii ",") p
      if more then insertLoop plan params fuel (stored ++ [row]) p
      else pure ((.persist, stored ++ [row]), p)

/-! ## UPDATE and DELETE -/

/-- `if (parser.Accept("where")) predicate = parser.Expression(&status);` -/
def wherePredicate : ParseM ExprPtr := do
  if ← accept (ascii "where") then expression else pure none

def assignmentLoop (schema : Schema) : Nat → List (Nat × ExprPtr) → Front (List (Nat × ExprPtr))
  | 0, _ => exhausted
  | fuel + 1, assignments => do
    let name ← identifier
    let p ← get
    match p.status, schema.find name with
    | .ok, some index =>
      expectOrReturn (ascii "=")
      let expr ← expression
      checkStatus
      if ← accept (ascii ",") then assignmentLoop schema fuel (assignments ++ [(index, expr)])
      else pure (assignments ++ [(index, expr)])
    | _, _ => reject (.notFound (ascii "unknown column"))

structure UpdatePlan where
  name : Bytes
  table : Table
  assignments : List (Nat × ExprPtr)
  predicate : ExprPtr

def updateHeader (tables : Tables) : Front UpdatePlan := do
  let name ← tableName
  let table ← findTable tables name
  expectOrReturn (ascii "set")
  let assignments ← assignmentLoop table.schema (← loopBound) []
  let predicate ← wherePredicate
  pure ⟨name, table, assignments, predicate⟩

def checkRowStatus : RowM Unit := do
  let status ← get
  if status = .ok then pure () else throw status

/-- Whether the predicate, if any, selects the context's row. -/
def selects (context : EvalContext) (predicate : ExprPtr) : RowM Bool := do
  let selected ← (match predicate with
    | none => pure (some (.boolean true))
    | some expr => evalPtr context (some expr) : StatusM (Option Value))
  checkRowStatus
  pure (selected.any truthy)

def assign (context : EvalContext) : List (Nat × ExprPtr) → Row → RowM Row
  | [], next => pure next
  | (column, expr) :: assignments, next => do
    let value ← (evalPtr context expr : StatusM (Option Value))
    checkRowStatus
    match value with
    | none => throw .ok
    | some value => assign context assignments (next.set column value)

/-- What UPDATE stores for a row, given the other rows of the table. -/
def updateRow (plan : UpdatePlan) (params : List Value) (others : List Row) (row : Row) : RowM Row := do
  let context : EvalContext := ⟨some plan.table.schema, some row, params⟩
  if ← selects context plan.predicate then
    let next ← assign context plan.assignments row
    let status ← (validateRow plan.table.schema others next : StatusM Status)
    if status = .ok then pure next else throw status
  else pure row

/-- The rows are overwritten in place: `visited` holds their new values. -/
def updateLoop (plan : UpdatePlan) (params : List Value) : (visited rest : List Row) → Status →
    Outcome (Reply × List Row)
  | visited, [], _ => .done (.persist, visited)
  | visited, row :: rest, status => do
    match ← (updateRow plan params (visited ++ rest) row).exec status with
    | (.error returned, _) => pure (.status returned, visited ++ row :: rest)
    | (.ok next, status) => updateLoop plan params (visited ++ [next]) rest status

structure DeletePlan where
  name : Bytes
  table : Table
  predicate : ExprPtr

def deleteHeader (tables : Tables) : Front DeletePlan := do
  expectOrReturn (ascii "from")
  let name ← tableName
  let table ← findTable tables name
  let predicate ← wherePredicate
  pure ⟨name, table, predicate⟩

/-- The rows that the predicate selects, or those that it does not select. -/
def filterRows (schema : Schema) (params : List Value) (predicate : ExprPtr) (wanted : Bool) : List Row → RowM (List Row)
  | [] => pure []
  | row :: rows => do
    let selected ← selects ⟨some schema, some row, params⟩ predicate
    let rest ← filterRows schema params predicate wanted rows
    pure (if selected = wanted then row :: rest else rest)

/-! ## SELECT -/

def selectLoop : Nat → List Expr → Front (List Expr)
  | 0, _ => exhausted
  | fuel + 1, expressions => do
    let expr ← expression
    checkStatus
    match expr with
    | none => undefined
    | some expr =>
      if ← accept (ascii ",") then selectLoop fuel (expressions ++ [expr])
      else pure (expressions ++ [expr])

def orderLoop : Nat → List (ExprPtr × Bool) → Front (List (ExprPtr × Bool))
  | 0, _ => exhausted
  | fuel + 1, ordering => do
    let expr ← expression
    checkStatus
    let descending ← accept (ascii "desc")
    let _ ← accept (ascii "asc")
    if ← accept (ascii ",") then orderLoop fuel (ordering ++ [(expr, descending)])
    else pure (ordering ++ [(expr, descending)])

def orderBy : Front (List (ExprPtr × Bool)) := do
  if ← accept (ascii "order") then
    expectOrReturn (ascii "by")
    orderLoop (← loopBound) []
  else pure []

/-- The operand of LIMIT or OFFSET. -/
def integerOperand (params : List Value) (message : Bytes) : Front Int64 := do
  let expr ← expression
  let value ← (evaluate (evalPtr ⟨none, none, params⟩ expr) : ParseM (Option Value))
  let p ← get
  match p.status, value with
  | .ok, some (.integer n) => pure n
  | _, _ => reject (.invalidArgument message)

def limitClause (params : List Value) : Front (Int64 × Int64) := do
  if ← accept (ascii "limit") then
    let limit ← integerOperand params (ascii "LIMIT requires an integer")
    if ← accept (ascii "offset") then
      let offset ← integerOperand params (ascii "OFFSET requires an integer")
      pure (limit, offset)
    else pure (limit, 0)
  else pure (-1, 0)

structure SelectPlan where
  distinct : Bool
  expressions : List Expr
  name : Bytes
  table : Table
  predicate : ExprPtr
  ordering : List (ExprPtr × Bool)
  limit : Int64
  offset : Int64

def selectHeader (tables : Tables) (params : List Value) : Front SelectPlan := do
  let distinct ← accept (ascii "distinct")
  let star ← accept (ascii "*")
  let expressions ← if star then pure [] else selectLoop (← loopBound) []
  expectOrReturn (ascii "from")
  let name ← tableName
  let table ← findTable tables name
  let predicate ← wherePredicate
  let ordering ← orderBy
  let (limit, offset) ← limitClause params
  pure ⟨distinct, expressions, name, table, predicate, ordering, limit, offset⟩

/-- The listed expressions, or every column of the table. -/
def SelectPlan.outputs (plan : SelectPlan) : List Expr :=
  if plan.expressions.isEmpty then plan.table.schema.columns.map (fun column => Expr.ofColumn column.name)
  else plan.expressions

def outputColumn (schema : Schema) (expr : Expr) : Column :=
  if expr.kind = .kColumn then
    match (schema.find expr.name).bind (fun index => schema.columns[index]?) with
    | some column => column
    | none => { name := expr.name, type := .kText }
  else { name := ascii "expr", type := .kText }

/-- The comparison of ORDER BY. -/
def sortsBefore (schema : Schema) (params : List Value) (left right : Row) : List (ExprPtr × Bool) → StatusM Bool
  | [] => pure false
  | (expr, descending) :: ordering => do
    let lv ← evalPtr ⟨some schema, some left, params⟩ expr
    let rv ← evalPtr ⟨some schema, some right, params⟩ expr
    match lv, rv with
    | some lv, some rv =>
      match lv.compare rv with
      | none => sortsBefore schema params left right ordering
      | some 0 => sortsBefore schema params left right ordering
      | some order => pure (if descending then decide (order > 0) else decide (order < 0))
    | _, _ => pure false

def insertSorted (less : Row → Row → StatusM Bool) (row : Row) : List Row → StatusM (List Row)
  | [] => pure [row]
  | first :: rest => do
    if ← less row first then pure (row :: first :: rest)
    else
      let rest ← insertSorted less row rest
      pure (first :: rest)

/-- A stable sort; which comparisons `std::stable_sort` makes is left to the implementation. -/
def stableSort (less : Row → Row → StatusM Bool) (rows : List Row) : StatusM (List Row) :=
  rows.foldlM (fun sorted row => insertSorted less row sorted) []

def project (context : EvalContext) : List Expr → RowM Row
  | [] => pure []
  | expr :: expressions => do
    let value ← (evalExpr context expr : StatusM (Option Value))
    checkRowStatus
    match value with
    | none => throw .ok
    | some value =>
      let rest ← project context expressions
      pure (value :: rest)

def distinctKey (row : Row) : Bytes := row.flatMap (fun value => value.toString ++ [0])

structure OutputState where
  seen : List Bytes := []
  skipped : Int := 0
  rows : List Row := []

def outputLoop (plan : SelectPlan) (params : List Value) : List Row → OutputState → RowM (List Row)
  | [], s => pure s.rows
  | row :: candidates, s => do
    if s.skipped < plan.offset.toInt then outputLoop plan params candidates { s with skipped := s.skipped + 1 }
    else if 0 ≤ plan.limit.toInt ∧ plan.limit.toInt ≤ s.rows.length then pure s.rows
    else
      let output ← project ⟨some plan.table.schema, some row, params⟩ plan.outputs
      if plan.distinct && s.seen.contains (distinctKey output) then outputLoop plan params candidates s
      else
        outputLoop plan params candidates
          { s with rows := s.rows ++ [output], seen := distinctKey output :: s.seen }

def selectRows (plan : SelectPlan) (params : List Value) : RowM (List Row) := do
  let candidates ← filterRows plan.table.schema params plan.predicate true plan.table.rows
  let sorted ← (stableSort (fun left right => sortsBefore plan.table.schema params left right plan.ordering) candidates :
    StatusM (List Row))
  outputLoop plan params sorted {}

/-! ## Dispatch -/

/-- The reply, the tables when the statement returns, and the parser after its last call. -/
abbrev Result := (Reply × Tables) × Parser

def ofFront (tables : Tables) (m : Front Tables) (p : Parser) : Outcome Result := do
  match ← m.exec p with
  | (.error reply, p) => pure ((reply, tables), p)
  | (.ok tables', p) => pure ((.persist, tables'), p)

def runInsert (tables : Tables) (params : List Value) (p : Parser) : Outcome Result := do
  match ← (insertHeader tables).exec p with
  | (.error reply, p) => pure ((reply, tables), p)
  | (.ok plan, p) =>
    let ((reply, rows), p) ← insertLoop plan params (p.tokens.length + 1) plan.table.rows p
    pure ((reply, tables.insert plan.name { plan.table with rows := rows }), p)

def runUpdate (tables : Tables) (params : List Value) (p : Parser) : Outcome Result := do
  match ← (updateHeader tables).exec p with
  | (.error reply, p) => pure ((reply, tables), p)
  | (.ok plan, p) =>
    let (reply, rows) ← updateLoop plan params [] plan.table.rows p.status
    pure ((reply, tables.insert plan.name { plan.table with rows := rows }), p)

def runDelete (tables : Tables) (params : List Value) (p : Parser) : Outcome Result := do
  match ← (deleteHeader tables).exec p with
  | (.error reply, p) => pure ((reply, tables), p)
  | (.ok plan, p) =>
    match ← (filterRows plan.table.schema params plan.predicate false plan.table.rows).exec p.status with
    | (.error returned, _) => pure ((.status returned, tables), p)
    | (.ok kept, _) => pure ((.persist, tables.insert plan.name { plan.table with rows := kept }), p)

def runSelect (tables : Tables) (params : List Value) (p : Parser) : Outcome Result := do
  match ← (selectHeader tables params).exec p with
  | (.error reply, p) => pure ((reply, tables), p)
  | (.ok plan, p) =>
    match ← (selectRows plan params).exec p.status with
    | (.error returned, _) => pure ((.status returned, tables), p)
    | (.ok rows, _) => pure ((.rows ⟨plan.outputs.map (outputColumn plan.table.schema)⟩ rows, tables), p)

def isIndexDdl (command first second : Bytes) : Bool :=
  (command == ascii "create" && (first == ascii "index" || (first == ascii "unique" && second == ascii "index"))) ||
    (command == ascii "drop" && first == ascii "index")

/-- The statements other than `COUNT(*)`, from the command word on. -/
def runCommand (tables : Tables) (params : List Value) (p : Parser) : Outcome Result := do
  let (command, _) ← Parser.peek p
  let (first, _) ← Parser.peekAt 1 p
  let (second, _) ← Parser.peekAt 2 p
  let command := command.text
  if isIndexDdl command first.text second.text then
    pure ((.status (.notSupported (ascii "index DDL requires the page-backed index milestone")), tables), p)
  else
    let (_, q) ← accept command p
    if command = ascii "create" then ofFront tables (createTable tables) q
    else if command = ascii "drop" then ofFront tables (dropTable tables) q
    else if command = ascii "insert" then runInsert tables params q
    else if command = ascii "update" then runUpdate tables params q
    else if command = ascii "delete" then runDelete tables params q
    else if command = ascii "select" then runSelect tables params q
    else pure ((.status (.syntaxError (ascii "unsupported SQL statement")), tables), p)

/-! ## COUNT(*) -/

def countMarker : Bytes := ascii "count(*)"

def isCount (sql command : Bytes) : Bool := command == ascii "select" && (findSubstring countMarker (lower sql)).isSome

def countSchema : Schema := ⟨[⟨ascii "count", .kInteger, false, false, false⟩]⟩

/-- `COUNT(*)` of the table named after the first ` from `, ignoring every clause. -/
def countTable (tables : Tables) (sql : Bytes) : Reply :=
  let lowered := lower sql
  match findSubstring (ascii " from ") lowered with
  | none => .status (.syntaxError (ascii "COUNT requires FROM"))
  | some start =>
    let name := ((lowered.drop (start + 6)).dropWhile isSpace).takeWhile isAlnum
    match tables.find? name with
    | none => .status (.notFound (ascii "table does not exist"))
    | some table => .rows countSchema [[.integer (Int64.ofNat table.rows.length)]]

/-- The text with the first `COUNT(*)` replaced by `*`. -/
def expandCount (sql : Bytes) : Bytes :=
  let start := (findSubstring countMarker (lower sql)).getD 0
  sql.take start ++ ascii "*" ++ sql.drop (start + countMarker.length)

/-- `ExecuteSql` up to the call of `persist`. The working set is refreshed once the text is tokenized; `COUNT(*)`
runs the expanded text, which is shorter. -/
def run (tables : Tables) (params : List Value) : Nat → Bytes → Outcome Result
  | 0, _ => .outOfFuel
  | fuel + 1, sql =>
    match tokenize sql with
    | .error status => .done ((.status status, tables), ⟨[], 0, 0, false, .ok⟩)
    | .ok tokens => do
      let tables := refreshCatalog tables
      let p : Parser := ⟨tokens, 0, 0, false, .ok⟩
      let (command, _) ← Parser.peek p
      if command.text = ascii "explain" then
        pure ((.rows ⟨[⟨ascii "plan", .kText, false, false, false⟩]⟩ [[.text (ascii "SeqScan (rule-based planner)")]], tables), p)
      else if isCount sql command.text then
        match ← run tables params fuel (expandCount sql) with
        | ((.rows _ rows, _), _) => pure ((.rows countSchema [[.integer (Int64.ofNat rows.length)]], tables), p)
        | ((.status (.error _ _), _), _) => pure ((countTable tables sql, tables), p)
        | _ => .undefined
      else runCommand tables params p

end Statement

/-- `ExecuteSql` on a working set. -/
def runStatement (tables : Tables) (sql : Bytes) (params : List Value) : Outcome Statement.Result :=
  Statement.run tables params (sql.length + 1) sql

end TupleStone
