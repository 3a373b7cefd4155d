import TupleStone.Api.Durability
import TupleStone.Api.IntegerComparison

/-! # Constraints over whole histories

A table keeps to its schema: its rows have one value for every column, of the column's type or NULL where that is allowed, and
no two of them share a key. `ValidateRow` looks at one row and at the others as they stand; an INSERT and an UPDATE keep the
whole table by it, row after row, and so does everything else that happens to a database.
-/

set_option autoImplicit false

namespace TupleStone

open OpProgram

/-- A value that may stand in the column. -/
structure Takes (column : Column) (value : Value) : Prop where
  nullable : value = .null → column.nullable = true
  type : value ≠ .null → value.type = column.type ∨ Statement.isNumeric value.type ∧ Statement.isNumeric column.type

/-- No PRIMARY KEY or UNIQUE column holds equal values in both rows. -/
def Apart (schema : Schema) (row other : Row) : Prop :=
  ∀ (i : Nat) (column : Column) (value value' : Value), schema.columns[i]? = some column →
    (column.primaryKey || column.unique) = true → row[i]? = some value → other[i]? = some value' → value ≠ .null → value.same value' = false

structure Lawful (schema : Schema) (rows : List Row) : Prop where
  width : ∀ row ∈ rows, row.length = schema.size
  takes : ∀ row ∈ rows, ∀ (i : Nat) (column : Column) (value : Value), schema.columns[i]? = some column → row[i]? = some value → Takes column value
  apart : rows.Pairwise (Apart schema)

variable {schema : Schema} {rows rows' visited rest : List Row} {row next other : Row}

theorem Value.same_null {value : Value} (h : value ≠ .null) : value.same .null = false := by
  cases value with
  | null => exact absurd rfl h
  | _ => rfl

theorem Apart.symm (h : Apart schema row other) : Apart schema other row := by
  intro i column value value' hColumn hKey hValue hValue' hNull
  rw [Value.same_comm]
  cases hEmpty : decide (value' = .null) with
  | true =>
    rw [of_decide_eq_true hEmpty, Value.same_comm]
    exact Value.same_null hNull
  | false => exact h i column value' value hColumn hKey hValue' hValue (of_decide_eq_false hEmpty)

/-! ## Validated rows -/

namespace Statement

theorem takes_of_checkValue {column : Column} {value : Value} (h : checkValue column value = none) : Takes column value := by
  rw [checkValue] at h
  constructor
  · rintro rfl
    cases hNullable : column.nullable with
    | true => rfl
    | false =>
      rw [hNullable] at h
      cases h
  · intro hValue
    have hPresent : value.isNull = false := by
      cases value with
      | null => exact absurd rfl hValue
      | _ => rfl
    rw [hPresent, if_neg Bool.false_ne_true] at h
    split at h
    · assumption
    · cases h

/-- No row of `existing` holds an equal value. -/
theorem holdsAt_eq_false {i : Nat} {value : Value} {existing : List Row} (h : holdsAt i value existing = .done false)
    (hValue : value ≠ .null) : ∀ row ∈ existing, ∀ stored, row[i]? = some stored → stored.same value = false := by
  induction existing with
  | nil =>
    intro row hMem
    cases hMem
  | cons first existing ih =>
    have hPresent : value.isNull = false := by
      cases value with
      | null => exact absurd rfl hValue
      | _ => rfl
    rw [holdsAt] at h
    cases hFirst : first[i]? with
    | none =>
      rw [hFirst] at h
      cases h
    | some found =>
      rw [hFirst, hPresent] at h
      dsimp only at h
      split at h
      · cases h
      · rename_i hDiffers
        intro row hMem stored hStored
        obtain rfl | hRest := List.mem_cons.mp hMem
        · cases hFirst.symm.trans hStored
          simpa using hDiffers
        · exact ih h row hRest stored hStored

/-- What validation says of the row, alone and beside the rows that exist. -/
structure Validated (schema : Schema) (existing : List Row) (row : Row) : Prop where
  width : row.length = schema.size
  takes : ∀ (i : Nat) (column : Column) (value : Value), schema.columns[i]? = some column → row[i]? = some value → Takes column value
  apart : ∀ other ∈ existing, Apart schema row other

theorem validated {existing : List Row} (h : validateRow schema existing row = .done .ok) : Validated schema existing row := by
  obtain ⟨hWidth, hValues, hUnique⟩ := (validateRow_ok_iff schema existing row).mp h
  have hZip : ∀ {i column value}, schema.columns[i]? = some column → row[i]? = some value →
      (schema.columns.zip row)[i]? = some (column, value) := fun hColumn hValue => List.getElem?_zip_eq_some.mpr ⟨hColumn, hValue⟩
  constructor
  · exact hWidth
  · intro i column value hColumn hValue
    exact takes_of_checkValue (hValues _ (List.mem_of_getElem? (hZip hColumn hValue)))
  · intro other hMem i column value value' hColumn hKey hValue hValue' hNull
    have hHolds := (checkUnique_ok_iff existing 0 _).mp hUnique i column value (hZip hColumn hValue) hKey
    rw [Nat.zero_add] at hHolds
    rw [Value.same_comm]
    exact holdsAt_eq_false hHolds hNull other hMem value' hValue'

end Statement

open Statement

/-- One more validated row. -/
theorem Lawful.insert (h : Lawful schema (visited ++ rest)) (hRow : Validated schema (visited ++ rest) row) :
    Lawful schema (visited ++ row :: rest) := by
  have hCases : ∀ other ∈ visited ++ row :: rest, other = row ∨ other ∈ visited ++ rest := by
    intro other hMem
    rw [List.mem_append, List.mem_cons] at hMem
    rw [List.mem_append]
    obtain hVisited | hSame | hRest := hMem
    · exact Or.inr (Or.inl hVisited)
    · exact Or.inl hSame
    · exact Or.inr (Or.inr hRest)
  constructor
  · intro other hMem
    obtain rfl | hOld := hCases other hMem
    · exact hRow.width
    · exact h.width other hOld
  · intro other hMem
    obtain rfl | hOld := hCases other hMem
    · exact hRow.takes
    · exact h.takes other hOld
  · rw [List.pairwise_middle Apart.symm]
    exact List.Pairwise.cons hRow.apart h.apart

theorem Lawful.sublist (h : Lawful schema rows) (hRows : rows'.Sublist rows) : Lawful schema rows' := by
  constructor
  · exact fun row hMem => h.width row (hRows.subset hMem)
  · exact fun row hMem => h.takes row (hRows.subset hMem)
  · exact h.apart.sublist hRows

theorem lawful_nil : Lawful schema [] := by
  constructor
  · intro row hMem
    cases hMem
  · intro row hMem
    cases hMem
  · exact List.Pairwise.nil

/-- An INSERT that stops after any number of rows. -/
theorem Statement.Stored.lawful (h : Stored schema rows rows') (hRows : Lawful schema rows) : Lawful schema rows' := by
  induction h with
  | refl => exact hRows
  | @push stored row _ hRow ih =>
    have hStored : Lawful schema (stored ++ []) := by
      rw [List.append_nil]
      exact ih
    apply hStored.insert
    rw [List.append_nil]
    exact validated hRow

/-- An UPDATE that stops after any number of rows. -/
theorem Statement.Rewritten.lawful (h : Rewritten schema visited rest rows) (hRows : Lawful schema (visited ++ rest)) :
    Lawful schema rows := by
  induction h with
  | stop => exact hRows
  | keep _ ih =>
    apply ih
    rwa [List.append_assoc]
  | @replace visited rest _ row next hRow _ ih =>
    apply ih
    rw [List.append_assoc]
    exact (hRows.sublist ((List.sublist_cons_self row rest).append_left visited)).insert (validated hRow)

/-! ## Tables -/

/-- Every user table is lawful. -/
def Constrained (tables : Tables) : Prop :=
  ∀ name table, isCatalogName name = false → tables.find? name = some table → Lawful table.schema table.rows

variable {tables tables' : Tables}

theorem constrained_userTables : Constrained (userTables tables) ↔ Constrained tables := by
  constructor
  · intro h name table hUser hFound
    exact h name table hUser ((find?_userTables hUser).trans hFound)
  · intro h name table hUser hFound
    exact h name table hUser ((find?_userTables hUser).symm.trans hFound)

theorem Constrained.insert (h : Constrained tables) {name : Bytes} {table : Table}
    (hTable : isCatalogName name = false → Lawful table.schema table.rows) : Constrained (tables.insert name table) := by
  intro other found hUser hFound
  rw [OrderedMap.find?_insert] at hFound
  split at hFound
  · rename_i hSame
    cases hFound
    exact hTable (hSame ▸ hUser)
  · exact h other found hUser hFound

theorem Constrained.refreshCatalog (h : Constrained tables) : Constrained (refreshCatalog tables) := by
  intro name table hUser hFound
  rw [find?_refreshCatalog hUser] at hFound
  exact h name table hUser hFound

theorem Constrained.effect {reply : Reply} (h : Constrained tables) (hEffect : Effect tables reply tables') : Constrained tables' := by
  cases hEffect with
  | unchanged hReply => exact h
  | create hAbsent hLower hTypes => exact h.insert fun _ => lawful_nil
  | drop hFound =>
    intro other found hUser hOther
    rw [OrderedMap.find?_erase] at hOther
    split at hOther
    · cases hOther
    · exact h other found hUser hOther
  | insert hFound hReply hRows => exact h.insert fun hUser => hRows.lawful (h _ _ hUser hFound)
  | update hFound hReply hRows => exact h.insert fun hUser => hRows.lawful (h _ _ hUser hFound)
  | delete hFound hRows => exact h.insert fun hUser => (h _ _ hUser hFound).sublist hRows

theorem preserved_constrained : Preserved Constrained := ⟨Constrained.refreshCatalog, Constrained.effect⟩

/-- A statement outside a transaction that commits, as the next call of a history. -/
theorem History.autocommit {options : Options} {first : Files.Disk FileId} {events : List Occurrence} {w : Files.World FileId}
    {p : Process} (h : History options first events (.up w p)) {id : Nat} {conn : Connection} (hConn : p.connections[id]? = some conn)
    {stmt : Stmt} (hCommits : p.committing (.query id stmt) = some tables) (hFits : p.Fits (.query id stmt)) :
    ∃ p' w' response, p'.db.tables = tables ∧
      History options first (events ++ [.called p (.query id stmt.sql stmt.params) response]) (.up w' p') := by
  obtain ⟨hNone, q, hRun⟩ := Process.run_of_committing hConn hCommits
  have hCall : p.call (.query id stmt.sql stmt.params) = _ := Process.onConnection_autocommit hConn hNone hRun .reply
  have hPossible : Possible (persistCommittedTables (p.db.publish tables) tables)
      (run Files.handler (persistCommittedTables (p.db.publish tables) tables) w).1 := possible_run _ w
  have hHistory := h.called (c := .query id stmt.sql stmt.params) hFits (by rw [hCall, run_bind]; rfl)
  exact ⟨_, _, _, (possible_persist hPossible).1, hHistory⟩

/-- A process creates its files, connects and creates a table. -/
theorem history_created : ∃ (p : Process) (w : Files.World FileId) (response : Response), p.db.tables = tablesWithT ∧ History {} (fun _ => none)
    [.opened freshDatabase, .called unconnected .connect (.connection 0), .called fresh (.query 0 createTableT []) response] (.up w p) := by
  have hCommits := committing_fresh
  have hFits := fits_createTable
  rw [act_fresh] at hCommits hFits
  have hConn : fresh.connections[0]? = some ({} : Connection) := rfl
  exact history_connected.autocommit hConn hCommits hFits

end TupleStone
