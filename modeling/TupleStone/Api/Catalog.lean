import TupleStone.Api.Tables
import Mathlib.Data.List.Forall2

/-! # The catalog mirrors the tables

`RefreshCatalog` empties the three catalog tables and then fills two of them while it iterates over the map that
holds them. The rows it pushes are those of `refreshCatalog`: one for each listed table, one for each of its columns.
-/

set_option autoImplicit false

namespace TupleStone

namespace Catalog

/-! ## The loops of `RefreshCatalog` -/

/-- `(*tables)[name].rows.push_back(row)` -/
def pushRow (tables : Tables) (name : Bytes) (row : Row) : Tables :=
  let table := (tables.find? name).getD ⟨⟨[]⟩, []⟩
  tables.insert name { table with rows := table.rows ++ [row] }

def columnLoop (tableId : Int64) : List (Column × Nat) → Tables → Tables
  | [], tables => tables
  | (column, ordinal) :: rest, tables => columnLoop tableId rest (pushRow tables columnsName (columnRow tableId ordinal column))

/-- The keys still to visit; the value of a key is read when it is visited. -/
def tableLoop : List Bytes → Int64 → Tables → Tables
  | [], _, tables => tables
  | name :: rest, tableId, tables =>
    if isSystemName name then tableLoop rest tableId tables
    else
      match tables.find? name with
      | none => tables
      | some table =>
        let tables := pushRow tables tablesName (tableRow tableId name table)
        tableLoop rest (tableId + 1) (columnLoop tableId table.schema.columns.zipIdx tables)

/-- The catalog tables with these rows. -/
def withRows (tables : Tables) (tableRows columnRows : List Row) : Tables :=
  ((tables.insert tablesName ⟨⟨tableColumns⟩, tableRows⟩).insert columnsName ⟨⟨columnColumns⟩, columnRows⟩).insert
    indexesName ⟨⟨indexColumns⟩, []⟩

/-- `RefreshCatalog` -/
def rebuild (tables : Tables) : Tables :=
  let tables := withRows tables [] []
  tableLoop (tables.entries.map Prod.fst) 1 tables

/-! ## The rows that are pushed -/

variable (tables : Tables) (tableRows columnRows : List Row)

theorem find?_withRows {name : Bytes} (h : isSystemName name = false) :
    (withRows tables tableRows columnRows).find? name = tables.find? name := by
  have hNe : ∀ {other : Bytes}, isSystemName other = true → name ≠ other := by
    rintro other hOther rfl
    rw [h] at hOther
    cases hOther
  rw [withRows, OrderedMap.find?_insert_of_ne _ (hNe (by decide)), OrderedMap.find?_insert_of_ne _ (hNe (by decide)),
    OrderedMap.find?_insert_of_ne _ (hNe (by decide))]

theorem pushRow_tables (row : Row) :
    pushRow (withRows tables tableRows columnRows) tablesName row = withRows tables (tableRows ++ [row]) columnRows := by
  have hFind : (withRows tables tableRows columnRows).find? tablesName = some ⟨⟨tableColumns⟩, tableRows⟩ := by
    rw [withRows, OrderedMap.find?_insert_of_ne _ (by decide), OrderedMap.find?_insert_of_ne _ (by decide),
      OrderedMap.find?_insert_self]
  rw [pushRow, hFind, Option.getD_some, withRows, withRows]
  apply OrderedMap.ext_find?
  intro name
  simp only [OrderedMap.find?_insert]
  have hColumns : tablesName ≠ columnsName := by decide
  have hIndexes : tablesName ≠ indexesName := by decide
  by_cases hName : name = tablesName
  · rw [hName, if_pos rfl, if_neg hIndexes, if_neg hColumns, if_pos rfl]
  · rw [if_neg hName, if_neg hName, if_neg hName]

theorem pushRow_columns (row : Row) :
    pushRow (withRows tables tableRows columnRows) columnsName row = withRows tables tableRows (columnRows ++ [row]) := by
  have hFind : (withRows tables tableRows columnRows).find? columnsName = some ⟨⟨columnColumns⟩, columnRows⟩ := by
    rw [withRows, OrderedMap.find?_insert_of_ne _ (by decide), OrderedMap.find?_insert_self]
  rw [pushRow, hFind, Option.getD_some, withRows, withRows]
  apply OrderedMap.ext_find?
  intro name
  simp only [OrderedMap.find?_insert]
  have hIndexes : columnsName ≠ indexesName := by decide
  by_cases hName : name = columnsName
  · rw [hName, if_pos rfl, if_neg hIndexes, if_pos rfl]
  · rw [if_neg hName, if_neg hName, if_neg hName]

theorem columnLoop_eq (tableId : Int64) (columns : List (Column × Nat)) :
    columnLoop tableId columns (withRows tables tableRows columnRows) =
      withRows tables tableRows (columnRows ++ columns.map (fun column => columnRow tableId column.2 column.1)) := by
  induction columns generalizing columnRows with
  | nil => rw [columnLoop, List.map_nil, List.append_nil]
  | cons column columns ih => rw [columnLoop, pushRow_columns, ih, List.append_assoc, List.map_cons, List.singleton_append]

/-- The tables that the loop lists, from the id `first` on. -/
def listed (entries : List (Bytes × Table)) (first : Nat) : List ((Bytes × Table) × Nat) :=
  (entries.filter (fun entry => !isSystemName entry.1)).zipIdx first

def tableRowOf (listed : (Bytes × Table) × Nat) : Row := tableRow (Int64.ofNat listed.2) listed.1.1 listed.1.2

def columnRowsOf (listed : (Bytes × Table) × Nat) : List Row :=
  listed.1.2.schema.columns.zipIdx.map (fun column => columnRow (Int64.ofNat listed.2) column.2 column.1)

/-- The loop pushes to the catalog tables only, which it does not visit. -/
theorem tableLoop_eq {entries : List (Bytes × Table)}
    (h : ∀ entry ∈ entries, isSystemName entry.1 = false → tables.find? entry.1 = some entry.2) (first : Nat) :
    tableLoop (entries.map Prod.fst) (Int64.ofNat first) (withRows tables tableRows columnRows) =
      withRows tables (tableRows ++ (listed entries first).map tableRowOf)
        (columnRows ++ (listed entries first).flatMap columnRowsOf) := by
  induction entries generalizing first tableRows columnRows with
  | nil => simp [tableLoop, listed]
  | cons entry entries ih =>
    obtain ⟨hEntry, hEntries⟩ := List.forall_mem_cons.mp h
    rw [List.map_cons, tableLoop]
    cases hSystem : isSystemName entry.1 with
    | true =>
      have hListed : listed (entry :: entries) first = listed entries first := by
        simp [listed, hSystem]
      rw [if_pos rfl, ih _ _ hEntries, hListed]
    | false =>
      have hListed : listed (entry :: entries) first = (entry, first) :: listed entries (first + 1) := by
        simp [listed, hSystem]
      have hNext : Int64.ofNat first + 1 = Int64.ofNat (first + 1) := (Int64.ofNat_add first 1).symm
      rw [if_neg Bool.false_ne_true, find?_withRows _ _ _ hSystem, hEntry hSystem]
      dsimp only
      rw [pushRow_tables, columnLoop_eq, hNext, ih _ _ hEntries, hListed, List.map_cons, List.flatMap_cons, List.append_assoc,
        List.append_assoc]
      rfl

theorem rebuild_eq : rebuild tables = refreshCatalog tables := by
  have hFilter : (withRows tables [] []).filterKeys (fun name => !isSystemName name) =
      tables.filterKeys (fun name => !isSystemName name) := by
    rw [withRows, OrderedMap.filterKeys_insert_of_neg _ _ (by decide), OrderedMap.filterKeys_insert_of_neg _ _ (by decide),
      OrderedMap.filterKeys_insert_of_neg _ _ (by decide)]
  have hListed : listed (withRows tables [] []).entries 1 = listedTables tables :=
    congrArg (fun map : Tables => map.entries.zipIdx 1) hFilter
  have hRead : ∀ entry ∈ (withRows tables [] []).entries, isSystemName entry.1 = false → tables.find? entry.1 = some entry.2 := by
    intro entry hEntry hName
    rw [← find?_withRows tables [] [] hName]
    exact (OrderedMap.find?_eq_some_iff _ _ _).mpr hEntry
  have hLoop := tableLoop_eq tables [] [] hRead 1
  rw [hListed] at hLoop
  exact hLoop

/-! ## Reading the catalog -/

/-- What containers of a 64-bit platform can hold. -/
structure Held (tables : Tables) : Prop where
  size : tables.size < 2 ^ 63
  rows : ∀ entry ∈ tables.entries, entry.2.rows.length < 2 ^ 63
  columns : ∀ entry ∈ tables.entries, entry.2.schema.size < 2 ^ 63

/-- The rows of `tuplestone_columns` that a join on `table_id` finds. -/
def joined (columnRows : List Row) (tableId : Int64) : List Row :=
  columnRows.filter (fun row => row.head? == some (.integer tableId))

def ordinal? (row : Row) : Option Int :=
  match (row[1]? : Option Value) with
  | some (.integer ordinal) => some ordinal.toInt
  | _ => none

/-- The row that describes a table, with the id it has in the list. -/
def DescribesTable (listed : (Bytes × Table) × Nat) (row : Row) : Prop :=
  ∃ tableId count : Int64, tableId.toInt = listed.2 ∧ count.toInt = listed.1.2.rows.length ∧
    row = [.integer tableId, .text listed.1.1, .integer 0, .integer count]

def DescribesColumn (tableId : Int64) (column : Column × Nat) (row : Row) : Prop :=
  ∃ ordinal type : Int64, ordinal.toInt = column.2 ∧ type.toInt = column.1.type.toByte.toNat ∧
    row = [.integer tableId, .integer ordinal, .text column.1.name, .integer type, .boolean column.1.nullable,
      .boolean column.1.primaryKey]

/-- The catalog's rows against the listed tables, which are in name order. -/
structure Mirrors (listed : List ((Bytes × Table) × Nat)) (tableRows columnRows : List Row) : Prop where
  tables : List.Forall₂ DescribesTable listed tableRows
  columns : ∀ table ∈ listed, ∀ tableId : Int64, tableId.toInt = table.2 → ∀ ordered : List Row,
    ordered.Perm (joined columnRows tableId) → ordered.Pairwise (fun a b => ∀ m ∈ ordinal? a, ∀ n ∈ ordinal? b, m ≤ n) →
      List.Forall₂ (DescribesColumn tableId) table.1.2.schema.columns.zipIdx ordered
  nothingElse : ∀ row ∈ columnRows, ∃ table ∈ listed, ∃ tableId : Int64, tableId.toInt = table.2 ∧
    row ∈ joined columnRows tableId

/-! ## The rows mirror the tables -/

theorem mem_zipIdx_listed {entries : List (Bytes × Table)} {first : Nat} {table : (Bytes × Table) × Nat}
    (h : table ∈ entries.zipIdx first) : table.1 ∈ entries ∧ first ≤ table.2 ∧ table.2 < first + entries.length := by
  obtain ⟨hLow, hHigh, hGet⟩ := List.mem_zipIdx (x := table.1) (i := table.2) h
  exact ⟨hGet ▸ List.getElem_mem _, hLow, hHigh⟩

theorem Held.listed {tables : Tables} (h : Held tables) {table : (Bytes × Table) × Nat} (hTable : table ∈ listedTables tables) :
    table.2 < 2 ^ 63 ∧ table.1.2.rows.length < 2 ^ 63 ∧ table.1.2.schema.size < 2 ^ 63 := by
  obtain ⟨hEntry, -, hIndex⟩ := mem_zipIdx_listed hTable
  have hMem := List.mem_of_mem_filter hEntry
  have hLength : (tables.entries.filter (fun entry => !isSystemName entry.1)).length ≤ tables.entries.length :=
    List.length_filter_le _ _
  have hSize : tables.entries.length < 2 ^ 63 := h.size
  exact ⟨by omega, h.rows _ hMem, h.columns _ hMem⟩

theorem describesTable_tableRowOf {table : (Bytes × Table) × Nat} (hIndex : table.2 < 2 ^ 63)
    (hRows : table.1.2.rows.length < 2 ^ 63) : DescribesTable table (tableRowOf table) :=
  ⟨_, _, Int64.toInt_ofNat_of_lt hIndex, Int64.toInt_ofNat_of_lt hRows, rfl⟩

theorem mem_joined_columnRow {tableId : Int64} {rows : List Row} {row : Row} :
    row ∈ joined rows tableId ↔ row ∈ rows ∧ row.head? = some (.integer tableId) := by
  rw [joined, List.mem_filter, beq_iff_eq]

theorem joined_columnRowsOf (table : (Bytes × Table) × Nat) (tableId : Int64) :
    joined (columnRowsOf table) tableId = if Int64.ofNat table.2 = tableId then columnRowsOf table else [] := by
  split
  · next hId =>
    apply List.filter_eq_self.mpr
    intro row hRow
    obtain ⟨column, -, rfl⟩ := List.mem_map.mp hRow
    simp [columnRow, hId]
  · next hId =>
    apply List.filter_eq_nil_iff.mpr
    intro row hRow
    obtain ⟨column, -, rfl⟩ := List.mem_map.mp hRow
    simp [columnRow, hId]

/-- A join on the id of one table finds the rows that were pushed for it. -/
theorem joined_flatMap {tables : List (Bytes × Table)} {first : Nat} (hBound : first + tables.length ≤ 2 ^ 63)
    {table : (Bytes × Table) × Nat} (hTable : table ∈ tables.zipIdx first) {tableId : Int64} (hId : tableId.toInt = table.2) :
    joined ((tables.zipIdx first).flatMap columnRowsOf) tableId = columnRowsOf table := by
  have hSame : ∀ index, index < 2 ^ 63 → (Int64.ofNat index = tableId ↔ index = table.2) := by
    intro index hIndex
    rw [← Int64.toInt_inj, Int64.toInt_ofNat_of_lt hIndex, hId]
    omega
  induction tables generalizing first with
  | nil => cases hTable
  | cons entry entries ih =>
    rw [List.length_cons] at hBound
    rw [List.zipIdx_cons, List.flatMap_cons, joined, List.filter_append]
    change joined (columnRowsOf (entry, first)) tableId ++ joined _ tableId = _
    have hHead := hSame first (by omega)
    rw [joined_columnRowsOf]
    rw [List.zipIdx_cons] at hTable
    obtain rfl | hTable := List.mem_cons.mp hTable
    · have hRest : joined ((entries.zipIdx (first + 1)).flatMap columnRowsOf) tableId = [] := by
        rw [joined, List.filter_flatMap]
        apply List.flatMap_eq_nil_iff.mpr
        intro other hOther
        obtain ⟨-, hLow, hHigh⟩ := mem_zipIdx_listed hOther
        change joined (columnRowsOf other) tableId = []
        rw [joined_columnRowsOf, if_neg]
        rw [hSame other.2 (by omega)]
        exact Nat.ne_of_gt hLow
      rw [if_pos (hHead.mpr rfl), hRest, List.append_nil]
    · obtain ⟨-, hLow, -⟩ := mem_zipIdx_listed hTable
      have hOther : ¬ Int64.ofNat first = tableId := by
        rw [hHead]
        exact Nat.ne_of_lt hLow
      rw [if_neg hOther, List.nil_append]
      exact ih (by omega) hTable

theorem forall₂_columnRowsOf {table : (Bytes × Table) × Nat} (hColumns : table.1.2.schema.size < 2 ^ 63) {tableId : Int64}
    (hId : Int64.ofNat table.2 = tableId) :
    List.Forall₂ (DescribesColumn tableId) table.1.2.schema.columns.zipIdx (columnRowsOf table) := by
  rw [columnRowsOf, List.forall₂_map_right_iff, List.forall₂_same]
  intro column hColumn
  obtain ⟨-, hOrdinal, -⟩ := List.mem_zipIdx (x := column.1) (i := column.2) hColumn
  rw [Schema.size] at hColumns
  have hType : column.1.type.toByte.toNat < 2 ^ 63 := column.1.type.toByte.toNat_lt.trans (by decide)
  exact ⟨_, _, Int64.toInt_ofNat_of_lt (by omega), Int64.toInt_ofNat_of_lt hType, by rw [columnRow, hId]⟩

theorem ordinal?_columnRow (tableId : Int64) {ordinal : Nat} (h : ordinal < 2 ^ 63) (column : Column) :
    ordinal? (columnRow tableId ordinal column) = some (ordinal : Int) := by
  change some (Int64.ofNat ordinal).toInt = _
  rw [Int64.toInt_ofNat_of_lt h]

/-- The rows of a table stand in the order of their ordinals, so putting them in that order changes nothing. -/
theorem eq_columnRowsOf_of_perm {table : (Bytes × Table) × Nat} (hColumns : table.1.2.schema.size < 2 ^ 63) {ordered : List Row}
    (hPerm : ordered.Perm (columnRowsOf table))
    (hOrdered : ordered.Pairwise (fun a b => ∀ m ∈ ordinal? a, ∀ n ∈ ordinal? b, m ≤ n)) : ordered = columnRowsOf table := by
  have hRow : ∀ row ∈ columnRowsOf table, ∃ column ∈ table.1.2.schema.columns.zipIdx,
      row = columnRow (Int64.ofNat table.2) column.2 column.1 ∧ ordinal? row = some (column.2 : Int) := by
    intro row hRow
    obtain ⟨column, hColumn, rfl⟩ := List.mem_map.mp hRow
    obtain ⟨-, hOrdinal, -⟩ := List.mem_zipIdx (x := column.1) (i := column.2) hColumn
    rw [Schema.size] at hColumns
    exact ⟨column, hColumn, rfl, ordinal?_columnRow _ (by omega) _⟩
  apply List.Perm.eq_of_pairwise _ hOrdered _ hPerm
  · intro a b hA hB hLe hGe
    obtain ⟨c, hC, rfl, hOrdinalA⟩ := hRow a (hPerm.mem_iff.mp hA)
    obtain ⟨d, hD, rfl, hOrdinalB⟩ := hRow b hB
    have hEq : c.2 = d.2 := by
      have hLe := hLe _ hOrdinalA _ hOrdinalB
      have hGe := hGe _ hOrdinalB _ hOrdinalA
      omega
    obtain ⟨-, -, hGetC⟩ := List.mem_zipIdx (x := c.1) (i := c.2) hC
    obtain ⟨-, -, hGetD⟩ := List.mem_zipIdx (x := d.1) (i := d.2) hD
    have hColumn : c.1 = d.1 := by
      rw [hGetC, hGetD]
      congr 1
    rw [hEq, hColumn]
  · rw [columnRowsOf, List.pairwise_map]
    have hIndexes : (table.1.2.schema.columns.zipIdx.map Prod.snd).Pairwise (· < ·) := by
      rw [List.zipIdx_map_snd]
      exact List.pairwise_lt_range'
    have hBounds : ∀ column ∈ table.1.2.schema.columns.zipIdx, column.2 < 2 ^ 63 := by
      intro column hColumn
      obtain ⟨-, hOrdinal, -⟩ := List.mem_zipIdx (x := column.1) (i := column.2) hColumn
      rw [Schema.size] at hColumns
      omega
    rw [List.pairwise_map] at hIndexes
    apply hIndexes.imp_of_mem
    intro c d hC hD hLess m hm n hn
    rw [ordinal?_columnRow _ (hBounds c hC)] at hm
    rw [ordinal?_columnRow _ (hBounds d hD)] at hn
    cases hm
    cases hn
    omega

theorem mirrors {tables : Tables} (h : Held tables) :
    Mirrors (listedTables tables) (catalogTableRows tables) (catalogColumnRows tables) where
  tables := by
    rw [catalogTableRows, List.forall₂_map_right_iff, List.forall₂_same]
    intro table hTable
    obtain ⟨hIndex, hRows, -⟩ := h.listed hTable
    exact describesTable_tableRowOf hIndex hRows
  columns := by
    intro table hTable tableId hId ordered hPerm hOrdered
    obtain ⟨hIndex, -, hColumns⟩ := h.listed hTable
    have hOfNat : Int64.ofNat table.2 = tableId := by
      rw [← Int64.toInt_inj, Int64.toInt_ofNat_of_lt hIndex, hId]
    have hBound : 1 + (tables.entries.filter (fun entry => !isSystemName entry.1)).length ≤ 2 ^ 63 := by
      have hLength : (tables.entries.filter (fun entry => !isSystemName entry.1)).length ≤ tables.entries.length :=
        List.length_filter_le _ _
      have hSize : tables.entries.length < 2 ^ 63 := h.size
      omega
    have hJoined : joined (catalogColumnRows tables) tableId = columnRowsOf table := joined_flatMap hBound hTable hId
    rw [hJoined] at hPerm
    rw [eq_columnRowsOf_of_perm hColumns hPerm hOrdered]
    exact forall₂_columnRowsOf hColumns hOfNat
  nothingElse := by
    intro row hRow
    obtain ⟨table, hTable, hPushed⟩ := List.mem_flatMap.mp hRow
    refine ⟨table, hTable, Int64.ofNat table.2, Int64.toInt_ofNat_of_lt (h.listed hTable).1, ?_⟩
    rw [mem_joined_columnRow]
    obtain ⟨column, -, rfl⟩ := List.mem_map.mp hPushed
    exact ⟨hRow, rfl⟩

end Catalog

open Catalog in
/-- After `RefreshCatalog` the catalog describes exactly the tables without the system prefix, the other tables are as
they were, and refreshing again changes nothing. -/
theorem catalog_mirrors_tables (tables : Tables) (h : Held tables) : ∃ tableRows columnRows,
    (rebuild tables).find? tablesName = some ⟨⟨tableColumns⟩, tableRows⟩ ∧
    (rebuild tables).find? columnsName = some ⟨⟨columnColumns⟩, columnRows⟩ ∧
    Mirrors (listedTables tables) tableRows columnRows ∧
    (∀ name, isCatalogName name = false → (rebuild tables).find? name = tables.find? name) ∧
    rebuild (rebuild tables) = rebuild tables := by
  refine ⟨catalogTableRows tables, catalogColumnRows tables, ?_⟩
  simp only [rebuild_eq]
  exact ⟨find?_refreshCatalog_tables tables, find?_refreshCatalog_columns tables, mirrors h,
    fun _ hName => find?_refreshCatalog hName, refreshCatalog_refreshCatalog tables⟩

/-- Two tables, one of them with the system prefix. -/
def Catalog.sample : Tables :=
  (OrderedMap.empty.insert (ascii "pets") ⟨⟨[⟨ascii "id", .kInteger, false, true, true⟩, ⟨ascii "name", .kText, true, false, false⟩]⟩,
    [[.integer 7, .text (ascii "Rex")]]⟩).insert (ascii "tuplestone_notes") ⟨⟨[]⟩, []⟩

theorem catalog_mirrors_sample : Catalog.Held Catalog.sample ∧ ∃ tableRows columnRows,
    (Catalog.rebuild Catalog.sample).find? tablesName = some ⟨⟨tableColumns⟩, tableRows⟩ ∧
    (Catalog.rebuild Catalog.sample).find? columnsName = some ⟨⟨columnColumns⟩, columnRows⟩ ∧
    Catalog.Mirrors (listedTables Catalog.sample) tableRows columnRows ∧
    (∀ name, isCatalogName name = false → (Catalog.rebuild Catalog.sample).find? name = Catalog.sample.find? name) ∧
    Catalog.rebuild (Catalog.rebuild Catalog.sample) = Catalog.rebuild Catalog.sample := by
  have hHeld : Catalog.Held Catalog.sample := ⟨by decide, by decide, by decide⟩
  exact ⟨hHeld, catalog_mirrors_tables Catalog.sample hHeld⟩

end TupleStone
