import TupleStone.Common.Value
import TupleStone.Lib.OrderedMap

/-! # Tables and the system catalog

The state of a database is a map from table names to tables. Three of the tables describe the others; they are
rebuilt before every statement and every commit, and the remaining ones are the user tables.
-/

set_option autoImplicit false

namespace TupleStone

abbrev Row := List Value

structure Table where
  schema : Schema
  rows : List Row
  deriving DecidableEq, Repr

abbrev Tables := OrderedMap Bytes Table

def tableColumns : List Column :=
  [⟨ascii "table_id", .kInteger, false, true, true⟩,
   ⟨ascii "name", .kText, false, false, true⟩,
   ⟨ascii "first_page", .kInteger, false, false, false⟩,
   ⟨ascii "tuple_count", .kInteger, false, false, false⟩]

def columnColumns : List Column :=
  [⟨ascii "table_id", .kInteger, false, false, false⟩,
   ⟨ascii "ordinal", .kInteger, false, false, false⟩,
   ⟨ascii "name", .kText, false, false, false⟩,
   ⟨ascii "type", .kInteger, false, false, false⟩,
   ⟨ascii "nullable", .kBoolean, false, false, false⟩,
   ⟨ascii "is_primary", .kBoolean, false, false, false⟩]

def indexColumns : List Column :=
  [⟨ascii "index_id", .kInteger, false, true, true⟩,
   ⟨ascii "table_id", .kInteger, false, false, false⟩,
   ⟨ascii "name", .kText, false, false, false⟩,
   ⟨ascii "root_page", .kInteger, false, false, false⟩,
   ⟨ascii "is_unique", .kBoolean, false, false, false⟩,
   ⟨ascii "column_ordinals", .kText, false, false, false⟩]

def tablesName : Bytes := ascii "tuplestone_tables"
def columnsName : Bytes := ascii "tuplestone_columns"
def indexesName : Bytes := ascii "tuplestone_indexes"

/-- `name.rfind("tuplestone_", 0) == 0` -/
def isSystemName (name : Bytes) : Bool := (ascii "tuplestone_").isPrefixOf name

def tableRow (tableId : Int64) (name : Bytes) (table : Table) : Row :=
  [.integer tableId, .text name, .integer 0, .integer (Int64.ofNat table.rows.length)]

def columnRow (tableId : Int64) (ordinal : Nat) (column : Column) : Row :=
  [.integer tableId, .integer (Int64.ofNat ordinal), .text column.name,
   .integer (Int64.ofNat column.type.toByte.toNat), .boolean column.nullable, .boolean column.primaryKey]

/-- The tables the catalog lists, in the map's order, each with its `table_id`. -/
def listedTables (tables : Tables) : List ((Bytes × Table) × Nat) :=
  (tables.entries.filter (fun entry => !isSystemName entry.1)).zipIdx 1

def catalogTableRows (tables : Tables) : List Row :=
  (listedTables tables).map (fun listed => tableRow (Int64.ofNat listed.2) listed.1.1 listed.1.2)

def catalogColumnRows (tables : Tables) : List Row :=
  (listedTables tables).flatMap (fun listed =>
    listed.1.2.schema.columns.zipIdx.map (fun column => columnRow (Int64.ofNat listed.2) column.2 column.1))

def refreshCatalog (tables : Tables) : Tables :=
  ((tables.insert tablesName ⟨⟨tableColumns⟩, catalogTableRows tables⟩).insert
    columnsName ⟨⟨columnColumns⟩, catalogColumnRows tables⟩).insert indexesName ⟨⟨indexColumns⟩, []⟩

def isCatalogName (name : Bytes) : Bool := name == tablesName || name == columnsName || name == indexesName

/-- Every table but the three of the catalog. -/
def userTables (tables : Tables) : Tables := tables.filterKeys (fun name => !isCatalogName name)

theorem isSystemName_of_isCatalogName {name : Bytes} (h : isCatalogName name = true) : isSystemName name = true := by
  simp only [isCatalogName, Bool.or_eq_true, beq_iff_eq] at h
  obtain (rfl | rfl) | rfl := h <;> decide

theorem find?_userTables {tables : Tables} {name : Bytes} (h : isCatalogName name = false) :
    (userTables tables).find? name = tables.find? name := by
  rw [userTables, OrderedMap.find?_filterKeys, h]
  rfl

theorem userTables_insert_catalog (tables : Tables) {name : Bytes} (h : isCatalogName name = true) (table : Table) :
    userTables (tables.insert name table) = userTables tables :=
  OrderedMap.filterKeys_insert_of_neg _ _ (by simp [h]) _

theorem userTables_insert (tables : Tables) {name : Bytes} (h : isCatalogName name = false) (table : Table) :
    userTables (tables.insert name table) = (userTables tables).insert name table :=
  OrderedMap.filterKeys_insert_of_pos _ _ (by simp [h]) _

@[simp] theorem userTables_refreshCatalog (tables : Tables) : userTables (refreshCatalog tables) = userTables tables := by
  rw [refreshCatalog, userTables_insert_catalog _ (by decide), userTables_insert_catalog _ (by decide),
    userTables_insert_catalog _ (by decide)]

theorem listedTables_userTables (tables : Tables) : listedTables (userTables tables) = listedTables tables := by
  rw [listedTables, listedTables, userTables, OrderedMap.filterKeys, List.filter_filter]
  refine congrArg (fun entries : List (Bytes × Table) => entries.zipIdx 1) (List.filter_congr ?_)
  intro entry _
  cases h : isCatalogName entry.1 with
  | false => simp
  | true => simp [isSystemName_of_isCatalogName h]

theorem find?_refreshCatalog_tables (tables : Tables) :
    (refreshCatalog tables).find? tablesName = some ⟨⟨tableColumns⟩, catalogTableRows tables⟩ := by
  rw [refreshCatalog, OrderedMap.find?_insert_of_ne _ (by decide), OrderedMap.find?_insert_of_ne _ (by decide),
    OrderedMap.find?_insert_self]

theorem find?_refreshCatalog_columns (tables : Tables) :
    (refreshCatalog tables).find? columnsName = some ⟨⟨columnColumns⟩, catalogColumnRows tables⟩ := by
  rw [refreshCatalog, OrderedMap.find?_insert_of_ne _ (by decide), OrderedMap.find?_insert_self]

theorem find?_refreshCatalog_indexes (tables : Tables) :
    (refreshCatalog tables).find? indexesName = some ⟨⟨indexColumns⟩, []⟩ := by
  rw [refreshCatalog, OrderedMap.find?_insert_self]

theorem find?_refreshCatalog {tables : Tables} {name : Bytes} (h : isCatalogName name = false) :
    (refreshCatalog tables).find? name = tables.find? name := by
  rw [← find?_userTables h, userTables_refreshCatalog, find?_userTables h]

/-- The refreshed state is a function of the user tables. -/
theorem refreshCatalog_congr {tables tables' : Tables} (h : userTables tables = userTables tables') :
    refreshCatalog tables = refreshCatalog tables' := by
  have hListed : listedTables tables = listedTables tables' := by
    rw [← listedTables_userTables tables, h, listedTables_userTables]
  apply OrderedMap.ext_find?
  intro name
  cases hName : isCatalogName name with
  | false => rw [find?_refreshCatalog hName, find?_refreshCatalog hName, ← find?_userTables hName, h, find?_userTables hName]
  | true =>
    simp only [isCatalogName, Bool.or_eq_true, beq_iff_eq] at hName
    obtain (rfl | rfl) | rfl := hName
    · rw [find?_refreshCatalog_tables, find?_refreshCatalog_tables, catalogTableRows, hListed, catalogTableRows]
    · rw [find?_refreshCatalog_columns, find?_refreshCatalog_columns, catalogColumnRows, hListed, catalogColumnRows]
    · rw [find?_refreshCatalog_indexes, find?_refreshCatalog_indexes]

theorem refreshCatalog_refreshCatalog (tables : Tables) : refreshCatalog (refreshCatalog tables) = refreshCatalog tables :=
  refreshCatalog_congr (userTables_refreshCatalog tables)

end TupleStone
