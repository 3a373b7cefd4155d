import TupleStone.Api.Catalog
import TupleStone.Api.SimultaneousUpdate
import Mathlib.Data.List.Forall2

/-! # Statements that change what the catalog lists

A statement works on tables whose catalog was just refreshed, and leaves the catalog as it was. The catalog is up to date
afterwards only if the statement changed nothing that it lists, and did not write to it.
-/

set_option autoImplicit false

namespace TupleStone

/-! ## The catalog after a change of one table -/

/-- Tables that the catalog describes by the same rows. -/
def ListedAlike (entry entry' : Bytes × Table) : Prop :=
  entry.1 = entry'.1 ∧ entry.2.schema = entry'.2.schema ∧ entry.2.rows.length = entry'.2.rows.length

theorem catalogRows_of_alike {entries entries' : List (Bytes × Table)} (h : List.Forall₂ ListedAlike entries entries') (first : Nat) :
    (entries.zipIdx first).map (fun listed => tableRow (Int64.ofNat listed.2) listed.1.1 listed.1.2) =
        (entries'.zipIdx first).map (fun listed => tableRow (Int64.ofNat listed.2) listed.1.1 listed.1.2) ∧
      (entries.zipIdx first).map (fun listed => listed.1.2.schema.columns.zipIdx.map
          (fun column => columnRow (Int64.ofNat listed.2) column.2 column.1)) =
        (entries'.zipIdx first).map (fun listed => listed.1.2.schema.columns.zipIdx.map
          (fun column => columnRow (Int64.ofNat listed.2) column.2 column.1)) := by
  induction h generalizing first with
  | nil => exact ⟨rfl, rfl⟩
  | cons hEntry _ ih =>
    obtain ⟨hName, hSchema, hRows⟩ := hEntry
    obtain ⟨hTables, hColumns⟩ := ih (first + 1)
    constructor
    · rw [List.zipIdx_cons, List.zipIdx_cons, List.map_cons, List.map_cons, hTables, tableRow, tableRow, hName, hRows]
    · rw [List.zipIdx_cons, List.zipIdx_cons, List.map_cons, List.map_cons, hColumns, hSchema]

section Tables

variable {tables tables' : Tables} {name : Bytes} {table table' : Table}

/-- The catalog is up to date. -/
def Mirrored (tables : Tables) : Prop := refreshCatalog tables = tables

theorem mirrored_refreshCatalog (tables : Tables) : Mirrored (refreshCatalog tables) := refreshCatalog_refreshCatalog tables

theorem Mirrored.find?_tables (h : Mirrored tables) : tables.find? tablesName = some ⟨⟨tableColumns⟩, catalogTableRows tables⟩ := by
  have hFind := find?_refreshCatalog_tables tables
  rwa [h] at hFind

theorem Mirrored.find?_columns (h : Mirrored tables) :
    tables.find? columnsName = some ⟨⟨columnColumns⟩, catalogColumnRows tables⟩ := by
  have hFind := find?_refreshCatalog_columns tables
  rwa [h] at hFind

theorem Mirrored.find?_indexes (h : Mirrored tables) : tables.find? indexesName = some ⟨⟨indexColumns⟩, []⟩ := by
  have hFind := find?_refreshCatalog_indexes tables
  rwa [h] at hFind

/-- The catalog tables are there. -/
theorem Mirrored.found (h : Mirrored tables) (hName : isCatalogName name = true) : ∃ table, tables.find? name = some table := by
  simp only [isCatalogName, Bool.or_eq_true, beq_iff_eq] at hName
  obtain (rfl | rfl) | rfl := hName
  · exact ⟨_, h.find?_tables⟩
  · exact ⟨_, h.find?_columns⟩
  · exact ⟨_, h.find?_indexes⟩

/-- The catalog tables as they were are up to date when they describe the tables alike. -/
theorem Mirrored.of_alike (h : Mirrored tables) (hSame : ∀ name, isCatalogName name = true → tables'.find? name = tables.find? name)
    (hAlike : List.Forall₂ ListedAlike (tables.filterKeys (fun name => !isSystemName name)).entries
      (tables'.filterKeys (fun name => !isSystemName name)).entries) : Mirrored tables' := by
  obtain ⟨hTables, hColumns⟩ := catalogRows_of_alike hAlike 1
  have hTableRows : catalogTableRows tables = catalogTableRows tables' := hTables
  have hColumnRows : catalogColumnRows tables = catalogColumnRows tables' := by
    rw [catalogColumnRows, catalogColumnRows, List.flatMap_def, List.flatMap_def]
    exact congrArg List.flatten hColumns
  apply OrderedMap.ext_find?
  intro other
  cases hOther : isCatalogName other with
  | false => exact find?_refreshCatalog hOther
  | true =>
    rw [hSame other hOther]
    simp only [isCatalogName, Bool.or_eq_true, beq_iff_eq] at hOther
    obtain (rfl | rfl) | rfl := hOther
    · rw [find?_refreshCatalog_tables, h.find?_tables, hTableRows]
    · rw [find?_refreshCatalog_columns, h.find?_columns, hColumnRows]
    · rw [find?_refreshCatalog_indexes, h.find?_indexes]

/-- The catalog neither lists the table nor is it. -/
def Hidden (name : Bytes) : Prop := isSystemName name = true ∧ isCatalogName name = false

instance (name : Bytes) : Decidable (Hidden name) := inferInstanceAs (Decidable (_ ∧ _))

theorem ne_of_isCatalogName {other : Bytes} (hName : isCatalogName name = false) (hOther : isCatalogName other = true) : other ≠ name := by
  rintro rfl
  exact Bool.true_eq_false_eq_False (hOther.symm.trans hName)

theorem forall₂_listedAlike (entries : List (Bytes × Table)) : List.Forall₂ ListedAlike entries entries :=
  List.forall₂_same.mpr fun _ _ => ⟨rfl, rfl, rfl⟩

theorem Mirrored.insert_hidden (h : Mirrored tables) (hHidden : Hidden name) (table : Table) : Mirrored (tables.insert name table) := by
  apply h.of_alike
  · intro other hOther
    rw [OrderedMap.find?_insert_of_ne _ (ne_of_isCatalogName hHidden.2 hOther)]
  · rw [OrderedMap.filterKeys_insert_of_neg _ _ (by rw [hHidden.1]; rfl)]
    exact forall₂_listedAlike _

theorem Mirrored.erase_hidden (h : Mirrored tables) (hHidden : Hidden name) : Mirrored (tables.erase name) := by
  apply h.of_alike
  · intro other hOther
    rw [OrderedMap.find?_erase, if_neg (ne_of_isCatalogName hHidden.2 hOther)]
  · have hFilter : (tables.erase name).filterKeys (fun name => !isSystemName name) = tables.filterKeys (fun name => !isSystemName name) := by
      apply OrderedMap.ext_find?
      intro other
      rw [OrderedMap.find?_filterKeys, OrderedMap.find?_filterKeys, OrderedMap.find?_erase]
      by_cases hOther : other = name
      · rw [hOther, hHidden.1]
        rfl
      · rw [if_neg hOther]
    rw [hFilter]
    exact forall₂_listedAlike _

/-- A new value in the place of an old one. -/
theorem forall₂_put {R : Bytes × Table → Bytes × Table → Prop} (hRefl : ∀ entry, R entry entry) {entries : List (Bytes × Table)}
    (hSorted : entries.Pairwise (fun a b => a.1 < b.1)) (hFound : OrderedMap.lookup name entries = some table)
    (hNew : R (name, table) (name, table')) : List.Forall₂ R entries (OrderedMap.put name table' entries) := by
  induction entries with
  | nil => cases hFound
  | cons entry entries ih =>
    obtain ⟨hFirst, hRest⟩ := List.pairwise_cons.mp hSorted
    obtain ⟨key, value⟩ := entry
    rw [OrderedMap.lookup] at hFound
    rw [OrderedMap.put]
    split at hFound
    · rename_i hKey
      cases hFound
      subst hKey
      rw [if_neg (lt_irrefl _), if_pos rfl]
      exact .cons hNew (List.forall₂_same.mpr fun other _ => hRefl other)
    · rename_i hKey
      have hLater : ¬ name < key := by
        intro hLess
        have hNone : OrderedMap.lookup name entries = none :=
          OrderedMap.lookup_eq_none_of_lt fun other hOther => lt_trans hLess (hFirst other hOther)
        rw [hNone] at hFound
        cases hFound
      rw [if_neg hLater, if_neg hKey]
      exact .cons (hRefl _) (ih hRest hFound)

/-- Other rows in a table, as many as before. -/
theorem Mirrored.insert_alike (h : Mirrored tables) (hName : isCatalogName name = false) (hFound : tables.find? name = some table)
    (hSchema : table.schema = table'.schema) (hRows : table.rows.length = table'.rows.length) :
    Mirrored (tables.insert name table') := by
  cases hSystem : isSystemName name with
  | true => exact h.insert_hidden ⟨hSystem, hName⟩ table'
  | false =>
    apply h.of_alike
    · intro other hOther
      rw [OrderedMap.find?_insert_of_ne _ (ne_of_isCatalogName hName hOther)]
    · rw [OrderedMap.filterKeys_insert_of_pos _ _ (by rw [hSystem]; rfl)]
      have hListed : (tables.filterKeys (fun name => !isSystemName name)).find? name = some table := by
        rw [OrderedMap.find?_filterKeys, hSystem]
        exact hFound
      exact forall₂_put (fun _ => ⟨rfl, rfl, rfl⟩) (OrderedMap.sorted _) hListed ⟨rfl, hSchema, hRows⟩

/-- Writing to a catalog table is undone by the next refresh. -/
theorem Mirrored.insert_catalog_iff (h : Mirrored tables) (hName : isCatalogName name = true) (table : Table) :
    Mirrored (tables.insert name table) ↔ tables.find? name = some table := by
  have hBack : refreshCatalog (tables.insert name table) = tables :=
    (refreshCatalog_congr (userTables_insert_catalog tables hName table)).trans h
  rw [Mirrored, hBack]
  constructor
  · intro hSame
    rw [hSame, OrderedMap.find?_insert_self]
  · intro hFound
    rw [OrderedMap.insert_find? _ hFound]

theorem not_mirrored_erase_catalog (hName : isCatalogName name = true) : ¬ Mirrored (tables.erase name) := by
  intro h
  obtain ⟨table, hFound⟩ := h.found hName
  rw [OrderedMap.find?_erase, if_pos rfl] at hFound
  cases hFound

/-! ### What the catalog gives away -/

/-- The listed tables have no more rows than a container of a 64-bit platform can hold. -/
def Counted (tables : Tables) : Prop :=
  ∀ name table, isSystemName name = false → tables.find? name = some table → table.rows.length < 2 ^ 63

theorem Counted.refreshCatalog (h : Counted tables) : Counted (refreshCatalog tables) := by
  intro name table hSystem hFound
  have hCatalog : isCatalogName name = false := by
    cases hCatalog : isCatalogName name with
    | false => rfl
    | true => exact (isSystemName_of_isCatalogName hCatalog).symm.trans hSystem
  rw [find?_refreshCatalog hCatalog] at hFound
  exact h name table hSystem hFound

/-- The count that the catalog gives for a table. -/
def listedCount (table : Table) : Int64 := Int64.ofNat table.rows.length

theorem mem_catalogTableRows (hSystem : isSystemName name = false) (hFound : tables.find? name = some table) :
    ∃ tableId, tableRow tableId name table ∈ catalogTableRows tables := by
  have hEntry : (name, table) ∈ tables.entries.filter (fun entry => !isSystemName entry.1) :=
    List.mem_filter.mpr ⟨(OrderedMap.find?_eq_some_iff _ _ _).mp hFound, by rw [hSystem]; rfl⟩
  obtain ⟨i, hGet⟩ := List.mem_iff_getElem?.mp hEntry
  have hListed : ((name, table), 1 + i) ∈ listedTables tables := List.mk_add_mem_zipIdx_iff_getElem?.mpr hGet
  exact ⟨_, List.mem_map.mpr ⟨_, hListed, rfl⟩⟩

theorem listed_of_mem {row : Row} (h : row ∈ catalogTableRows tables) : ∃ tableId name table,
    isSystemName name = false ∧ tables.find? name = some table ∧ row = tableRow tableId name table := by
  obtain ⟨listed, hListed, rfl⟩ := List.mem_map.mp h
  have hEntry : listed.1 ∈ tables.entries.filter (fun entry => !isSystemName entry.1) := List.fst_mem_of_mem_zipIdx hListed
  obtain ⟨hMem, hName⟩ := List.mem_filter.mp hEntry
  exact ⟨_, _, _, by simpa using hName, (OrderedMap.find?_eq_some_iff _ _ _).mpr hMem, rfl⟩

/-- Equal catalogs list the same tables with the same counts. -/
theorem listedCount_of_rows_eq (h : catalogTableRows tables' = catalogTableRows tables) (hSystem : isSystemName name = false)
    (hFound : tables'.find? name = some table') : ∃ table, tables.find? name = some table ∧ listedCount table = listedCount table' := by
  obtain ⟨tableId, hRow⟩ := mem_catalogTableRows hSystem hFound
  rw [h] at hRow
  obtain ⟨_, other, table, -, hTable, hSame⟩ := listed_of_mem hRow
  rw [tableRow, tableRow] at hSame
  obtain ⟨-, hName, hCount⟩ : _ ∧ name = other ∧ listedCount table' = listedCount table := by
    simpa [listedCount] using hSame
  exact ⟨table, hName ▸ hTable, hCount.symm⟩

/-- Both catalogs are up to date and have the same table of tables. -/
theorem Mirrored.rows_eq (h : Mirrored tables) (h' : Mirrored tables') (hSame : tables'.find? tablesName = tables.find? tablesName) :
    catalogTableRows tables' = catalogTableRows tables := by
  rw [h.find?_tables, h'.find?_tables] at hSame
  simpa using hSame

theorem Mirrored.not_insert_new (h : Mirrored tables) (hSystem : isSystemName name = false) (hAbsent : tables.find? name = none)
    (table : Table) : ¬ Mirrored (tables.insert name table) := by
  intro h'
  have hOther : tablesName ≠ name := by
    rintro rfl
    cases hSystem
  have hRows := h.rows_eq h' (OrderedMap.find?_insert_of_ne _ hOther _)
  obtain ⟨found, hFound, -⟩ := listedCount_of_rows_eq hRows hSystem (OrderedMap.find?_insert_self _ _ _)
  rw [hAbsent] at hFound
  cases hFound

theorem Mirrored.not_erase (h : Mirrored tables) (hSystem : isSystemName name = false) (hFound : tables.find? name = some table) :
    ¬ Mirrored (tables.erase name) := by
  intro h'
  have hOther : tablesName ≠ name := by
    rintro rfl
    cases hSystem
  have hRows := h.rows_eq h' (by rw [OrderedMap.find?_erase, if_neg hOther])
  obtain ⟨found, hErased, -⟩ := listedCount_of_rows_eq hRows.symm hSystem hFound
  rw [OrderedMap.find?_erase, if_pos rfl] at hErased
  cases hErased

/-- Another number of rows in a listed table. -/
theorem Mirrored.not_insert_count (h : Mirrored tables) (hSystem : isSystemName name = false) (hFound : tables.find? name = some table)
    (hCount : listedCount table ≠ listedCount table') : ¬ Mirrored (tables.insert name table') := by
  intro h'
  have hOther : tablesName ≠ name := by
    rintro rfl
    cases hSystem
  have hRows := h.rows_eq h' (OrderedMap.find?_insert_of_ne _ hOther _)
  obtain ⟨found, hStored, hSame⟩ := listedCount_of_rows_eq hRows hSystem (OrderedMap.find?_insert_self _ _ _)
  rw [hFound] at hStored
  cases hStored
  exact hCount hSame

theorem Counted.apart (h : Counted tables) {name : Bytes} {table : Table} {rows : List Row} (hFound : tables.find? name = some table)
    (hAfter : Counted (tables.insert name { table with rows := rows })) (hSystem : isSystemName name = false)
    (hLength : rows.length ≠ table.rows.length) : listedCount table ≠ listedCount { table with rows := rows } := by
  have hBefore := h name table hSystem hFound
  have hThen := hAfter name _ hSystem (OrderedMap.find?_insert_self _ _ _)
  intro hSame
  have hInt := congrArg Int64.toInt hSame
  rw [listedCount, listedCount, Int64.toInt_ofNat_of_lt hBefore, Int64.toInt_ofNat_of_lt hThen] at hInt
  exact hLength (Int.ofNat.inj hInt).symm

end Tables

/-! ## What a successful statement did -/

namespace Statement

open Attempt

/-- `CREATE TABLE` up to the name of the table. -/
def createName : Front Bytes := do
  expectOrReturn (ascii "table")
  let _ ← ifNotExists
  tableName

def dropName : Front Bytes := do
  expectOrReturn (ascii "table")
  tableName

section Success

variable {tables tables' : Tables} {params : List Value} {p p' : Parser} {reply : Reply}

/-- A part that fails with an error succeeds where the whole does not fail. -/
theorem exec_bind_succeeds {α β : Type} {m : Front α} {k : α → Front β} {P : α → Prop} {x : Except Reply β}
    (hm : Ensures m P Reply.Failed) (h : exec (m >>= k) p = .done (x, p')) (hOk : ∀ reply, x = .error reply → ¬ reply.Failed) :
    ∃ a mid, exec m p = .done (.ok a, mid) ∧ P a ∧ exec (k a) mid = .done (x, p') := by
  obtain ⟨e, hError, rfl⟩ | ⟨a, mid, hFirst, hRest⟩ := exec_bind_done h
  · exact absurd ((hm _ _ _ hError).2 e rfl) (hOk e rfl)
  · exact ⟨a, mid, hFirst, (hm _ _ _ hFirst).1 a rfl, hRest⟩

theorem createTable_succeeds {x : Except Reply Tables} (h : exec (createTable tables) p = .done (x, p'))
    (hOk : ∀ reply, x = .error reply → ¬ reply.Failed) : ∃ name q, exec createName p = .done (.ok name, q) ∧
      (tables.find? name = none ∧ (∃ columns, x = .ok (tables.insert name ⟨⟨columns⟩, []⟩)) ∨
        (tables.find? name).isSome ∧ x = .error (.rows ⟨[]⟩ [])) := by
  obtain ⟨_, q₁, hTable, -, h⟩ := exec_bind_succeeds (ensures_expectOrReturn _) h hOk
  obtain ⟨optional, q₂, hOptional, -, h⟩ := exec_bind_succeeds (ensures_lift_true _) h hOk
  obtain ⟨name, q₃, hName, -, h⟩ := exec_bind_succeeds ensures_tableName h hOk
  refine ⟨name, q₃, ?_, ?_⟩
  · rw [createName, exec_bind_ok hTable, exec_bind_ok hOptional, hName]
  · split at h
    · rename_i hSome
      right
      split at h
      · cases h
        exact ⟨hSome, rfl⟩
      · cases h
        exact absurd (failed_status Status.noConfusion) (hOk _ rfl)
    · rename_i hNone
      left
      have hAbsent : tables.find? name = none := by simpa using hNone
      obtain ⟨_, q₄, -, -, h⟩ := exec_bind_succeeds (ensures_expectOrReturn _) h hOk
      obtain ⟨_, q₅, -, -, h⟩ := exec_bind_succeeds ensures_loopBound h hOk
      obtain ⟨columns, q₆, -, -, h⟩ := exec_bind_succeeds (ensures_columnLoop _ (by simp)) h hOk
      cases h
      rw [OrderedMap.emplace_of_none tables hAbsent]
      exact ⟨hAbsent, columns, rfl⟩

theorem dropTable_succeeds {x : Except Reply Tables} (h : exec (dropTable tables) p = .done (x, p'))
    (hOk : ∀ reply, x = .error reply → ¬ reply.Failed) : ∃ name table q, exec dropName p = .done (.ok name, q) ∧
      tables.find? name = some table ∧ x = .ok (tables.erase name) := by
  obtain ⟨_, q₁, hTable, -, h⟩ := exec_bind_succeeds (ensures_expectOrReturn _) h hOk
  obtain ⟨name, q₂, hName, -, h⟩ := exec_bind_succeeds ensures_tableName h hOk
  obtain ⟨table, q₃, -, hFound, h⟩ := exec_bind_succeeds (ensures_findTable tables name) h hOk
  cases h
  refine ⟨name, table, q₂, ?_, hFound, rfl⟩
  rw [dropName, exec_bind_ok hTable, hName]

theorem ofFront_succeeds {m : Front Tables} (h : ofFront tables m p = .done ((reply, tables'), p')) (hOk : ¬ reply.Failed) :
    ∃ x, exec m p = .done (x, p') ∧ (∀ reply, x = .error reply → ¬ reply.Failed) ∧
      (x = .ok tables' ∧ reply = .persist ∨ x = .error reply ∧ tables' = tables) := by
  obtain ⟨⟨x, q⟩, hExec, hResult⟩ := Outcome.bind_eq_done h
  cases x with
  | error returned =>
    cases hResult
    exact ⟨_, hExec, fun _ hx => by cases hx; exact hOk, .inr ⟨rfl, rfl⟩⟩
  | ok result =>
    cases hResult
    exact ⟨_, hExec, nofun, .inl ⟨rfl, rfl⟩⟩

/-- A successful INSERT stores at least one row. -/
theorem insertLoop_persist {plan : InsertPlan} {fuel : Nat} {stored rows : List Row}
    (h : insertLoop plan params fuel stored p = .done ((.persist, rows), p')) : ∃ more, more ≠ [] ∧ rows = stored ++ more := by
  induction fuel generalizing stored p with
  | zero => cases h
  | succ fuel ih =>
    obtain ⟨⟨x, q⟩, hExec, hResult⟩ := Outcome.bind_eq_done h
    cases x with
    | error returned =>
      cases hResult
      exact absurd rfl ((ensures_insertTuple plan params _ _ _ _ hExec).2 _ rfl).returned.1
    | ok row =>
      obtain ⟨⟨more, q'⟩, -, hRest⟩ := Outcome.bind_eq_done hResult
      cases more with
      | true =>
        obtain ⟨others, -, rfl⟩ := ih hRest
        exact ⟨row :: others, List.cons_ne_nil _ _, by simp⟩
      | false =>
        cases hRest
        exact ⟨[row], List.cons_ne_nil _ _, rfl⟩

theorem runInsert_succeeds (h : runInsert tables params p = .done ((reply, tables'), p')) (hOk : ¬ reply.Failed) :
    reply = .persist ∧ ∃ plan q more, exec (insertHeader tables) p = .done (.ok plan, q) ∧
      tables.find? plan.name = some plan.table ∧ more ≠ [] ∧
      tables' = tables.insert plan.name { plan.table with rows := plan.table.rows ++ more } := by
  obtain ⟨⟨x, q⟩, hExec, hResult⟩ := Outcome.bind_eq_done h
  cases x with
  | error returned =>
    cases hResult
    exact absurd ((ensures_insertHeader tables _ _ _ hExec).2 _ rfl) hOk
  | ok plan =>
    obtain ⟨⟨⟨reply', rows⟩, q'⟩, hLoop, hRest⟩ := Outcome.bind_eq_done hResult
    cases hRest
    obtain rfl := (stored_insertLoop .refl hLoop).2.resolve_right hOk
    obtain ⟨more, hMore, rfl⟩ := insertLoop_persist hLoop
    exact ⟨rfl, plan, q, more, hExec, (ensures_insertHeader tables _ _ _ hExec).1 plan rfl, hMore, rfl⟩

def DeletePlan.context (plan : DeletePlan) (params : List Value) (row : Row) : EvalContext :=
  ⟨some plan.table.schema, some row, params⟩

theorem runDelete_succeeds (h : runDelete tables params p = .done ((reply, tables'), p')) (hOk : ¬ reply.Failed) :
    reply = .persist ∧ ∃ plan q, exec (deleteHeader tables) p = .done (.ok plan, q) ∧
      tables.find? plan.name = some plan.table ∧
      tables' = tables.insert plan.name
        { plan.table with rows := plan.table.rows.filter (fun row => isTrue (plan.context params row) plan.predicate == false) } := by
  obtain ⟨⟨x, q⟩, hExec, hResult⟩ := Outcome.bind_eq_done h
  cases x with
  | error returned =>
    cases hResult
    exact absurd ((ensures_deleteHeader tables _ _ _ hExec).2 _ rfl) hOk
  | ok plan =>
    obtain ⟨⟨y, status⟩, hFilter, hRest⟩ := Outcome.bind_eq_done hResult
    cases y with
    | error returned =>
      cases hRest
      exact absurd (failed_status ((ensures_filterRows _ _ _ _ _ _ _ _ hFilter).2 _ rfl)) hOk
    | ok kept =>
      cases hRest
      obtain ⟨rfl, -, -⟩ := filterRows_ok hFilter
      exact ⟨rfl, plan, _, hExec, (ensures_deleteHeader tables _ _ _ hExec).1 plan rfl, rfl⟩

theorem runUpdate_succeeds (h : runUpdate tables params p = .done ((reply, tables'), p')) (hOk : ¬ reply.Failed) :
    reply = .persist ∧ ∃ plan q, exec (updateHeader tables) p = .done (.ok plan, q) ∧
      tables.find? plan.name = some plan.table ∧
      tables' = tables.insert plan.name { plan.table with rows := plan.table.rows.map (plan.updatedRow params) } := by
  obtain rfl := (runUpdate_reply h).resolve_right hOk
  obtain ⟨plan, hHeader, hFound, hTables, -⟩ := runUpdate_persist h
  exact ⟨rfl, plan, p', hHeader, hFound, hTables⟩

/-! ## Statements after which the catalog is up to date -/

/-- The table did not exist, and the catalog does not list it. -/
def CreatesUnlisted (tables : Tables) (p : Parser) : Prop :=
  ∃ name q, exec createName p = .done (.ok name, q) ∧ tables.find? name = none ∧ isSystemName name = true

def DropsUnlisted (p : Parser) : Prop := ∃ name q, exec dropName p = .done (.ok name, q) ∧ Hidden name

def InsertsUnlisted (tables : Tables) (p : Parser) : Prop :=
  ∃ plan q, exec (insertHeader tables) p = .done (.ok plan, q) ∧ Hidden plan.name

/-- The number of rows stays, and no row of the catalog is changed. -/
def UpdatesUnlisted (tables : Tables) (params : List Value) (p : Parser) : Prop :=
  ∃ plan q, exec (updateHeader tables) p = .done (.ok plan, q) ∧
    (isCatalogName plan.name = true → ∀ row ∈ plan.table.rows, plan.updatedRow params row = row)

/-- The table is not listed, or no row of it is deleted. -/
def DeletesUnlisted (tables : Tables) (params : List Value) (p : Parser) : Prop :=
  ∃ plan q, exec (deleteHeader tables) p = .done (.ok plan, q) ∧
    (Hidden plan.name ∨ ∀ row ∈ plan.table.rows, isTrue (plan.context params row) plan.predicate = false)

theorem create_iff (hMirrored : Mirrored tables) (h : ofFront tables (createTable tables) p = .done ((reply, tables'), p'))
    (hOk : ¬ reply.Failed) : reply = .persist ∧ Mirrored tables' ↔ CreatesUnlisted tables p := by
  obtain ⟨x, hExec, hReturned, hResult⟩ := ofFront_succeeds h hOk
  obtain ⟨name, q, hName, ⟨hAbsent, columns, rfl⟩ | ⟨hSome, rfl⟩⟩ := createTable_succeeds hExec hReturned
  · obtain ⟨hTables, rfl⟩ | ⟨hError, -⟩ := hResult
    · cases hTables
      have hCatalog : isCatalogName name = false := by
        cases hCatalog : isCatalogName name with
        | false => rfl
        | true =>
          obtain ⟨table, hFound⟩ := hMirrored.found hCatalog
          rw [hAbsent] at hFound
          cases hFound
      constructor
      · rintro ⟨-, hAfter⟩
        refine ⟨name, q, hName, hAbsent, ?_⟩
        cases hSystem : isSystemName name with
        | true => rfl
        | false => exact absurd hAfter (hMirrored.not_insert_new hSystem hAbsent _)
      · rintro ⟨name', q', hName', -, hSystem⟩
        cases hName.symm.trans hName'
        exact ⟨rfl, hMirrored.insert_hidden ⟨hSystem, hCatalog⟩ _⟩
    · cases hError
  · obtain ⟨hTables, -⟩ | ⟨hError, -⟩ := hResult
    · cases hTables
    · cases hError
      constructor
      · rintro ⟨hPersist, -⟩
        cases hPersist
      · rintro ⟨name', q', hName', hAbsent, -⟩
        cases hName.symm.trans hName'
        rw [hAbsent] at hSome
        cases hSome

theorem drop_iff (hMirrored : Mirrored tables) (h : ofFront tables (dropTable tables) p = .done ((reply, tables'), p'))
    (hOk : ¬ reply.Failed) : reply = .persist ∧ Mirrored tables' ↔ DropsUnlisted p := by
  obtain ⟨x, hExec, hReturned, hResult⟩ := ofFront_succeeds h hOk
  obtain ⟨name, table, q, hName, hFound, rfl⟩ := dropTable_succeeds hExec hReturned
  obtain ⟨hTables, rfl⟩ | ⟨hError, -⟩ := hResult
  · cases hTables
    constructor
    · rintro ⟨-, hAfter⟩
      refine ⟨name, q, hName, ?_, ?_⟩
      · cases hSystem : isSystemName name with
        | true => rfl
        | false => exact absurd hAfter (hMirrored.not_erase hSystem hFound)
      · cases hCatalog : isCatalogName name with
        | false => rfl
        | true => exact absurd hAfter (not_mirrored_erase_catalog hCatalog)
    · rintro ⟨name', q', hName', hHidden⟩
      cases hName.symm.trans hName'
      exact ⟨rfl, hMirrored.erase_hidden hHidden⟩
  · cases hError

/-- Other rows in a table: nothing to mirror where the rows are the same, or as many in a table outside the catalog. -/
theorem mirrored_insert_iff {name : Bytes} {table : Table} {rows : List Row} (hMirrored : Mirrored tables)
    (hFound : tables.find? name = some table) (hCount : isSystemName name = false → rows.length ≠ table.rows.length →
      listedCount table ≠ listedCount { table with rows := rows }) :
    Mirrored (tables.insert name { table with rows := rows }) ↔
      Hidden name ∨ rows = table.rows ∨ isCatalogName name = false ∧ rows.length = table.rows.length := by
  constructor
  · intro hAfter
    cases hCatalog : isCatalogName name with
    | true =>
      have hSame := (hMirrored.insert_catalog_iff hCatalog _).mp hAfter
      rw [hFound] at hSame
      exact .inr (.inl (congrArg Table.rows (Option.some.inj hSame)).symm)
    | false =>
      cases hSystem : isSystemName name with
      | true => exact .inl ⟨hSystem, hCatalog⟩
      | false =>
        by_contra hNot
        have hLength : rows.length ≠ table.rows.length := fun hLength => hNot (.inr (.inr ⟨rfl, hLength⟩))
        exact hMirrored.not_insert_count hSystem hFound (hCount hSystem hLength) hAfter
  · rintro (hHidden | rfl | ⟨hCatalog, hLength⟩)
    · exact hMirrored.insert_hidden hHidden _
    · rw [OrderedMap.insert_find? _ hFound]
      exact hMirrored
    · exact hMirrored.insert_alike hCatalog hFound rfl hLength.symm

theorem insert_iff (hMirrored : Mirrored tables) (hBefore : Counted tables) (hAfter : Counted tables')
    (h : runInsert tables params p = .done ((reply, tables'), p')) (hOk : ¬ reply.Failed) :
    reply = .persist ∧ Mirrored tables' ↔ InsertsUnlisted tables p := by
  obtain ⟨rfl, plan, q, more, hHeader, hFound, hMore, rfl⟩ := runInsert_succeeds h hOk
  have hLonger : (plan.table.rows ++ more).length ≠ plan.table.rows.length := by
    rw [List.length_append]
    have := List.length_pos_iff.mpr hMore
    omega
  rw [mirrored_insert_iff hMirrored hFound (hBefore.apart hFound hAfter)]
  constructor
  · rintro ⟨-, hHidden | hSame | ⟨-, hLength⟩⟩
    · exact ⟨plan, q, hHeader, hHidden⟩
    · exact absurd (congrArg List.length hSame) hLonger
    · exact absurd hLength hLonger
  · rintro ⟨plan', q', hHeader', hHidden⟩
    cases hHeader.symm.trans hHeader'
    exact ⟨rfl, .inl hHidden⟩

theorem map_eq_self_iff {α : Type} {f : α → α} {xs : List α} : xs.map f = xs ↔ ∀ x ∈ xs, f x = x := by
  conv_lhs => rhs; rw [← List.map_id xs]
  exact List.map_inj_left

theorem update_iff (hMirrored : Mirrored tables) (hBefore : Counted tables) (hAfter : Counted tables')
    (h : runUpdate tables params p = .done ((reply, tables'), p')) (hOk : ¬ reply.Failed) :
    reply = .persist ∧ Mirrored tables' ↔ UpdatesUnlisted tables params p := by
  obtain ⟨rfl, plan, q, hHeader, hFound, rfl⟩ := runUpdate_succeeds h hOk
  rw [mirrored_insert_iff hMirrored hFound (hBefore.apart hFound hAfter), map_eq_self_iff]
  constructor
  · rintro ⟨-, hHidden | hSame | ⟨hCatalog, -⟩⟩
    · exact ⟨plan, q, hHeader, fun hCatalog => absurd (hCatalog.symm.trans hHidden.2) Bool.true_eq_false_eq_False⟩
    · exact ⟨plan, q, hHeader, fun _ => hSame⟩
    · exact ⟨plan, q, hHeader, fun hTrue => absurd (hTrue.symm.trans hCatalog) Bool.true_eq_false_eq_False⟩
  · rintro ⟨plan', q', hHeader', hRows⟩
    cases hHeader.symm.trans hHeader'
    refine ⟨rfl, .inr ?_⟩
    cases hCatalog : isCatalogName plan.name with
    | true => exact .inl (hRows hCatalog)
    | false => exact .inr ⟨rfl, List.length_map _⟩

theorem delete_iff (hMirrored : Mirrored tables) (hBefore : Counted tables) (hAfter : Counted tables')
    (h : runDelete tables params p = .done ((reply, tables'), p')) (hOk : ¬ reply.Failed) :
    reply = .persist ∧ Mirrored tables' ↔ DeletesUnlisted tables params p := by
  obtain ⟨rfl, plan, q, hHeader, hFound, rfl⟩ := runDelete_succeeds h hOk
  rw [mirrored_insert_iff hMirrored hFound (hBefore.apart hFound hAfter)]
  have hNone : plan.table.rows.filter (fun row => isTrue (plan.context params row) plan.predicate == false) = plan.table.rows ↔
      ∀ row ∈ plan.table.rows, isTrue (plan.context params row) plan.predicate = false := by
    rw [List.filter_eq_self]
    simp only [beq_iff_eq]
  constructor
  · rintro ⟨-, hHidden | hSame | ⟨-, hLength⟩⟩
    · exact ⟨plan, q, hHeader, .inl hHidden⟩
    · exact ⟨plan, q, hHeader, .inr (hNone.mp hSame)⟩
    · have hSame := List.filter_sublist.eq_of_length hLength
      exact ⟨plan, q, hHeader, .inr (hNone.mp hSame)⟩
  · rintro ⟨plan', q', hHeader', hHidden | hRows⟩
    · cases hHeader.symm.trans hHeader'
      exact ⟨rfl, .inl hHidden⟩
    · cases hHeader.symm.trans hHeader'
      exact ⟨rfl, .inr (.inl (hNone.mpr hRows))⟩

/-! ## The whole statement -/

def changeWords : List Bytes := [ascii "create", ascii "drop", ascii "insert", ascii "update", ascii "delete"]

/-- The statement behind its command word changes nothing that the catalog lists. -/
def Unlisted (tables : Tables) (params : List Value) (command : Bytes) (p : Parser) : Prop :=
  command = ascii "create" ∧ CreatesUnlisted tables p ∨ command = ascii "drop" ∧ DropsUnlisted p ∨
    command = ascii "insert" ∧ InsertsUnlisted tables p ∨ command = ascii "update" ∧ UpdatesUnlisted tables params p ∨
      command = ascii "delete" ∧ DeletesUnlisted tables params p

/-- `CREATE` and `DROP` of a table, where the statement is not refused as one about an index. -/
theorem runCommand_ddl {first : Token} {rest : List Token} (hCommand : first.text = ascii "create" ∨ first.text = ascii "drop")
    (h : runCommand tables params (.reading (first :: rest) 0) = .done ((reply, tables'), p')) (hOk : ¬ reply.Failed) :
    ofFront tables (if first.text = ascii "create" then createTable tables else dropTable tables) (.reading (first :: rest) 1) =
      .done ((reply, tables'), p') := by
  obtain ⟨⟨command, p₁⟩, hPeek, h⟩ := Outcome.bind_eq_done h
  obtain ⟨⟨second, p₂⟩, -, h⟩ := Outcome.bind_eq_done h
  obtain ⟨⟨third, p₃⟩, -, h⟩ := Outcome.bind_eq_done h
  obtain rfl : first = command := congrArg Prod.fst (Outcome.done.inj hPeek)
  dsimp only at h
  split at h
  · cases h
    exact absurd (failed_status Status.noConfusion) hOk
  obtain ⟨⟨accepted, q⟩, hAccept, h⟩ := Outcome.bind_eq_done h
  have hWord : Parser.accept first.text (.reading (first :: rest) 0) = .done (true, .reading (first :: rest) 1) := by
    rw [Parser.accept_at (show (first :: rest)[0]? = some first from rfl), if_pos rfl]
  cases hWord.symm.trans hAccept
  obtain hText | hText := hCommand
  · simp only [hText, if_true] at h ⊢
    exact h
  · have hOther : ascii "drop" ≠ ascii "create" := by decide
    simp only [hText, if_neg hOther, if_true] at h ⊢
    exact h

/-- After a change that succeeds the catalog is up to date exactly when the change is one of those. -/
theorem mirrored_iff_unlisted {sql : Bytes} {first : Token} {rest : List Token} (hTokens : tokenize sql = .ok (first :: rest))
    (hWord : first.text ∈ changeWords) (hBefore : Counted (refreshCatalog tables)) (hAfter : Counted tables')
    (h : runStatement tables sql params = .done ((reply, tables'), p')) (hOk : ¬ reply.Failed) :
    reply = .persist ∧ Mirrored tables' ↔ Unlisted (refreshCatalog tables) params first.text (.reading (first :: rest) 1) := by
  have hMirrored := mirrored_refreshCatalog tables
  have hOthers : ∀ word ∈ changeWords, word ≠ ascii "explain" ∧ word ≠ ascii "select" := by decide
  obtain ⟨hExplain, hSelect⟩ := hOthers _ hWord
  rw [runStatement_eq_runCommand hTokens hExplain (isCount_of_ne hSelect)] at h
  simp only [changeWords, List.mem_cons, List.not_mem_nil, or_false] at hWord
  rw [Unlisted]
  obtain hText | hText | hText | hText | hText := hWord
  · have hRun := runCommand_ddl (.inl hText) h hOk
    rw [if_pos hText] at hRun
    rw [create_iff hMirrored hRun hOk, hText]
    simp +decide
  · have hRun := runCommand_ddl (.inr hText) h hOk
    rw [if_neg (by rw [hText]; decide)] at hRun
    rw [drop_iff hMirrored hRun hOk, hText]
    simp +decide
  · rw [runCommand_eq (by rw [hText]; decide), if_pos hText] at h
    rw [insert_iff hMirrored hBefore hAfter h hOk, hText]
    simp +decide
  · rw [runCommand_eq (by rw [hText]; decide), if_neg (by rw [hText]; decide), if_pos hText] at h
    rw [update_iff hMirrored hBefore hAfter h hOk, hText]
    simp +decide
  · rw [runCommand_eq (by rw [hText]; decide), if_neg (by rw [hText]; decide), if_neg (by rw [hText]; decide), if_pos hText] at h
    rw [delete_iff hMirrored hBefore hAfter h hOk, hText]
    simp +decide

end Success

end Statement

end TupleStone
