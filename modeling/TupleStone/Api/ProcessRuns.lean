import TupleStone.Api.CommitFailure

/-! # Every table map a process can hold

What statements, refreshing and loading preserve holds of the shared tables and of every snapshot of a process, in
whatever order its calls come and whatever the files answer. One such property is the shape that the decoder relies
on: lower-case names, typed columns and rows as wide as their schema.
-/

set_option autoImplicit false

namespace TupleStone

open OpProgram

/-! ## Methods that keep the tables -/

theorem possible_closeDatabase {db db' : Database} {status : Status} (h : Possible (closeDatabase db) (status, db')) :
    db'.tables = db.tables := by
  rw [closeDatabase] at h
  split at h
  · cases possible_ret.mp h
    rfl
  · obtain ⟨saved, -, h⟩ := possible_bind.mp h
    obtain ⟨wal, -, h⟩ := possible_bind.mp h
    cases possible_ret.mp h
    rfl

theorem possible_checkpoint {db db' : Database} {status : Status} (h : Possible (checkpoint db) (status, db')) :
    db'.tables = db.tables := by
  rw [checkpoint] at h
  split at h
  · cases possible_ret.mp h
    rfl
  · obtain ⟨saved, -, h⟩ := possible_bind.mp h
    split at h
    · obtain ⟨r, -, h⟩ := possible_bind.mp h
      cases possible_ret.mp h
      rfl
    · cases possible_ret.mp h
      rfl

/-! ## Opening -/

/-- The empty map, or what some bytes load to. -/
def Loaded (tables : Tables) : Prop := tables = OrderedMap.empty ∨ ∃ bytes, loadTablesBytes bytes = .ok tables

theorem possible_openData {options : Options} {tables : Tables} (h : Possible (openData options) (.ok, tables)) :
    Loaded tables := by
  obtain ⟨loaded, hLoad, h⟩ := possible_bind.mp h
  obtain ⟨content, -, hContent⟩ := possible_bind.mp hLoad
  cases content with
  | none =>
    cases possible_ret.mp hContent
    change Possible (if options.createIfMissing = true then _ else _) _ at h
    split at h
    · obtain ⟨saved, -, h⟩ := possible_bind.mp h
      cases possible_ret.mp h
      exact Or.inl rfl
    · cases possible_ret.mp h
  | some bytes =>
    cases possible_ret.mp hContent
    cases hLoad : loadTablesBytes bytes with
    | ok loaded =>
      rw [hLoad] at h
      cases possible_ret.mp h
      exact Or.inr ⟨bytes, hLoad⟩
    | error status =>
      rw [hLoad] at h
      obtain ⟨message, rfl | rfl⟩ := malformed_of_load hLoad
      · cases possible_ret.mp h
      · cases possible_ret.mp h

theorem loaded_replaySnapshots {tables reached : Tables} {snapshots : List Bytes} (h : Loaded tables)
    (hReplay : replaySnapshots tables snapshots = .ok reached) : Loaded reached := by
  obtain ⟨-, rfl⟩ | ⟨last, -, hLoad⟩ := replaySnapshots_last hReplay
  · exact h
  · exact Or.inr ⟨last, hLoad⟩

theorem possible_recover {db db' : Database} (h : Possible (recoverCommittedTables db) (.ok, db')) (hLoaded : Loaded db.tables) :
    Loaded db'.tables := by
  obtain ⟨read, -, h⟩ := possible_bind.mp h
  cases read with
  | error status =>
    cases possible_ret.mp h
    exact hLoaded
  | ok records =>
    have hRun := Replay.run_eq { tables := db.tables } records
    dsimp only at h
    rw [hRun] at h
    cases hReplay : replaySnapshots db.tables (committedAfter OrderedMap.empty records) with
    | error failure =>
      obtain ⟨status, reached⟩ := failure
      obtain ⟨good, bad, rest, -, hGood, -⟩ := replaySnapshots_error hReplay
      rw [hReplay] at h
      have hTables : db'.tables = reached := congrArg (fun r : Status × Database => r.2.tables) (possible_ret.mp h)
      rw [hTables]
      exact loaded_replaySnapshots hLoaded hGood
    | ok reached =>
      rw [hReplay] at h
      have hReached := loaded_replaySnapshots hLoaded hReplay
      change Possible (if _ then _ else _) _ at h
      split at h
      · obtain ⟨saved, -, h⟩ := possible_bind.mp h
        have hTables := congrArg (fun r : Status × Database => r.2.tables) (possible_ret.mp h)
        dsimp only at hTables
        rw [hTables]
        split <;> exact hReached
      · cases possible_ret.mp h
        exact hReached

theorem possible_openDatabase {options : Options} {db : Database} (h : Possible (openDatabase options) (.ok db)) :
    Loaded db.tables := by
  obtain ⟨⟨status, opened⟩, hStages, h⟩ := possible_bind.mp h
  dsimp only at h
  split at h
  · rename_i hOk
    cases possible_ret.mp h
    subst hOk
    obtain ⟨⟨status, tables⟩, hData, hStages⟩ := possible_bind.mp hStages
    dsimp only at hStages
    split at hStages
    · rename_i hFailed
      cases possible_ret.mp hStages
      exact absurd rfl hFailed
    · rename_i hOk
      have hLoaded := possible_openData (not_not.mp hOk ▸ hData)
      obtain ⟨⟨status, wal⟩, -, hStages⟩ := possible_bind.mp hStages
      dsimp only at hStages
      split at hStages
      · rename_i hFailed
        cases possible_ret.mp hStages
        exact absurd rfl hFailed
      · exact possible_recover hStages hLoaded
  · obtain ⟨closed, -, h⟩ := possible_bind.mp h
    cases possible_ret.mp h

/-! ## What every step keeps -/

/-- Kept by refreshing the catalog and by every statement. -/
structure Preserved (P : Tables → Prop) : Prop where
  refresh : ∀ {tables}, P tables → P (refreshCatalog tables)
  effect : ∀ {tables tables' reply}, P tables → Statement.Effect tables reply tables' → P tables'

theorem Preserved.statement {P : Tables → Prop} (hP : Preserved P) {tables tables' : Tables} (h : P tables) {sql : Bytes}
    {params : List Value} {reply : Reply} {q : Parser}
    (hRun : runStatement tables sql params = .done ((reply, tables'), q)) : P tables' := by
  obtain ⟨-, rfl⟩ | hEffect := runStatement_effect hRun
  · exact h
  · exact hP.effect (hP.refresh h) hEffect

namespace Process

/-- The shared tables and the snapshots satisfy `P`. -/
structure Holds (P : Tables → Prop) (p : Process) : Prop where
  shared : P p.db.tables
  snapshot : ∀ conn ∈ p.connections, ∀ tables, conn.transactionTables = some tables → P tables

theorem Holds.start {P : Tables → Prop} {db : Database} (h : P db.tables) : Holds P { db := db } :=
  ⟨h, fun _ hMem => by cases hMem⟩

theorem Holds.at {P : Tables → Prop} {p : Process} (h : p.Holds P) {id : Nat} {conn : Connection}
    (hConn : p.connections[id]? = some conn) {tables : Tables} (hSome : conn.transactionTables = some tables) : P tables :=
  h.snapshot conn (List.mem_of_getElem? hConn) tables hSome

/-- A new database and a new connection at one place. -/
theorem Holds.store {P : Tables → Prop} {p : Process} (h : p.Holds P) {db : Database} (hShared : P db.tables) {id : Nat}
    {conn : Connection} (hConn : ∀ tables, conn.transactionTables = some tables → P tables) (handles : List Handle) :
    Holds P { p.store id conn handles with db := db } := by
  refine ⟨hShared, fun other hMem tables hSome => ?_⟩
  obtain hOld | rfl := List.mem_or_eq_of_mem_set hMem
  · exact h.snapshot other hOld tables hSome
  · exact hConn tables hSome

theorem Holds.database {P : Tables → Prop} {p : Process} (h : p.Holds P) {db : Database} (hShared : P db.tables) :
    Holds P { p with db := db } := ⟨hShared, h.snapshot⟩

theorem discard_none {P : Tables → Prop} (conn : Connection) (tables : Tables)
    (h : conn.discard.transactionTables = some tables) : P tables := by cases h

/-- One call, whatever the files answer. -/
theorem Holds.call {P : Tables → Prop} (hP : Preserved P) {p p' : Process} (h : p.Holds P) {c : Call} {response : Response}
    (hCall : Possible (p.call c) (.done (response, p'))) : p'.Holds P := by
  have hForm := call_form p c
  generalize p.act c = act at hForm
  generalize p.call c = program at hForm hCall
  cases hForm with
  | undefined => cases possible_ret.mp hCall
  | outOfFuel => cases possible_ret.mp hCall
  | none =>
    cases possible_ret.mp hCall
    exact h
  | connect hNew =>
    cases possible_ret.mp hCall
    refine ⟨h.shared, fun conn hMem tables hSome => ?_⟩
    obtain rfl | rfl := hNew
    · exact h.snapshot conn hMem tables hSome
    · obtain hOld | hFresh := List.mem_append.mp hMem
      · exact h.snapshot conn hOld tables hSome
      · rw [List.mem_singleton.mp hFresh] at hSome
        cases hSome
  | begun hConn hNone hOk =>
    cases possible_ret.mp hCall
    exact h.store h.shared (fun tables hSome => by cases hSome; exact h.shared) _
  | begunBefore hConn hSome hError =>
    cases possible_ret.mp hCall
    exact h
  | dropped hConn =>
    cases possible_ret.mp hCall
    exact h.store h.shared (discard_none _) _
  | commitNone hConn hNone hError =>
    cases possible_ret.mp hCall
    exact h
  | conflict hConn hGeneration hError =>
    cases possible_ret.mp hCall
    exact h.store h.shared (discard_none _) _
  | commit hConn hGeneration hSome =>
    obtain ⟨⟨status, db⟩, hPersist, hRest⟩ := possible_bind.mp hCall
    cases possible_ret.mp hRest
    refine h.store ?_ (discard_none _) _
    rw [(possible_persist hPersist).1]
    exact hP.refresh (h.at hConn hSome)
  | inside hConn hSome hRun hResponse =>
    cases possible_ret.mp hCall
    refine h.store h.shared (fun tables hTables => ?_) _
    cases hTables
    exact hP.statement (h.at hConn hSome) hRun
  | outside hConn hNone hRun hReply hResponse =>
    cases possible_ret.mp hCall
    exact h.database (hP.statement h.shared hRun)
  | autocommit hConn hNone hRun hRespond =>
    obtain ⟨⟨status, db⟩, hPersist, hRest⟩ := possible_bind.mp hCall
    cases possible_ret.mp hRest
    refine h.database ?_
    rw [(possible_persist hPersist).1]
    exact hP.statement h.shared hRun
  | checkpoint =>
    obtain ⟨⟨status, db⟩, hCheckpoint, hRest⟩ := possible_bind.mp hCall
    cases possible_ret.mp hRest
    refine h.database ?_
    rw [possible_checkpoint hCheckpoint]
    exact h.shared
  | close =>
    obtain ⟨⟨status, db⟩, hClose, hRest⟩ := possible_bind.mp hCall
    cases possible_ret.mp hRest
    refine h.database ?_
    rw [possible_closeDatabase hClose]
    exact h.shared

/-- What a call commits. -/
theorem Holds.committing {P : Tables → Prop} (hP : Preserved P) {p : Process} (h : p.Holds P) {act : Act} {tables : Tables}
    (hCommit : p.committing act = some tables) : P tables := by
  cases act with
  | commit id =>
    obtain ⟨conn, hConn, hCommit⟩ := Option.bind_eq_some_iff.mp hCommit
    split at hCommit
    · obtain ⟨snapshot, hSome, rfl⟩ := Option.map_eq_some_iff.mp hCommit
      exact hP.refresh (h.at hConn hSome)
    · cases hCommit
  | query id stmt =>
    obtain ⟨conn, hConn, -⟩ := Option.bind_eq_some_iff.mp hCommit
    obtain ⟨-, q, hRun⟩ := run_of_committing hConn hCommit
    exact hP.statement h.shared hRun
  | _ => cases hCommit

/-- The processes reached with an opened database, whatever the files answer to any call. -/
inductive Reached : Process → Prop where
  | opened {options : Options} {db : Database} (hOpen : Possible (openDatabase options) (.ok db)) : Reached { db := db }
  | call {p p' : Process} {c : Call} {response : Response} (h : Reached p)
      (hCall : Possible (p.call c) (.done (response, p'))) : Reached p'

theorem Reached.holds {P : Tables → Prop} (hP : Preserved P) (hLoaded : ∀ {tables}, Loaded tables → P tables) {p : Process}
    (h : Reached p) : p.Holds P := by
  induction h with
  | opened hOpen => exact .start (hLoaded (possible_openDatabase hOpen))
  | call _ hCall ih => exact ih.call hP hCall

end Process

/-! ## The shape of the tables -/

structure ShapedTable (name : Bytes) (table : Table) : Prop where
  lower_name : lower name = name
  type : ∀ column ∈ table.schema.columns, column.type ≠ .kNull
  width : ∀ row ∈ table.rows, row.length = table.schema.size

def Shaped (tables : Tables) : Prop := ∀ name table, tables.find? name = some table → ShapedTable name table

theorem Shaped.insert {tables : Tables} (h : Shaped tables) {name : Bytes} {table : Table} (hTable : ShapedTable name table) :
    Shaped (tables.insert name table) := by
  intro other found hFound
  rw [OrderedMap.find?_insert] at hFound
  split at hFound
  · rename_i hSame
    cases hFound
    exact hSame ▸ hTable
  · exact h other found hFound

theorem Shaped.refreshCatalog {tables : Tables} (h : Shaped tables) : Shaped (refreshCatalog tables) := by
  have hTables : ∀ column ∈ tableColumns, column.type ≠ .kNull := by decide
  have hColumns : ∀ column ∈ columnColumns, column.type ≠ .kNull := by decide
  have hIndexes : ∀ column ∈ indexColumns, column.type ≠ .kNull := by decide
  refine ((h.insert ⟨by decide, hTables, ?_⟩).insert ⟨by decide, hColumns, ?_⟩).insert ⟨by decide, hIndexes, by simp⟩
  · intro row hRow
    obtain ⟨listed, -, rfl⟩ := List.mem_map.mp hRow
    rfl
  · intro row hRow
    obtain ⟨listed, -, hRow⟩ := List.mem_flatMap.mp hRow
    obtain ⟨column, -, rfl⟩ := List.mem_map.mp hRow
    rfl

namespace Statement

theorem width_of_validateRow {schema : Schema} {existing : List Row} {row : Row}
    (h : validateRow schema existing row = .done .ok) : row.length = schema.size := by
  by_contra hWidth
  rw [validateRow, if_pos hWidth] at h
  cases h

theorem Stored.width {schema : Schema} {rows rows' : List Row} (h : Stored schema rows rows')
    (hRows : ∀ row ∈ rows, row.length = schema.size) : ∀ row ∈ rows', row.length = schema.size := by
  induction h with
  | refl => exact hRows
  | push _ hRow ih =>
    intro row hMem
    obtain hOld | hNew := List.mem_append.mp hMem
    · exact ih row hOld
    · rw [List.mem_singleton.mp hNew]
      exact width_of_validateRow hRow

theorem Rewritten.width {schema : Schema} {visited rest rows : List Row} (h : Rewritten schema visited rest rows)
    (hRows : ∀ row ∈ visited ++ rest, row.length = schema.size) : ∀ row ∈ rows, row.length = schema.size := by
  induction h with
  | stop visited rest => exact hRows
  | keep _ ih =>
    apply ih
    rwa [List.append_assoc]
  | replace hRow _ ih =>
    apply ih
    intro row hMem
    simp only [List.mem_append, List.mem_cons, List.not_mem_nil, or_false] at hMem hRows
    obtain (hOld | rfl) | hRest := hMem
    · exact hRows row (Or.inl hOld)
    · exact width_of_validateRow hRow
    · exact hRows row (Or.inr (Or.inr hRest))

end Statement

theorem Shaped.effect {tables tables' : Tables} {reply : Reply} (h : Shaped tables)
    (hEffect : Statement.Effect tables reply tables') : Shaped tables' := by
  cases hEffect with
  | unchanged hReply => exact h
  | create hAbsent hLower hTypes => exact h.insert ⟨hLower, hTypes, by simp⟩
  | drop hFound =>
    intro other found hOther
    rw [OrderedMap.find?_erase] at hOther
    split at hOther
    · cases hOther
    · exact h other found hOther
  | insert hFound hReply hRows =>
    have hTable := h _ _ hFound
    exact h.insert ⟨hTable.lower_name, hTable.type, hRows.width hTable.width⟩
  | update hFound hReply hRows =>
    have hTable := h _ _ hFound
    exact h.insert ⟨hTable.lower_name, hTable.type, hRows.width hTable.width⟩
  | delete hFound hRows =>
    have hTable := h _ _ hFound
    exact h.insert ⟨hTable.lower_name, hTable.type, fun row hRow => hTable.width row (hRows.subset hRow)⟩

theorem preserved_shaped : Preserved Shaped := ⟨Shaped.refreshCatalog, Shaped.effect⟩

theorem Storable.shaped {limits : Limits} {tables : Tables} (h : Storable limits tables) : Shaped tables := by
  intro name table hFound
  have hTable := h.table _ ((OrderedMap.find?_eq_some_iff tables name table).mp hFound)
  exact ⟨hTable.lower_name, fun column hColumn => (hTable.column column hColumn).type,
    fun row hRow => (hTable.row row hRow).width⟩

theorem Loaded.shaped {tables : Tables} (h : Loaded tables) : Shaped tables := by
  obtain rfl | ⟨bytes, hLoad⟩ := h
  · exact (storable_empty .loader).shaped
  · exact (storable_of_load hLoad).shaped

theorem Process.Reached.shaped {p : Process} (h : p.Reached) : p.Holds Shaped := h.holds preserved_shaped Loaded.shaped

end TupleStone
