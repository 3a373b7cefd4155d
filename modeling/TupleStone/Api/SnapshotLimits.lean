import TupleStone.Api.ProcessRuns
import TupleStone.Api.WideTable

/-! # What the decoder refuses of what was written

Of the decoder's checks only the three counts can fail on a snapshot that a process committed: the rest is the shape
of the tables, and a payload that the log takes is too short to overflow a 32-bit count. Nothing keeps the counts
within the decoder's limits.
-/

set_option autoImplicit false

namespace TupleStone

open OpProgram

/-- The decoder's limits on tables, columns and rows. -/
structure Within (limits : Limits) (tables : Tables) : Prop where
  tableCount : tables.size ≤ limits.tables.toNat
  columnCount : ∀ entry ∈ tables.entries, entry.2.schema.size ≤ limits.columns.toNat
  rowCount : ∀ entry ∈ tables.entries, entry.2.rows.length ≤ limits.rows.toNat

/-! ## The length of a snapshot -/

section Lengths

variable {α β : Type}

theorem length_le_flatMap {f : α → List β} {a : α} {xs : List α} (h : a ∈ xs) : (f a).length ≤ (xs.flatMap f).length := by
  obtain ⟨before, after, rfl⟩ := List.append_of_mem h
  simp only [List.flatMap_append, List.flatMap_cons, List.length_append]
  omega

theorem length_le_flatMap_of_pos {f : α → List β} (hPos : ∀ a, f a ≠ []) (xs : List α) : xs.length ≤ (xs.flatMap f).length := by
  induction xs with
  | nil => exact Nat.le_refl _
  | cons a xs ih =>
    have hHead := List.length_pos_iff.mpr (hPos a)
    rw [List.flatMap_cons, List.length_append, List.length_cons]
    omega

end Lengths

namespace Writer

theorem length_u32 (value : UInt32) : (u32 value).length = 4 := ByteDigits.length_digits _ _

theorem length_string (value : Bytes) : (string value).length = 4 + value.length := by
  rw [string, size, List.length_append, length_u32]

theorem storable_of_length {value : Value} (h : (valueData value).length < 2 ^ 32) : value.Storable := by
  cases value with
  | text s =>
    rw [valueData, List.length_append, length_string] at h
    exact Nat.lt_of_le_of_lt (by omega) h
  | blob b =>
    rw [valueData, List.length_append, List.length_append] at h
    exact Nat.lt_of_le_of_lt (by omega) h
  | _ => trivial

theorem size_ne_nil (length : Nat) : size length ≠ [] := by
  intro h
  have hLength := length_u32 (UInt32.ofNat length)
  rw [← size, h] at hLength
  cases hLength

theorem column_ne_nil (c : Column) : column c ≠ [] := by
  simp [column, string, size_ne_nil]

theorem row_ne_nil (r : Row) : row r ≠ [] := by
  simp [row, size_ne_nil]

theorem table_ne_nil (entry : Bytes × Table) : table entry ≠ [] := by
  simp [table, string, size_ne_nil]

theorem length_table (entry : Bytes × Table) : (table entry).length =
    12 + entry.1.length + (entry.2.schema.columns.flatMap column).length + (entry.2.rows.flatMap row).length := by
  simp only [table, length_string, size, List.length_append, length_u32]
  omega

theorem length_table_le {tables : Tables} {entry : Bytes × Table} (h : entry ∈ tables.entries) :
    (table entry).length ≤ (serializeTables tables).length := by
  have hEntry := length_le_flatMap (f := table) h
  rw [serializeTables, List.length_append, List.length_append]
  omega

theorem length_put_flatMap (name : Bytes) (t : Table) (entries : List (Bytes × Table)) :
    ((OrderedMap.put name t entries).flatMap table).length ≤ (entries.flatMap table).length + (table (name, t)).length := by
  induction entries with
  | nil => simp [OrderedMap.put]
  | cons entry entries ih =>
    obtain ⟨other, t'⟩ := entry
    rw [OrderedMap.put]
    split
    · simp only [List.flatMap_cons, List.length_append]
      omega
    · split
      · simp only [List.flatMap_cons, List.length_append]
        omega
      · simp only [List.flatMap_cons, List.length_append]
        omega

theorem length_serializeTables_insert (tables : Tables) (name : Bytes) (t : Table) :
    (serializeTables (tables.insert name t)).length ≤ (serializeTables tables).length + (table (name, t)).length := by
  have hPut := length_put_flatMap name t tables.entries
  simp only [serializeTables, OrderedMap.insert, List.length_append, size, length_u32]
  omega

end Writer

open Writer

/-- A snapshot of shaped tables that is not too long can be saved within any limits that its counts keep. -/
theorem Shaped.storable {limits : Limits} {tables : Tables} (h : Shaped tables) (hLength : (serializeTables tables).length < 2 ^ 32)
    (hWithin : Within limits tables) : Storable limits tables := by
  refine ⟨hWithin.tableCount, fun entry hEntry => ?_⟩
  have hTable := h _ _ ((OrderedMap.find?_eq_some_iff tables entry.1 entry.2).mpr hEntry)
  have hShort := Nat.lt_of_le_of_lt (length_table_le hEntry) hLength
  rw [length_table] at hShort
  refine ⟨hTable.lower_name, by omega, hWithin.columnCount entry hEntry, hWithin.rowCount entry hEntry, ?_, ?_⟩
  · intro c hColumn
    have hName := length_le_flatMap (f := column) hColumn
    have hString : (string c.name).length ≤ (column c).length := by
      simp only [column, List.length_append]
      omega
    rw [length_string] at hString
    exact ⟨by omega, hTable.type c hColumn⟩
  · intro r hRow
    refine ⟨hTable.width r hRow, fun value hValue => storable_of_length ?_⟩
    have hRows := length_le_flatMap (f := row) hRow
    have hValues := length_le_flatMap (f := valueData) hValue
    have hData : (r.flatMap valueData).length ≤ (row r).length := by
      rw [row, List.length_append]
      omega
    omega

theorem within_representable {tables : Tables} (hLength : (serializeTables tables).length < 2 ^ 32) :
    Within .representable tables := by
  have hLimit : ∀ {n : Nat}, n < 2 ^ 32 → n ≤ (4294967295 : UInt32).toNat := fun h => Nat.le_of_lt_succ h
  refine ⟨hLimit ?_, fun entry hEntry => hLimit ?_, fun entry hEntry => hLimit ?_⟩
  · have hTables := length_le_flatMap_of_pos table_ne_nil tables.entries
    rw [serializeTables, List.length_append, List.length_append] at hLength
    rw [OrderedMap.size]
    omega
  · have hColumns := length_le_flatMap_of_pos column_ne_nil entry.2.schema.columns
    have hShort := length_table_le hEntry
    rw [length_table] at hShort
    rw [Schema.size]
    omega
  · have hRows := length_le_flatMap_of_pos row_ne_nil entry.2.rows
    have hShort := length_table_le hEntry
    rw [length_table] at hShort
    omega

/-- Only the counts matter to the decoder. -/
theorem Shaped.accepted_iff {tables : Tables} (h : Shaped tables) (hLength : (serializeTables tables).length < 2 ^ 32) :
    Accepted (serializeTables tables) ↔ Within .loader tables := by
  constructor
  · rintro ⟨loaded, hLoad⟩
    have hStorable := storable_of_load hLoad
    rw [(h.storable hLength (within_representable hLength)).eq_of_load_serialize hLoad] at hStorable
    exact ⟨hStorable.tableCount, fun entry hEntry => (hStorable.table entry hEntry).columnCount,
      fun entry hEntry => (hStorable.table entry hEntry).rowCount⟩
  · intro hWithin
    exact ⟨tables, (h.storable hLength hWithin).load_serialize⟩

/-! ## Commits that succeed -/

theorem possible_append {log log' : LogManager} {txnId prevLsn : UInt64} {type : LogRecordType} {payload : Bytes}
    {r : Except Status UInt64} (h : Possible (log.append txnId prevLsn type payload) (r, log')) :
    r ≠ .error .ok ∧ ∀ lsn, r = .ok lsn → payload.length ≤ LogManager.maxPayload := by
  rw [LogManager.append] at h
  split at h
  · cases possible_ret.mp h
    simp [Status.ioError]
  split at h
  · cases possible_ret.mp h
    simp [Status.outOfRange]
  · rename_i hShort
    obtain ⟨written, -, h⟩ := possible_bind.mp h
    refine ⟨?_, fun _ _ => Nat.le_of_not_lt hShort⟩
    split at h <;> cases possible_ret.mp h <;> simp [Status.ioError]

theorem possible_appendCommit {log log' : LogManager} {txnId : UInt64} {payload : Bytes} {r : Except Status UInt64}
    (h : Possible (appendCommit log txnId payload) (r, log')) :
    r ≠ .error .ok ∧ ∀ lsn, r = .ok lsn → payload.length ≤ LogManager.maxPayload := by
  obtain ⟨⟨begun, log₁⟩, hBegin, h⟩ := possible_bind.mp h
  cases begun with
  | error status =>
    cases possible_ret.mp h
    exact ⟨(possible_append hBegin).1, fun _ hOk => by cases hOk⟩
  | ok begun =>
    obtain ⟨⟨updated, log₂⟩, hUpdate, h⟩ := possible_bind.mp h
    cases updated with
    | error status =>
      cases possible_ret.mp h
      exact ⟨(possible_append hUpdate).1, fun _ hOk => by cases hOk⟩
    | ok updated => exact ⟨(possible_append h).1, fun _ _ => (possible_append hUpdate).2 updated rfl⟩

theorem possible_persist_ok {db db' : Database} {tables : Tables}
    (h : Possible (persistCommittedTables db tables) (.ok, db')) :
    (snapshotPayload tables).length ≤ LogManager.maxPayload := by
  obtain ⟨⟨appended, wal⟩, hAppend, h⟩ := possible_bind.mp h
  cases appended with
  | error status =>
    cases possible_ret.mp h
    exact absurd rfl (possible_appendCommit hAppend).1
  | ok lsn => exact (possible_appendCommit hAppend).2 lsn rfl

theorem length_of_payload {tables : Tables} (h : (snapshotPayload tables).length ≤ LogManager.maxPayload) :
    (serializeTables tables).length < 2 ^ 32 := by
  rw [snapshotPayload, List.length_append, LogManager.maxPayload] at h
  omega

/-- An open log takes every payload that is not too large, when the files do what they are asked to. -/
theorem possible_persist_committed {db : Database} (hOpen : db.wal.isOpen = true) {tables : Tables}
    (hPayload : (snapshotPayload tables).length ≤ LogManager.maxPayload) :
    Possible (persistCommittedTables db tables) (.ok, db.committed) := by
  let w : Files.World FileId := fun f => if f = .wal then ⟨some [], []⟩ else ⟨none, []⟩
  have hWorld : Opened w ⟨none, [], []⟩ := ⟨rfl, [], [], rfl, .nil, .nil⟩
  have hSafe := safe_persist (K := fun _ => True) hWorld hOpen hPayload rfl (fun _ => trivial) trivial trivial
  rw [← hSafe.result.1]
  exact possible_run _ w

namespace Process

/-- What a call has committed can be loaded exactly when its tables, columns and rows are within the decoder's limits. -/
theorem committed_accepted_iff (p p' : Process) (c : Call) (tables : Tables) (response : Response) (hReached : p.Reached)
    (hCommit : p.committing (p.act c) = some tables) (hCall : Possible (p.call c) (.done (response, p')))
    (hOk : response.toStatus = .ok) : Accepted (serializeTables tables) ↔ Within .loader tables := by
  have hPersist := persist_of_committing hCommit hCall
  rw [hOk] at hPersist
  have hShaped : Shaped tables := hReached.shaped.committing preserved_shaped hCommit
  exact hShaped.accepted_iff (length_of_payload (possible_persist_ok hPersist))

theorem reached_fresh : fresh.Reached := by
  have hOpen : Possible (openDatabase {}) (.ok freshDatabase) := by
    rw [← opens_fresh]
    exact possible_run _ _
  have hConnect : Possible (Process.call { db := freshDatabase } .connect) (.done (.connection 0, fresh)) := .ret _
  exact (Reached.opened hOpen).call hConnect

/-- A statement outside a transaction whose commit succeeds. -/
theorem possible_autocommit {p : Process} {id : Nat} {conn : Connection} {stmt : Stmt} {tables : Tables}
    (hConn : p.connections[id]? = some conn) (hOpen : p.db.wal.isOpen = true) (h : p.committing (.query id stmt) = some tables)
    (hPayload : (snapshotPayload tables).length ≤ LogManager.maxPayload) : Possible (p.call (.query id stmt.sql stmt.params))
      (.done (.reply (.status .ok), { p with db := (p.db.publish tables).committed })) := by
  obtain ⟨hNone, q, hRun⟩ := run_of_committing hConn h
  have hPublished : (p.db.publish tables).wal.isOpen = true := hOpen
  rw [Process.call, onConnection_autocommit hConn hNone hRun]
  exact possible_bind.mpr ⟨_, possible_persist_committed hPublished hPayload, .ret _⟩

theorem createTable_accepted_iff : Accepted (serializeTables tablesWithT) ↔ Within .loader tablesWithT := by
  have hPayload : (snapshotPayload tablesWithT).length ≤ LogManager.maxPayload := by decide +kernel
  have hCommit := committing_fresh
  rw [act_fresh] at hCommit
  have hConn : fresh.connections[0]? = some ({} : Connection) := rfl
  have hOpen : fresh.db.wal.isOpen = true := rfl
  have hCall := possible_autocommit hConn hOpen hCommit hPayload
  have hAct : fresh.act (.query 0 createTableT []) = .query 0 ⟨createTableT, []⟩ := rfl
  rw [← hAct] at hCommit
  exact committed_accepted_iff fresh _ (.query 0 createTableT []) tablesWithT _ reached_fresh hCommit hCall rfl

/-! ## More columns than the decoder takes -/

def wideTables (n : Nat) : Tables :=
  (refreshCatalog OrderedMap.empty).insert (ascii "t") ⟨⟨List.replicate (n + 1) Statement.textColumn⟩, []⟩

theorem committing_wide (n : Nat) : fresh.committing (.query 0 ⟨wideTable n, []⟩) = some (wideTables n) := by
  have hAbsent : (refreshCatalog OrderedMap.empty).find? (ascii "t") = none := by decide
  obtain ⟨q, hRun⟩ := runStatement_wideTable hAbsent n []
  have hConn : fresh.connections[0]? = some ({} : Connection) := rfl
  have hTables : fresh.db.tables = OrderedMap.empty := rfl
  rw [committing, hConn, Option.bind_some, if_neg (by decide), hTables, hRun]
  rfl

theorem length_wideTables (n : Nat) : (serializeTables (wideTables n)).length ≤ 9 * n + 2000 := by
  have hInsert := length_serializeTables_insert (refreshCatalog OrderedMap.empty) (ascii "t")
    ⟨⟨List.replicate (n + 1) Statement.textColumn⟩, []⟩
  have hCatalog : (serializeTables (refreshCatalog OrderedMap.empty)).length ≤ 1000 := by decide +kernel
  have hColumn : (column Statement.textColumn).length = 9 := by decide +kernel
  have hColumns : ((List.replicate (n + 1) Statement.textColumn).flatMap column).length = 9 * (n + 1) := by
    rw [List.length_flatMap, List.map_replicate, hColumn, List.sum_replicate_nat, Nat.mul_comm]
  have hName : (ascii "t").length = 1 := by decide
  rw [length_table, hColumns, hName] at hInsert
  rw [wideTables]
  simp only [List.flatMap_nil, List.length_nil] at hInsert
  omega

/-- A table of 10001 columns is committed and cannot be loaded. -/
theorem wide_table_refused :
    ¬ ∀ (p p' : Process) (c : Call) (tables : Tables) (response : Response), p.Reached →
      p.committing (p.act c) = some tables → Possible (p.call c) (.done (response, p')) → response.toStatus = .ok →
      Accepted (serializeTables tables) := by
  intro hClaim
  -- the number stays a variable, so that no step computes the statement
  obtain ⟨n, hn⟩ : ∃ n, n = 10000 := ⟨_, rfl⟩
  have hLength := length_wideTables n
  have hPayload : (snapshotPayload (wideTables n)).length ≤ LogManager.maxPayload := by
    have hPrefix : kSnapshotPrefix.length = 22 := by decide +kernel
    rw [snapshotPayload, List.length_append, hPrefix, LogManager.maxPayload]
    omega
  have hAct : fresh.act (.query 0 (wideTable n) []) = .query 0 ⟨wideTable n, []⟩ := rfl
  have hCommit := committing_wide n
  have hConn : fresh.connections[0]? = some ({} : Connection) := rfl
  have hOpen : fresh.db.wal.isOpen = true := rfl
  have hCall := possible_autocommit hConn hOpen hCommit hPayload
  rw [← hAct] at hCommit
  have hAccepted := hClaim fresh _ (.query 0 (wideTable n) []) _ _ reached_fresh hCommit hCall rfl
  have hShaped := reached_fresh.shaped.committing preserved_shaped hCommit
  have hWithin := (hShaped.accepted_iff (length_of_payload hPayload)).mp hAccepted
  have hFound : (wideTables n).find? (ascii "t") = some ⟨⟨List.replicate (n + 1) Statement.textColumn⟩, []⟩ :=
    OrderedMap.find?_insert_self _ _ _
  have hColumns := hWithin.columnCount _ ((OrderedMap.find?_eq_some_iff _ _ _).mp hFound)
  have hLimit : Limits.loader.columns.toNat = 10000 := rfl
  rw [Schema.size, List.length_replicate, hLimit] at hColumns
  omega

end Process

end TupleStone
