import TupleStone.Api.Snapshot

/-! # The snapshot codec

Every reader scans: it is defined on every input and its result is settled by what it consumed. In front of any
rest it inverts the writer of the same field, so the loader inverts `serializeTables`.
-/

set_option autoImplicit false

namespace TupleStone

open ByteDigits Attempt CursorM

namespace Reader

theorem exec_u8_nil (pre : Bytes) : exec u8 ⟨pre ++ [], pre.length⟩ = .done (.error (), ⟨pre ++ [], pre.length⟩) := by
  simp [exec, u8]

theorem reads_u8 (byte : UInt8) : Reads u8 byte [byte] := by
  intro pre more
  have hLength : ¬ (pre ++ ([byte] ++ more)).length ≤ pre.length := by simp
  have hByte : (pre ++ ([byte] ++ more))[pre.length]? = some byte := by simp
  rw [exec, u8, if_neg hLength, hByte]
  rfl

theorem scans_u8 : Scans u8 := by
  intro pre rest
  cases rest with
  | nil => exact ⟨.error (), [], [], rfl, exec_u8_nil pre, fun _ h => by cases h⟩
  | cons byte rest =>
    refine ⟨.ok byte, [byte], rest, rfl, reads_u8 byte pre rest, ?_⟩
    rintro _ ⟨⟩
    exact reads_u8 byte

theorem reads_readInto (value i : Nat) (used : Bytes) : Reads (readInto value i used.length) (join value i used) used := by
  induction used generalizing value i with
  | nil => exact reads_pure value
  | cons byte used ih => exact (reads_u8 byte).bind (ih _ _)

theorem scans_readInto (value i n : Nat) : Scans (readInto value i n) := by
  induction n generalizing value i with
  | zero => exact scans_pure value
  | succ n ih => exact scans_u8.bind (fun _ => ih _ _)

theorem reads_digits {n v : Nat} (h : v < 256 ^ n) : Reads (readInto 0 0 n) v (digits n v) := by
  have hReads := reads_readInto 0 0 (digits n v)
  rwa [length_digits, join_zero, value_digits, Nat.mod_eq_of_lt h] at hReads

theorem reads_u32 (value : UInt32) : Reads u32 value (Writer.u32 value) := by
  have hReads := (reads_digits (n := 4) value.toNat_lt).bind_pure UInt32.ofNat
  rwa [UInt32.ofNat_toNat] at hReads

theorem reads_u64 (value : UInt64) : Reads u64 value (Writer.u64 value) := by
  have hReads := (reads_digits (n := 8) value.toNat_lt).bind_pure UInt64.ofNat
  rwa [UInt64.ofNat_toNat] at hReads

theorem scans_u32 : Scans u32 := (scans_readInto 0 0 4).bind_pure _

theorem scans_u64 : Scans u64 := (scans_readInto 0 0 8).bind_pure _

theorem exec_sized {pre rest : Bytes} {size : Nat} (h : size ≤ rest.length) :
    exec (sized size) ⟨pre ++ rest, pre.length⟩ =
      .done (.ok (rest.take size), ⟨pre ++ rest, pre.length + size⟩) := by
  have hRemaining : exec remaining ⟨pre ++ rest, pre.length⟩ = .done (.ok rest.length, ⟨pre ++ rest, pre.length⟩) := by
    simp [exec, remaining]
  have hCopy : ¬ (pre ++ rest).length < pre.length + size := by
    rw [List.length_append]
    omega
  rw [sized, exec_bind_ok hRemaining, if_neg (by omega), exec, copy, if_neg hCopy, List.drop_left]

theorem reads_sized (used : Bytes) : Reads (sized used.length) used used := by
  intro pre more
  rw [exec_sized (by simp), List.take_left]

theorem scans_sized (size : Nat) : Scans (sized size) := by
  intro pre rest
  obtain hShort | hLong := Nat.lt_or_ge rest.length size
  · have hRemaining : exec remaining ⟨pre ++ rest, pre.length⟩ = .done (.ok rest.length, ⟨pre ++ rest, pre.length⟩) := by
      simp [exec, remaining]
    refine ⟨.error (), [], rest, rfl, ?_, fun _ h => by cases h⟩
    rw [sized, exec_bind_ok hRemaining, if_pos hShort]
    rfl
  · have hLength : (rest.take size).length = size := by simp [hLong]
    refine ⟨.ok (rest.take size), rest.take size, rest.drop size, (List.take_append_drop size rest).symm, ?_, ?_⟩
    · rw [exec_sized hLong, hLength]
    · rintro _ ⟨⟩
      have hReads := reads_sized (rest.take size)
      rwa [hLength] at hReads

theorem toNat_size {n : Nat} (h : n < 2 ^ 32) : (UInt32.ofNat n).toNat = n :=
  UInt32.toNat_ofNat_of_lt' h

theorem reads_counted {s : Bytes} (h : s.length < 2 ^ 32) :
    Reads (u32 >>= fun size => sized size.toNat) s (Writer.string s) := by
  refine (reads_u32 (UInt32.ofNat s.length)).bind ?_
  rw [toNat_size h]
  exact reads_sized s

theorem scans_counted : Scans (u32 >>= fun size => sized size.toNat) := scans_u32.bind (fun _ => scans_sized _)

theorem yields_sized (size : Nat) : Yields (sized size) (fun s => s.length ≤ size) := by
  refine (yields_true remaining).bind (fun available _ => ?_)
  split
  · exact yields_throw _ _
  · intro c c' s h
    rw [exec, copy] at h
    split at h
    · cases h
    · cases h
      exact List.length_take_le _ _

theorem yields_counted : Yields (u32 >>= fun size => sized size.toNat) (fun s => s.length < 2 ^ 32) := by
  refine (yields_true u32).bind (fun size _ c c' s h => ?_)
  exact Nat.lt_of_le_of_lt (yields_sized _ c c' s h) size.toNat_lt

theorem scans_valueData : Scans valueData := by
  refine scans_u8.bind (fun tag => ?_)
  split
  · exact scans_pure _
  · exact scans_u8.bind (fun b => Scans.ite (scans_throw ()) (scans_pure _))
  · exact scans_u64.bind_pure _
  · exact scans_u64.bind_pure _
  · exact scans_counted.bind_pure _
  · exact scans_u32.bind (fun size => (scans_sized _).bind_pure _)
  · exact scans_throw ()

end Reader

/-- The length of a string or blob fits its 32-bit count. -/
def Value.Storable : Value → Prop
  | .text s => s.length < 2 ^ 32
  | .blob b => b.length < 2 ^ 32
  | _ => True

namespace Reader

theorem reads_flag (value : Bool) : Reads u8 (if value then 1 else 0) (Writer.flag value) := reads_u8 _

theorem flag_ne_zero (value : Bool) : ((if value then 1 else 0 : UInt8) != 0) = value := by
  cases value <;> rfl

theorem reads_valueData {value : Value} (h : value.Storable) : Reads valueData value (Writer.valueData value) := by
  refine (reads_u8 value.type.toByte).bind ?_
  cases value with
  | null => exact reads_pure _
  | boolean b =>
    let rest : UInt8 → Reader Value := fun byte => if 1 < byte then throw () else pure (Value.boolean (byte != 0))
    have hRest : Reads (rest (if b then 1 else 0)) (Value.boolean b) [] := by
      cases b <;> exact reads_pure _
    have hReads := (reads_flag b).bind hRest
    rwa [List.append_nil] at hReads
  | integer n =>
    have hReads := (reads_u64 n.toUInt64).bind_pure (fun m => Value.integer m.toInt64)
    rwa [Int64.toInt64_toUInt64] at hReads
  | real x => exact (reads_u64 x.bits).bind_pure (fun bits => Value.real ⟨bits⟩)
  | text s => exact (reads_counted h).bind_pure Value.text
  | blob b =>
    have hRest : Reads (sized (UInt32.ofNat b.length).toNat >>= fun b => pure (Value.blob b)) (Value.blob b) b := by
      rw [toNat_size h]
      exact (reads_sized b).bind_pure Value.blob
    exact (reads_u32 (UInt32.ofNat b.length)).bind hRest

theorem yields_valueData : Yields valueData Value.Storable := by
  refine (yields_true u8).bind (fun tag _ => ?_)
  split
  · exact yields_pure trivial
  · refine (yields_true u8).bind (fun b _ => ?_)
    split
    · exact yields_throw _ _
    · exact yields_pure trivial
  · exact (yields_true u64).bind (fun _ _ => yields_pure trivial)
  · exact (yields_true u64).bind (fun _ _ => yields_pure trivial)
  · exact yields_counted.bind (fun _ h => yields_pure h)
  · exact (yields_true u32).bind (fun size _ => (yields_sized _).bind (fun _ h =>
      yields_pure (Nat.lt_of_le_of_lt h size.toNat_lt)))
  · exact yields_throw _ _

end Reader

/-! ## The loader inverts the writer -/

structure StorableColumn (column : Column) : Prop where
  name : column.name.length < 2 ^ 32
  type : column.type ≠ .kNull

structure StorableRow (schema : Schema) (row : Row) : Prop where
  width : row.length = schema.size
  value : ∀ value ∈ row, value.Storable

structure StorableTable (limits : Limits) (entry : Bytes × Table) : Prop where
  lower_name : lower entry.1 = entry.1
  name : entry.1.length < 2 ^ 32
  columnCount : entry.2.schema.size ≤ limits.columns.toNat
  rowCount : entry.2.rows.length ≤ limits.rows.toNat
  column : ∀ column ∈ entry.2.schema.columns, StorableColumn column
  row : ∀ row ∈ entry.2.rows, StorableRow entry.2.schema row

/-- The maps that survive being saved and loaded. -/
structure Storable (limits : Limits) (tables : Tables) : Prop where
  tableCount : tables.size ≤ limits.tables.toNat
  table : ∀ entry ∈ tables.entries, StorableTable limits entry

namespace Loader

variable {limits : Limits}

theorem reads_required {α : Type} {reader : Reader α} {a : α} {used : Bytes} (h : Reads reader a used) (status : Status) :
    Reads (required reader status) a used := h.mapError _

theorem scans_required {α : Type} {reader : Reader α} (h : Scans reader) (status : Status) :
    Scans (required reader status) := h.mapError _

theorem yields_required {α : Type} {reader : Reader α} {P : α → Prop} (h : Yields reader P) (status : Status) :
    Yields (required reader status) P := h.mapError _

theorem scans_column : Scans column := by
  refine (scans_required Reader.scans_counted _).bind (fun name => ?_)
  refine (scans_required Reader.scans_u8 _).bind (fun tag => ?_)
  refine (scans_required Reader.scans_u8 _).bind (fun nullable => ?_)
  refine (scans_required Reader.scans_u8 _).bind (fun primary => ?_)
  refine (scans_required Reader.scans_u8 _).bind (fun unique => ?_)
  split
  · exact scans_throw _
  · exact scans_throw _
  · exact scans_pure _

theorem reads_column {c : Column} (h : StorableColumn c) : Reads column c (Writer.column c) := by
  obtain ⟨name, type, nullable, primaryKey, unique⟩ := c
  have hType : type ≠ .kNull := h.type
  have hReads : Reads column ⟨name, type, nullable, primaryKey, unique⟩
      (Writer.string name ++ (Writer.u8 type.toByte ++ (Writer.flag nullable ++
        (Writer.flag primaryKey ++ (Writer.flag unique ++ []))))) := by
    refine (reads_required (Reader.reads_counted h.name) _).bind ?_
    refine (reads_required (Reader.reads_u8 type.toByte) _).bind ?_
    refine (reads_required (Reader.reads_flag nullable) _).bind ?_
    refine (reads_required (Reader.reads_flag primaryKey) _).bind ?_
    refine (reads_required (Reader.reads_flag unique) _).bind ?_
    rw [Reader.flag_ne_zero, Reader.flag_ne_zero, Reader.flag_ne_zero]
    cases type with
    | kNull => exact absurd rfl hType
    | kBoolean => exact reads_pure _
    | kInteger => exact reads_pure _
    | kReal => exact reads_pure _
    | kText => exact reads_pure _
    | kBlob => exact reads_pure _
  simpa [Writer.column, List.append_assoc] using hReads

theorem yields_column : Yields column StorableColumn := by
  refine (yields_required Reader.yields_counted _).bind (fun name hName => ?_)
  refine (yields_true _).bind (fun tag _ => (yields_true _).bind (fun nullable _ =>
    (yields_true _).bind (fun primary _ => (yields_true _).bind (fun unique _ => ?_))))
  split
  · exact yields_throw _ _
  · exact yields_throw _ _
  · rename_i type hNull _
    refine yields_pure ⟨hName, ?_⟩
    rintro rfl
    exact hNull rfl

theorem scans_row (schema : Schema) : Scans (row schema) :=
  (scans_required Reader.scans_u32 _).bind (fun _ =>
    Scans.ite (scans_throw _) ((scans_required Reader.scans_valueData _).times _))

theorem reads_row {schema : Schema} {r : Row} (h : StorableRow schema r) (hSize : schema.size < 2 ^ 32) :
    Reads (row schema) r (Writer.row r) := by
  have hWidth : (UInt32.ofNat r.length).toNat = r.length := Reader.toNat_size (h.width ▸ hSize)
  refine (reads_required (Reader.reads_u32 (UInt32.ofNat r.length)) _).bind ?_
  rw [hWidth, if_neg (not_not.mpr h.width)]
  exact Reads.times r (fun value hValue => reads_required (Reader.reads_valueData (h.value value hValue)) _)

theorem yields_row (schema : Schema) : Yields (row schema) (StorableRow schema) := by
  refine (yields_true _).bind (fun width _ => ?_)
  split
  · exact yields_throw _ _
  · rename_i hWidth
    intro c c' r h
    obtain ⟨hLength, hValues⟩ := (yields_required Reader.yields_valueData _).times width.toNat c c' r h
    exact ⟨hLength.trans (not_not.mp hWidth), hValues⟩

theorem scans_table (limits : Limits) : Scans (table limits) := by
  refine (scans_required Reader.scans_counted _).bind (fun name => ?_)
  refine (scans_required Reader.scans_u32 _).bind (fun columnCount => Scans.ite (scans_throw _) ?_)
  refine (scans_column.times _).bind (fun columns => ?_)
  refine (scans_required Reader.scans_u32 _).bind (fun rowCount => Scans.ite (scans_throw _) ?_)
  exact ((scans_row _).times _).bind_pure _

theorem not_lt_size {limit : UInt32} {n : Nat} (h : n ≤ limit.toNat) :
    ¬ limit < UInt32.ofNat n ∧ (UInt32.ofNat n).toNat = n := by
  have hSize : (UInt32.ofNat n).toNat = n := Reader.toNat_size (Nat.lt_of_le_of_lt h limit.toNat_lt)
  refine ⟨?_, hSize⟩
  rw [UInt32.lt_iff_toNat_lt, hSize]
  omega

theorem reads_table {entry : Bytes × Table} (h : StorableTable limits entry) :
    Reads (table limits) entry (Writer.table entry) := by
  obtain ⟨name, schema, rows⟩ := entry
  have hLower : lower name = name := h.lower_name
  have hColumns := not_lt_size h.columnCount
  have hRows := not_lt_size h.rowCount
  have hReads : Reads (table limits) (name, ⟨schema, rows⟩)
      (Writer.string name ++ (Writer.size schema.size ++ (schema.columns.flatMap Writer.column ++
        (Writer.size rows.length ++ rows.flatMap Writer.row)))) := by
    refine (reads_required (Reader.reads_counted h.name) _).bind ?_
    refine (reads_required (Reader.reads_u32 (UInt32.ofNat schema.size)) _).bind ?_
    rw [if_neg hColumns.1, hColumns.2]
    refine (Reads.times schema.columns (fun c hc => reads_column (h.column c hc))).bind ?_
    refine (reads_required (Reader.reads_u32 (UInt32.ofNat rows.length)) _).bind ?_
    rw [if_neg hRows.1, hRows.2]
    have hSize : schema.size < 2 ^ 32 := Nat.lt_of_le_of_lt h.columnCount limits.columns.toNat_lt
    have hTimes := (Reads.times rows (fun r hr => reads_row (h.row r hr) hSize)).bind_pure
      (fun rows => (name, (⟨schema, rows⟩ : Table)))
    simp only [hLower]
    exact hTimes
  simpa [Writer.table, List.append_assoc] using hReads

theorem yields_table (limits : Limits) : Yields (table limits) (StorableTable limits) := by
  refine (yields_required Reader.yields_counted _).bind (fun name hName => ?_)
  refine (yields_true _).bind (fun columnCount _ => ?_)
  split
  · exact yields_throw _ _
  · rename_i hColumnCount
    refine (yields_column.times _).bind (fun columns hColumns => (yields_true _).bind (fun rowCount _ => ?_))
    split
    · exact yields_throw _ _
    · rename_i hRowCount
      rw [UInt32.not_lt, UInt32.le_iff_toNat_le] at hColumnCount hRowCount
      refine ((yields_row _).times _).bind (fun rows hRows => yields_pure ?_)
      exact ⟨lower_lower name, (length_lower name).symm ▸ hName, hColumns.1.trans_le hColumnCount,
        hRows.1.trans_le hRowCount, hColumns.2, hRows.2⟩

theorem scans_tables (limits : Limits) : Scans (tables limits) := by
  refine (scans_required Reader.scans_counted _).bind (fun magic => Scans.ite (scans_throw _) ?_)
  refine (scans_required Reader.scans_u32 _).bind (fun tableCount => Scans.ite (scans_throw _) ?_)
  exact ((scans_table limits).times _).bind_pure _

theorem reads_tables {t : Tables} (h : Storable limits t) : Reads (tables limits) t (serializeTables t) := by
  have hCount := not_lt_size h.tableCount
  refine (reads_required (Reader.reads_counted (s := snapshotMagic) (by decide)) _).bind ?_
  rw [if_neg (not_not.mpr rfl)]
  refine (reads_required (Reader.reads_u32 (UInt32.ofNat t.size)) _).bind ?_
  rw [if_neg hCount.1, hCount.2]
  have hTimes := (Reads.times t.entries (fun entry hEntry => reads_table (h.table entry hEntry))).bind_pure
    (fun entries => entries.foldl (fun result entry => result.emplace entry.1 entry.2) OrderedMap.empty)
  rwa [OrderedMap.foldl_emplace_entries] at hTimes

theorem yields_tables (limits : Limits) : Yields (tables limits) (Storable limits) := by
  refine (yields_true _).bind (fun magic _ => ?_)
  split
  · exact yields_throw _ _
  · refine (yields_true _).bind (fun tableCount _ => ?_)
    split
    · exact yields_throw _ _
    · rename_i hCount
      rw [UInt32.not_lt, UInt32.le_iff_toNat_le] at hCount
      refine ((yields_table limits).times _).bind (fun entries hEntries => yields_pure ⟨?_, ?_⟩)
      · have hSize := OrderedMap.size_foldl_emplace_le entries OrderedMap.empty
        rw [hEntries.1] at hSize
        exact hSize.trans (by simpa [OrderedMap.size, OrderedMap.empty] using hCount)
      · intro entry hEntry
        obtain hMem | hMem := OrderedMap.mem_foldl_emplace hEntry
        · exact hEntries.2 entry hMem
        · cases hMem

/-- What the whole load does once its walk has consumed `used`. -/
theorem exec_whole (limits : Limits) (bytes : Bytes) :
    ∃ x used more, bytes = used ++ more ∧ exec (tables limits) ⟨bytes, 0⟩ = .done (x, ⟨bytes, used.length⟩) ∧
      (∀ t, x = .ok t → Reads (tables limits) t used) ∧ loadOutcome limits bytes = .done (match x with
        | .ok t => if more = [] then .ok t else .error (.corruption (ascii "trailing database bytes"))
        | .error status => .error status, ⟨bytes, used.length⟩) := by
  obtain ⟨x, used, more, hBytes, hExec, hReads⟩ := scans_tables limits [] bytes
  simp only [List.nil_append, List.length_nil, Nat.zero_add] at hExec
  refine ⟨x, used, more, hBytes, hExec, hReads, ?_⟩
  cases x with
  | error status => exact exec_bind_error hExec
  | ok t =>
    have hDone : exec (Reader.done : Loader Bool) ⟨bytes, used.length⟩ =
        .done (.ok (used.length == bytes.length), ⟨bytes, used.length⟩) := rfl
    rw [loadOutcome, whole, exec_bind_ok hExec, exec_bind_ok hDone, hBytes]
    cases more with
    | nil => simp
    | cons byte more => simp

theorem loadOutcome_done (limits : Limits) (bytes : Bytes) : ∃ r, loadOutcome limits bytes = .done r := by
  obtain ⟨x, used, more, -, -, -, hDone⟩ := exec_whole limits bytes
  exact ⟨_, hDone⟩

theorem implies_tables {wide : Limits} (hTables : limits.tables ≤ wide.tables)
    (hColumns : limits.columns ≤ wide.columns) (hRows : limits.rows ≤ wide.rows) :
    Implies (tables limits) (tables wide) := by
  have hWeaker : ∀ {limit limit' n : UInt32}, limit ≤ limit' → ¬ limit < n → ¬ limit' < n := by
    intro limit limit' n hLimit hNot
    rw [UInt32.not_lt] at hNot ⊢
    exact UInt32.le_trans hNot hLimit
  have hTable : Implies (table limits) (table wide) := by
    refine (Implies.refl _).bind (fun name => (Implies.refl _).bind (fun columnCount => ?_))
    refine Implies.guard (hWeaker hColumns) ((Implies.refl _).bind (fun columns => ?_))
    refine (Implies.refl _).bind (fun rowCount => Implies.guard (hWeaker hRows) (.refl _))
  refine (Implies.refl _).bind (fun magic => Implies.guard id ((Implies.refl _).bind (fun tableCount => ?_)))
  exact Implies.guard (hWeaker hTables) ((hTable.times _).bind (fun entries => .refl _))

/-! ### Failures -/

/-- The bytes are not those of a snapshot. -/
def Malformed (status : Status) : Prop := ∃ message, status = .corruption message ∨ status = .incompatible message

theorem ensures_required {α : Type} {reader : Reader α} {status : Status} (h : Malformed status) :
    Ensures (required reader status) (fun _ => True) Malformed :=
  (ensures_mapError status).weaken (fun _ h => h) (fun _ hStatus => hStatus ▸ h)

theorem ensures_column : Ensures column (fun _ => True) Malformed := by
  have hTruncated : Malformed (.corruption (ascii "truncated schema")) := ⟨_, Or.inl rfl⟩
  refine (ensures_required hTruncated).bind (fun name _ => (ensures_required hTruncated).bind (fun tag _ => ?_))
  refine (ensures_required hTruncated).bind (fun _ _ => (ensures_required hTruncated).bind (fun _ _ => ?_))
  refine (ensures_required hTruncated).bind (fun _ _ => ?_)
  split
  · exact ensures_throw ⟨_, Or.inl rfl⟩
  · exact ensures_throw ⟨_, Or.inl rfl⟩
  · exact ensures_pure trivial

theorem ensures_table (limits : Limits) : Ensures (table limits) (fun _ => True) Malformed := by
  have hCorrupt : ∀ message, Malformed (.corruption message) := fun message => ⟨message, Or.inl rfl⟩
  refine (ensures_required (hCorrupt _)).bind (fun name _ => (ensures_required (hCorrupt _)).bind (fun columnCount _ => ?_))
  refine ensures_ite (fun _ => ensures_throw (hCorrupt _)) (fun _ => ?_)
  refine (ensures_times ensures_column _).bind (fun columns _ => (ensures_required (hCorrupt _)).bind (fun rowCount _ => ?_))
  refine ensures_ite (fun _ => ensures_throw (hCorrupt _)) (fun _ => ?_)
  have hRow : Ensures (row ⟨columns⟩) (fun _ => True) Malformed :=
    (ensures_required (hCorrupt _)).bind (fun _ _ => ensures_ite (fun _ => ensures_throw (hCorrupt _))
      (fun _ => ensures_times (ensures_required (hCorrupt _)) _))
  exact (ensures_times hRow _).bind (fun _ _ => ensures_pure trivial)

theorem ensures_whole (limits : Limits) : Ensures (whole limits) (fun _ => True) Malformed := by
  have hCorrupt : ∀ message, Malformed (.corruption message) := fun message => ⟨message, Or.inl rfl⟩
  have hUnsupported : Malformed (.incompatible (ascii "unsupported database format")) := ⟨_, Or.inr rfl⟩
  have hTables : Ensures (tables limits) (fun _ => True) Malformed := by
    refine (ensures_required hUnsupported).bind (fun magic _ => ?_)
    refine ensures_ite (fun _ => ensures_throw hUnsupported) (fun _ => (ensures_required (hCorrupt _)).bind (fun _ _ => ?_))
    refine ensures_ite (fun _ => ensures_throw (hCorrupt _)) (fun _ => ?_)
    exact (ensures_times (ensures_table limits) _).bind (fun _ _ => ensures_pure trivial)
  have hDone : Ensures (Reader.done : Loader Bool) (fun _ => True) Malformed := by
    rintro c c' x ⟨⟩
    exact ⟨fun _ _ => trivial, fun _ hx => by cases hx⟩
  refine hTables.bind (fun result _ => hDone.bind (fun done _ => ?_))
  exact ensures_ite (fun _ => ensures_pure trivial) (fun _ => ensures_throw (hCorrupt _))

end Loader

/-- `LoadTablesBytes` with the loader's limits as a parameter. -/
def loadTablesWithin (limits : Limits) (bytes : Bytes) : Except Status Tables :=
  ((loadOutcome limits bytes).get (Loader.loadOutcome_done limits bytes)).1

def loadTablesBytes (bytes : Bytes) : Except Status Tables := loadTablesWithin .loader bytes

theorem loadTablesWithin_eq {limits : Limits} {bytes : Bytes} {x : Except Status Tables} {c : Cursor UInt8}
    (h : loadOutcome limits bytes = .done (x, c)) : loadTablesWithin limits bytes = x := by
  have hGet := (Outcome.done_get _ (Loader.loadOutcome_done limits bytes)).trans h
  exact congrArg Prod.fst (Outcome.done.inj hGet)

theorem loadTablesWithin_eq_ok_iff {limits : Limits} {bytes : Bytes} {t : Tables} :
    loadTablesWithin limits bytes = .ok t ↔ Reads (Loader.tables limits) t bytes := by
  obtain ⟨x, used, more, hBytes, hExec, hReads, hDone⟩ := Loader.exec_whole limits bytes
  rw [loadTablesWithin_eq hDone]
  constructor
  · intro h
    cases x with
    | error status => cases h
    | ok t' =>
      cases more with
      | nil =>
        cases h
        rw [hBytes, List.append_nil]
        exact hReads t rfl
      | cons byte more => cases h
  · intro h
    have hAlone : exec (Loader.tables limits) ⟨bytes ++ [], 0⟩ = .done (x, ⟨bytes, used.length⟩) := by
      rw [List.append_nil, hExec]
    obtain ⟨rfl, hCursor⟩ := h.unique hAlone
    have hLength : used.length = bytes.length := congrArg Cursor.pos hCursor
    have hMore : more = [] := by
      rw [hBytes, List.length_append] at hLength
      exact List.eq_nil_of_length_eq_zero (by omega)
    exact if_pos hMore

theorem Storable.load_serialize {limits : Limits} {t : Tables} (h : Storable limits t) :
    loadTablesWithin limits (serializeTables t) = .ok t := loadTablesWithin_eq_ok_iff.mpr (Loader.reads_tables h)

theorem storable_of_load {limits : Limits} {bytes : Bytes} {t : Tables} (h : loadTablesWithin limits bytes = .ok t) :
    Storable limits t := by
  have hExec := loadTablesWithin_eq_ok_iff.mp h [] []
  exact Loader.yields_tables limits _ _ _ hExec

theorem malformed_of_load {limits : Limits} {bytes : Bytes} {status : Status}
    (h : loadTablesWithin limits bytes = .error status) : Loader.Malformed status := by
  obtain ⟨⟨x, c⟩, hDone⟩ := Loader.loadOutcome_done limits bytes
  rw [loadTablesWithin_eq hDone] at h
  exact (Loader.ensures_whole limits _ _ _ hDone).2 status h

theorem storable_empty (limits : Limits) : Storable limits OrderedMap.empty :=
  ⟨Nat.zero_le _, fun _ hEntry => by cases hEntry⟩

/-- Wider limits accept what narrower ones do, with the same result. -/
theorem loadTablesWithin_mono {limits : Limits} (wide : Limits) (hTables : limits.tables ≤ wide.tables)
    (hColumns : limits.columns ≤ wide.columns) (hRows : limits.rows ≤ wide.rows) {bytes : Bytes} {t : Tables}
    (h : loadTablesWithin limits bytes = .ok t) : loadTablesWithin wide bytes = .ok t := by
  rw [loadTablesWithin_eq_ok_iff] at h ⊢
  intro pre more
  exact Loader.implies_tables hTables hColumns hRows _ _ _ (h pre more)

/-- Every count that 32 bits hold. -/
def Limits.representable : Limits := ⟨4294967295, 4294967295, 4294967295⟩

/-- When no count was truncated, a snapshot that loads gives back what was saved. -/
theorem Storable.eq_of_load_serialize {t t' : Tables} (h : Storable .representable t)
    (hLoad : loadTablesBytes (serializeTables t) = .ok t') : t' = t := by
  have hWide := loadTablesWithin_mono .representable (by decide) (by decide) (by decide) hLoad
  rw [h.load_serialize] at hWide
  exact (Except.ok.inj hWide).symm

/-- Saving and loading restores exactly the maps within the limits, and only such maps are ever loaded. -/
theorem snapshot_roundTrip :
    (∀ t, Storable .loader t → loadTablesBytes (serializeTables t) = .ok t) ∧
      ∀ bytes t, loadTablesBytes bytes = .ok t →
        Storable .loader t ∧ loadTablesBytes (serializeTables t) = .ok t := by
  refine ⟨fun t h => h.load_serialize, fun bytes t h => ?_⟩
  have hStorable := storable_of_load h
  exact ⟨hStorable, hStorable.load_serialize⟩

/-! ## Prefix freedom and bounds -/

def Accepted (bytes : Bytes) : Prop := ∃ t, loadTablesBytes bytes = .ok t

theorem eq_of_accepted_extension {bytes bytes' : Bytes} (h : Accepted bytes) (h' : Accepted bytes')
    (hPrefix : bytes <+: bytes') : bytes = bytes' := by
  obtain ⟨t, h⟩ := h
  obtain ⟨t', h'⟩ := h'
  obtain ⟨more, rfl⟩ := hPrefix
  have hShort := loadTablesWithin_eq_ok_iff.mp h
  have hLong := loadTablesWithin_eq_ok_iff.mp h' [] []
  simp only [List.nil_append, List.append_nil, List.length_nil, Nat.zero_add] at hLong
  obtain ⟨-, hCursor⟩ := hShort.unique hLong
  have hLength : (bytes ++ more).length = bytes.length := congrArg Cursor.pos hCursor
  rw [List.length_append] at hLength
  rw [List.eq_nil_of_length_eq_zero (show more.length = 0 by omega), List.append_nil]

namespace Reader

inductive Method where
  | u8
  | u32
  | u64
  | string
  | valueData
  | done
  deriving DecidableEq, Repr

/-- The reader's state after a method was called, whatever it returned. -/
def Method.call : Method → Cursor UInt8 → Outcome (Cursor UInt8)
  | u8, c => Prod.snd <$> exec Reader.u8 c
  | u32, c => Prod.snd <$> exec Reader.u32 c
  | u64, c => Prod.snd <$> exec Reader.u64 c
  | string, c => Prod.snd <$> exec Reader.string c
  | valueData, c => Prod.snd <$> exec Reader.valueData c
  | done, c => Prod.snd <$> exec (Reader.done : Reader Bool) c

/-- The states of a reader over `data` after any sequence of calls. -/
inductive Reachable (data : Bytes) : Cursor UInt8 → Prop where
  | start : Reachable data ⟨data, 0⟩
  | call {c c' : Cursor UInt8} (method : Method) (h : Reachable data c) (hCall : method.call c = .done c') :
      Reachable data c'

theorem scans_call {α : Type} {reader : Reader α} (h : Scans reader) {c : Cursor UInt8} (hc : c.pos ≤ c.data.length) :
    ∃ c', Prod.snd <$> exec reader c = .done c' ∧ c'.data = c.data ∧ c.pos ≤ c'.pos ∧ c'.pos ≤ c'.data.length := by
  obtain ⟨x, c', hExec, hBounds⟩ := h.inside hc
  exact ⟨c', by rw [hExec]; rfl, hBounds⟩

theorem Method.call_inside (method : Method) {c : Cursor UInt8} (hc : c.pos ≤ c.data.length) :
    ∃ c', method.call c = .done c' ∧ c'.data = c.data ∧ c.pos ≤ c'.pos ∧ c'.pos ≤ c'.data.length := by
  cases method with
  | u8 => exact scans_call scans_u8 hc
  | u32 => exact scans_call scans_u32 hc
  | u64 => exact scans_call scans_u64 hc
  | string => exact scans_call scans_counted hc
  | valueData => exact scans_call scans_valueData hc
  | done => exact ⟨c, rfl, rfl, Nat.le_refl _, hc⟩

theorem Reachable.inside {data : Bytes} {c : Cursor UInt8} (h : Reachable data c) :
    c.data = data ∧ c.pos ≤ c.data.length := by
  induction h with
  | start => exact ⟨rfl, Nat.zero_le _⟩
  | call method _ hCall ih =>
    obtain ⟨mid, hMid, hData, -, hPos⟩ := method.call_inside ih.2
    rw [hCall] at hMid
    cases hMid
    exact ⟨hData.trans ih.1, hPos⟩

end Reader

/-- No accepted string extends another, and from no string does the reader leave its bounds: whatever methods are
called and throughout the load, the position stays inside and every read and subtraction is defined. -/
theorem snapshot_prefixFree_bounded :
    (∀ bytes, Accepted bytes →
      (∀ bytes', bytes' <+: bytes → bytes' ≠ bytes → ¬ Accepted bytes') ∧
        ∀ bytes', bytes <+: bytes' → bytes' ≠ bytes → ¬ Accepted bytes') ∧
      (∀ data c, Reader.Reachable data c → c.data = data ∧ c.pos ≤ data.length ∧
        ∀ method : Reader.Method, ∃ c', method.call c = .done c') ∧
      ∀ data, ∃ x c, loadOutcome .loader data = .done (x, c) ∧ c.data = data ∧ c.pos ≤ data.length := by
  refine ⟨fun bytes h => ⟨?_, ?_⟩, ?_, ?_⟩
  · intro bytes' hPrefix hNe h'
    exact hNe (eq_of_accepted_extension h' h hPrefix)
  · intro bytes' hPrefix hNe h'
    exact hNe (eq_of_accepted_extension h h' hPrefix).symm
  · intro data c h
    obtain ⟨rfl, hPos⟩ := h.inside
    refine ⟨rfl, hPos, fun method => ?_⟩
    obtain ⟨c', hCall, -⟩ := method.call_inside hPos
    exact ⟨c', hCall⟩
  · intro data
    obtain ⟨x, used, more, hBytes, -, -, hDone⟩ := Loader.exec_whole .loader data
    refine ⟨_, ⟨data, used.length⟩, hDone, rfl, ?_⟩
    rw [hBytes, List.length_append]
    exact Nat.le_add_right _ _

end TupleStone
