import TupleStone.Api.Tables
import TupleStone.Lib.ByteDigits
import TupleStone.Lib.Cursor

/-! # The snapshot format

`Writer` lays out all tables as nested counted lists of little-endian fields, and `Reader` with the loader walks
the same lists back. Reading a byte past the end, or subtracting a position past the end, is left undefined here,
so a total result shows that neither happens.
-/

set_option autoImplicit false

namespace TupleStone

open ByteDigits (digits)

namespace Writer

def u8 (value : UInt8) : Bytes := [value]
def u32 (value : UInt32) : Bytes := digits 4 value.toNat
def u64 (value : UInt64) : Bytes := digits 8 value.toNat

def flag (value : Bool) : Bytes := u8 (if value then 1 else 0)

/-- A list's size cast to 32 bits. -/
def size (length : Nat) : Bytes := u32 (UInt32.ofNat length)

def string (value : Bytes) : Bytes := size value.length ++ value

def valueData (value : Value) : Bytes :=
  u8 value.type.toByte ++
    match value with
    | .null => []
    | .boolean b => flag b
    | .integer n => u64 n.toUInt64
    | .real x => u64 x.bits
    | .text s => string s
    | .blob b => size b.length ++ b

def column (column : Column) : Bytes :=
  string column.name ++ u8 column.type.toByte ++ flag column.nullable ++ flag column.primaryKey ++ flag column.unique

def row (row : Row) : Bytes := size row.length ++ row.flatMap valueData

def table (entry : Bytes × Table) : Bytes :=
  string entry.1 ++ (size entry.2.schema.size ++ entry.2.schema.columns.flatMap column) ++
    (size entry.2.rows.length ++ entry.2.rows.flatMap row)

end Writer

def snapshotMagic : Bytes := ascii "TUPLESTONE-DATA-2"

def serializeTables (tables : Tables) : Bytes :=
  Writer.string snapshotMagic ++ (Writer.size tables.size ++ tables.entries.flatMap Writer.table)

/-! ## Reader -/

/-- The methods that return `false` on failure. -/
abbrev Reader := CursorM UInt8 Unit

namespace Reader

def u8 : Reader UInt8 := fun c =>
  if c.data.length ≤ c.pos then .done (.error (), c)
  else
    match c.data[c.pos]? with
    | some byte => .done (.ok byte, ⟨c.data, c.pos + 1⟩)
    | none => .undefined

/-- The loop of `U32` and `U64` from byte `i` on. -/
def readInto (value i : Nat) : Nat → Reader Nat
  | 0 => pure value
  | n + 1 => do
    let byte ← u8
    readInto (value ||| byte.toNat <<< (i * 8)) (i + 1) n

def u32 : Reader UInt32 := do
  let value ← readInto 0 0 4
  pure (UInt32.ofNat value)

def u64 : Reader UInt64 := do
  let value ← readInto 0 0 8
  pure (UInt64.ofNat value)

/-- `data_.size() - pos_`, which is meant not to wrap. -/
def remaining : Reader Nat := fun c =>
  if c.data.length < c.pos then .undefined else .done (.ok (c.data.length - c.pos), c)

/-- Copies `size` bytes and moves past them. -/
def copy (size : Nat) : Reader Bytes := fun c =>
  if c.data.length < c.pos + size then .undefined
  else .done (.ok ((c.data.drop c.pos).take size), ⟨c.data, c.pos + size⟩)

def sized (size : Nat) : Reader Bytes := do
  let available ← remaining
  if available < size then throw () else copy size

def string : Reader Bytes := do
  let size ← u32
  sized size.toNat

def valueData : Reader Value := do
  let tag ← u8
  match TypeId.ofByte? tag with
  | some .kNull => pure .null
  | some .kBoolean => do
    let b ← u8
    if 1 < b then throw () else pure (.boolean (b != 0))
  | some .kInteger => do
    let n ← u64
    pure (.integer n.toInt64)
  | some .kReal => do
    let bits ← u64
    pure (.real ⟨bits⟩)
  | some .kText => do
    let s ← string
    pure (.text s)
  | some .kBlob => do
    let size ← u32
    let b ← sized size.toNat
    pure (.blob b)
  | none => throw ()

def done {ε : Type} : CursorM UInt8 ε Bool := fun c => .done (.ok (c.pos == c.data.length), c)

end Reader

/-! ## The loader -/

structure Limits where
  tables : UInt32
  columns : UInt32
  rows : UInt32

def Limits.loader : Limits := ⟨100000, 10000, 100000000⟩

abbrev Loader := CursorM UInt8 Status

namespace Loader

open Status

/-- A read whose failure ends the load with `status`. -/
def required {α : Type} (reader : Reader α) (status : Status) : Loader α := reader.mapError (fun _ => status)

def column : Loader Column := do
  let truncated := corruption (ascii "truncated schema")
  let name ← required Reader.string truncated
  let tag ← required Reader.u8 truncated
  let nullable ← required Reader.u8 truncated
  let primary ← required Reader.u8 truncated
  let unique ← required Reader.u8 truncated
  match TypeId.ofByte? tag with
  | none => throw (corruption (ascii "invalid column type"))
  | some .kNull => throw (corruption (ascii "invalid column type"))
  | some type => pure ⟨name, type, nullable != 0, primary != 0, unique != 0⟩

def row (schema : Schema) : Loader Row := do
  let invalid := corruption (ascii "invalid row width")
  let width ← required Reader.u32 invalid
  if width.toNat ≠ schema.size then throw invalid
  else CursorM.times (required Reader.valueData (corruption (ascii "truncated row"))) width.toNat

def table (limits : Limits) : Loader (Bytes × Table) := do
  let invalid := corruption (ascii "invalid schema")
  let name ← required Reader.string invalid
  let columnCount ← required Reader.u32 invalid
  if limits.columns < columnCount then throw invalid
  else do
    let columns ← CursorM.times column columnCount.toNat
    let rowCount ← required Reader.u32 (corruption (ascii "invalid row count"))
    if limits.rows < rowCount then throw (corruption (ascii "invalid row count"))
    else do
      let rows ← CursorM.times (row ⟨columns⟩) rowCount.toNat
      pure (lower name, ⟨⟨columns⟩, rows⟩)

/-- Everything up to the check that no byte is left. -/
def tables (limits : Limits) : Loader Tables := do
  let unsupported := incompatible (ascii "unsupported database format")
  let magic ← required Reader.string unsupported
  if magic ≠ snapshotMagic then throw unsupported
  else do
    let tableCount ← required Reader.u32 (corruption (ascii "invalid table count"))
    if limits.tables < tableCount then throw (corruption (ascii "invalid table count"))
    else do
      let entries ← CursorM.times (table limits) tableCount.toNat
      pure (entries.foldl (fun result entry => result.emplace entry.1 entry.2) OrderedMap.empty)

def whole (limits : Limits) : Loader Tables := do
  let result ← tables limits
  let done ← Reader.done
  if done then pure result
  else throw (corruption (ascii "trailing database bytes"))

end Loader

def loadOutcome (limits : Limits) (bytes : Bytes) : Outcome (Except Status Tables × Cursor UInt8) :=
  Attempt.exec (Loader.whole limits) ⟨bytes, 0⟩

end TupleStone
