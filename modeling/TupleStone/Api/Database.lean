import TupleStone.Api.SnapshotCodec
import TupleStone.Wal.LogManager

/-! # The database object and its files

A commit appends a snapshot of all tables to the log and then replaces the data file; opening loads the data file
and replays the committed snapshots of the log. Every method is a program over the three files of a database.
-/

set_option autoImplicit false

namespace TupleStone

structure Options where
  createIfMissing : Bool := true
  syncOnCommit : Bool := true
  deriving DecidableEq, Repr

/-- `Database::Impl` -/
structure Database where
  options : Options
  tables : Tables := OrderedMap.empty
  wal : LogManager := {}
  nextWalTxn : UInt64 := 1
  generation : UInt64 := 0
  closed : Bool := false

/-- Writes the temporary file and renames it. The platform's text that ends the last message is left out. -/
def saveTables (tables : Tables) : Io Status := do
  let bytes := serializeTables tables
  if ← Files.create .temp then
    if ← Files.write .temp bytes then
      let _ ← Files.flush .temp
      let _ ← Files.close .temp
      if ← Files.rename .temp .data then pure .ok
      else
        let _ ← Files.remove .data
        if ← Files.rename .temp .data then pure .ok
        else pure (.ioError (ascii "cannot replace database file: "))
    else
      -- the stream is closed when it goes out of scope
      let _ ← Files.close .temp
      pure (.ioError (ascii "cannot write database file"))
  else pure (.ioError (ascii "cannot create database file"))

def loadTables : Io (Except Status Tables) := do
  match ← Files.read .data with
  | none => pure (.error (.notFound (ascii "database file does not exist")))
  | some bytes => pure (loadTablesBytes bytes)

/-! ## Commit records -/

def kSnapshotPrefix : Bytes := ascii "TUPLESTONE-SNAPSHOT-1\n"

def snapshotPayload (tables : Tables) : Bytes := kSnapshotPrefix ++ serializeTables tables

/-- Appends begin, update and commit; the last LSN on success. -/
def appendCommit (log : LogManager) (txnId : UInt64) (payload : Bytes) : Io (Except Status UInt64 × LogManager) := do
  match ← log.append txnId kInvalidLsn .kBegin [] with
  | (.error status, log) => pure (.error status, log)
  | (.ok begin, log) =>
    match ← log.append txnId begin .kUpdate payload with
    | (.error status, log) => pure (.error status, log)
    | (.ok update, log) => log.append txnId update .kCommit []

def persistCommittedTables (db : Database) (tables : Tables) : Io (Status × Database) := do
  let txnId := db.nextWalTxn
  let db := { db with nextWalTxn := db.nextWalTxn + 1 }
  let (appended, wal) ← appendCommit db.wal txnId (snapshotPayload tables)
  let db := { db with wal := wal }
  match appended with
  | .error status => pure (status, db)
  | .ok commit =>
    let (flushed, wal) ← if db.options.syncOnCommit then db.wal.flush commit else pure (.ok, db.wal)
    let db := { db with wal := wal }
    if flushed = .ok then
      let saved ← saveTables tables
      pure (saved, db)
    else pure (flushed, db)

/-! ## Recovery -/

/-- The variables of the loop over the log records. -/
structure Replay where
  tables : Tables
  snapshots : OrderedMap Nat Bytes := OrderedMap.empty
  largestTxn : UInt64 := 0
  recovered : Bool := false

def invalidSnapshot (status : Status) : Status :=
  .corruption (ascii "committed WAL snapshot is invalid: " ++ status.message)

/-- One iteration; on an invalid snapshot the tables reached so far stay in the database. -/
def Replay.step (state : Replay) (record : LogRecord) : Except (Status × Tables) Replay :=
  let state := { state with largestTxn := max state.largestTxn record.txnId }
  let txn := record.txnId.toNat
  if record.type = LogRecordType.kUpdate.toByte ∧ kSnapshotPrefix.isPrefixOf record.payload then
    .ok { state with snapshots := state.snapshots.insert txn (record.payload.drop kSnapshotPrefix.length) }
  else if record.type = LogRecordType.kCommit.toByte then
    match state.snapshots.find? txn with
    | none => .ok state
    | some snapshot =>
      match loadTablesBytes snapshot with
      | .error status => .error (invalidSnapshot status, state.tables)
      | .ok committed =>
        .ok { state with tables := committed, recovered := true, snapshots := state.snapshots.erase txn }
  else .ok state

def Replay.run (state : Replay) (records : List LogRecord) : Except (Status × Tables) Replay :=
  records.foldlM Replay.step state

def recoverCommittedTables (db : Database) : Io (Status × Database) := do
  match ← db.wal.readAll with
  | .error status => pure (status, db)
  | .ok records =>
    match Replay.run { tables := db.tables } records with
    | .error (status, tables) => pure (status, { db with tables := tables })
    | .ok state =>
      let db := { db with tables := state.tables, nextWalTxn := max db.nextWalTxn (state.largestTxn + 1) }
      if state.recovered then
        let saved ← saveTables db.tables
        pure (saved, if saved = .ok then { db with generation := db.generation + 1 } else db)
      else pure (.ok, db)

/-! ## Database methods -/

def closeDatabase (db : Database) : Io (Status × Database) := do
  if db.closed then pure (.ok, db)
  else
    let saved ← saveTables db.tables
    let wal ← db.wal.close
    pure (saved, { db with wal := wal, closed := true })

/-- Loads the data file, or creates it when there is none. -/
def openData (options : Options) : Io (Status × Tables) := do
  match ← loadTables with
  | .ok tables => pure (.ok, tables)
  | .error (.error .kNotFound message) =>
    if options.createIfMissing then
      let saved ← saveTables OrderedMap.empty
      pure (saved, OrderedMap.empty)
    else pure (.notFound message, OrderedMap.empty)
  | .error status => pure (status, OrderedMap.empty)

/-- `Database::Open` up to its return: the status and the object built so far. -/
def openStages (options : Options) : Io (Status × Database) := do
  let (status, tables) ← openData options
  let db : Database := { options := options, tables := tables }
  if status ≠ .ok then pure (status, db)
  else
    let (status, wal) ← LogManager.openLog {}
    let db := { db with wal := wal }
    if status ≠ .ok then pure (status, db) else recoverCommittedTables db

/-- On an error return the object is destroyed, and its destructor closes it. -/
def openDatabase (options : Options) : Io (Except Status Database) := do
  let (status, db) ← openStages options
  if status = .ok then pure (.ok db)
  else
    let _ ← closeDatabase db
    pure (.error status)

def checkpoint (db : Database) : Io (Status × Database) := do
  if db.closed then pure (.invalidArgument (ascii "database is closed"), db)
  else
    let saved ← saveTables db.tables
    if saved = .ok then
      let (truncated, wal) ← db.wal.truncate
      pure (truncated, { db with wal := wal })
    else pure (saved, db)

end TupleStone
