import TupleStone.Common.Crc32c
import TupleStone.Common.Status
import TupleStone.Lib.ByteDigits
import TupleStone.Lib.Files
import TupleStone.Lib.FrameLog

/-! # The write-ahead log

Records are framed by their length and a checksum. The log manager appends frames through a buffered stream, and
on opening discards what follows the last complete frame.
-/

set_option autoImplicit false

namespace TupleStone

open ByteDigits (digits)

inductive LogRecordType where
  | kBegin
  | kCommit
  | kAbort
  | kInsert
  | kUpdate
  | kDelete
  | kNewPage
  | kClr
  | kCheckpointBegin
  | kCheckpointEnd
  deriving DecidableEq, Repr

def LogRecordType.toByte : LogRecordType → UInt8
  | kBegin => 1
  | kCommit => 2
  | kAbort => 3
  | kInsert => 4
  | kUpdate => 5
  | kDelete => 6
  | kNewPage => 7
  | kClr => 8
  | kCheckpointBegin => 9
  | kCheckpointEnd => 10

/-- A record read back may have any type byte. -/
structure LogRecord where
  lsn : UInt64
  txnId : UInt64
  prevLsn : UInt64
  type : UInt8
  payload : Bytes
  deriving DecidableEq, Repr

def kInvalidLsn : UInt64 := 0

/-! ## Frames -/

def maxRecordLength : Nat := 2 ^ 30

def recordFields (record : LogRecord) : Bytes :=
  digits 8 record.lsn.toNat ++ (digits 8 record.txnId.toNat ++
    (digits 8 record.prevLsn.toNat ++ (record.type :: record.payload)))

/-- The length and the fields: what the checksum covers. -/
def recordBody (record : LogRecord) : Bytes := digits 4 (25 + record.payload.length) ++ recordFields record

def encodeRecord (record : LogRecord) : Bytes :=
  recordBody record ++ digits 4 (crc32c (recordBody record)).toNat

/-- The little-endian word of `n` bytes at `offset`. -/
def wordAt (n offset : Nat) (bytes : Bytes) : Nat := ByteDigits.join 0 0 ((bytes.drop offset).take n)

/-- The record whose length field is `header` and whose other bytes, checksum included, are `body`. -/
def decodeRecord (header body : Bytes) (length : Nat) : Option LogRecord :=
  if body.length ≠ length + 4 then none
  else if (crc32c (header ++ body.take length)).toNat ≠ wordAt 4 length body then none
  else
    match body[24]? with
    | none => none
    | some type =>
      some ⟨UInt64.ofNat (wordAt 8 0 body), UInt64.ofNat (wordAt 8 8 body), UInt64.ofNat (wordAt 8 16 body), type,
        (body.drop 25).take (length - 25)⟩

/-- One iteration of `ReadRecords`: the record at the front and the bytes of its frame. -/
def nextRecord (bytes : Bytes) : Option (LogRecord × Nat) :=
  if bytes.length < 4 then none
  else
    let length := wordAt 4 0 bytes
    if length < 25 ∨ maxRecordLength < length then none
    else
      (decodeRecord (bytes.take 4) ((bytes.drop 4).take (length + 4)) length).map (fun record => (record, 4 + (length + 4)))

def readRecords (bytes : Bytes) : List LogRecord := FrameLog.records nextRecord bytes

def validBytes (records : List LogRecord) : Nat := (records.map (fun record => 33 + record.payload.length)).sum

/-! ## The log manager -/

inductive FileId where
  | data
  | temp
  | wal
  deriving DecidableEq, Repr

abbrev Io (α : Type) := Files.Program FileId α

/-- `file_.is_open()`, the counter and the watermark of log sequence numbers, and whether `path_` is set. -/
structure LogManager where
  isOpen : Bool := false
  nextLsn : UInt64 := 1
  durableLsn : UInt64 := 0
  hasPath : Bool := false
  deriving DecidableEq, Repr

namespace LogManager

def openAppend (log : LogManager) : Io (Bool × LogManager) := do
  let opened ← Files.openAppend .wal
  pure (opened, { log with isOpen := opened })

/-- Opens the stream, creating the file when that fails at first. -/
def openStream (log : LogManager) : Io (Status × LogManager) := do
  let (opened, log) ← openAppend { log with hasPath := true }
  if opened then pure (.ok, log)
  else
    let created ← Files.create .wal
    if created then
      let _ ← Files.close .wal
      let (opened, log) ← openAppend log
      pure (if opened then .ok else .ioError (ascii "cannot open WAL"), log)
    else pure (.ioError (ascii "cannot create WAL"), log)

def readFile : Io (Except Status (List LogRecord)) := do
  match ← Files.read .wal with
  | none => pure (.error (.ioError (ascii "cannot read WAL")))
  | some bytes => pure (.ok (readRecords bytes))

def readAll (log : LogManager) : Io (Except Status (List LogRecord)) :=
  if log.hasPath then readFile else pure (.error (.ioError (ascii "WAL has not been opened")))

/-- Cuts the file after its last complete frame. -/
def discardTail (log : LogManager) (valid : Nat) : Io (Status × LogManager) := do
  let size ← Files.fileSize .wal
  if size.any (fun size => valid < size) then
    let _ ← Files.close .wal
    let log := { log with isOpen := false }
    let resized ← Files.resize .wal valid
    if resized then
      let (opened, log) ← openAppend log
      pure (if opened then .ok else .ioError (ascii "cannot reopen WAL after tail recovery"), log)
    else pure (.ioError (ascii "cannot discard torn WAL tail"), log)
  else pure (.ok, log)

def afterLast (log : LogManager) (records : List LogRecord) : LogManager :=
  match records.getLast? with
  | none => log
  | some last => { log with nextLsn := last.lsn + 1, durableLsn := last.lsn }

def openLog (log : LogManager) : Io (Status × LogManager) := do
  if log.isOpen then pure (.alreadyExists (ascii "WAL is already open"), log)
  else
    let (status, log) ← openStream log
    if status ≠ .ok then pure (status, log)
    else
      match ← readFile with
      | .error status => pure (status, log)
      | .ok records =>
        let (status, log) ← discardTail log (validBytes records)
        pure (status, if status = .ok then log.afterLast records else log)

def close (log : LogManager) : Io LogManager := do
  if log.isOpen then
    let _ ← Files.flush .wal
    let _ ← Files.close .wal
    pure { log with isOpen := false }
  else pure log

def maxPayload : Nat := 2 ^ 30 - 25

def append (log : LogManager) (txnId prevLsn : UInt64) (type : LogRecordType) (payload : Bytes) :
    Io (Except Status UInt64 × LogManager) := do
  if !log.isOpen then pure (.error (.ioError (ascii "WAL is not open")), log)
  else if maxPayload < payload.length then pure (.error (.outOfRange (ascii "WAL payload is too large")), log)
  else
    let lsn := log.nextLsn
    let log := { log with nextLsn := log.nextLsn + 1 }
    let written ← Files.write .wal (encodeRecord ⟨lsn, txnId, prevLsn, type.toByte, payload⟩)
    if written then pure (.ok lsn, log) else pure (.error (.ioError (ascii "cannot append WAL record")), log)

def syncFile : Io Status := do
  match ← Files.sync .wal with
  | none => pure (.ioError (ascii "cannot open WAL for sync"))
  | some false => pure (.ioError (ascii "cannot sync WAL"))
  | some true => pure .ok

def watermark (log : LogManager) (through : UInt64) : UInt64 :=
  if through = kInvalidLsn then log.nextLsn - 1 else through

/-- The watermark moves before the file is synchronised. -/
def flush (log : LogManager) (through : UInt64) : Io (Status × LogManager) := do
  if log.isOpen then
    let flushed ← Files.flush .wal
    if flushed then
      let log := { log with durableLsn := log.watermark through }
      let status ← syncFile
      pure (status, log)
    else pure (.ioError (ascii "cannot flush WAL"), log)
  else pure (.ioError (ascii "WAL is not open"), log)

def truncate (log : LogManager) : Io (Status × LogManager) := do
  if log.isOpen then
    let _ ← Files.flush .wal
    let _ ← Files.close .wal
    let log := { log with isOpen := false }
    let truncated ← Files.create .wal
    if truncated then
      let _ ← Files.close .wal
      let (opened, log) ← openAppend log
      if opened then
        let status ← syncFile
        pure (status, { log with nextLsn := 1, durableLsn := 0 })
      else pure (.ioError (ascii "cannot reopen WAL after truncate"), log)
    else pure (.ioError (ascii "cannot truncate WAL"), log)
  else pure (.ioError (ascii "WAL is not open"), log)

end LogManager

end TupleStone
