import TupleStone.Lib.Platform
import TupleStone.Wal.LogFrames

/-! # The log manager on a platform

What each method returns and makes of the log's stream. Only the stream of the log changes; stable storage changes
only where the log is synchronised.
-/

set_option autoImplicit false

namespace TupleStone

namespace LogManager

open OpProgram FrameLog

variable {log : LogManager} {w : Files.World FileId} {stable : Files.Disk FileId} {faults : List Fault}

theorem append_closed (hOpen : log.isOpen = false) (txnId prevLsn : UInt64) (type : LogRecordType) (payload : Bytes) :
    log.append txnId prevLsn type payload = pure (.error (.ioError (ascii "WAL is not open")), log) := by
  rw [append, hOpen, if_pos (by decide)]

theorem append_large (hOpen : log.isOpen = true) (txnId prevLsn : UInt64) (type : LogRecordType) {payload : Bytes}
    (hPayload : maxPayload < payload.length) :
    log.append txnId prevLsn type payload = pure (.error (.outOfRange (ascii "WAL payload is too large")), log) := by
  rw [append, hOpen, if_neg (by decide), if_pos hPayload]

theorem run_append (hOpen : log.isOpen = true) (txnId prevLsn : UInt64) (type : LogRecordType) {payload : Bytes}
    (hPayload : payload.length ≤ maxPayload) (hFault : faults.headD .none = .none) :
    run Files.platform (log.append txnId prevLsn type payload) ⟨w, stable, faults⟩ =
      ((.ok log.nextLsn, { log with nextLsn := log.nextLsn + 1 }),
        ⟨Function.update w .wal ⟨(w .wal).content, (w .wal).buffer ++
          encodeRecord ⟨log.nextLsn, txnId, prevLsn, type.toByte, payload⟩⟩, stable, faults.tail⟩) := by
  rw [append, hOpen, if_neg (by decide), if_neg (Nat.not_lt.mpr hPayload)]
  exact Files.run_write hFault

/-- The log sequence number is consumed, and a part of the frame may be in the file. -/
theorem run_append_fails {kept : Nat} (hOpen : log.isOpen = true) (txnId prevLsn : UInt64) (type : LogRecordType)
    {payload : Bytes} (hPayload : payload.length ≤ maxPayload) (hFault : faults.headD .none = .fails kept) :
    run Files.platform (log.append txnId prevLsn type payload) ⟨w, stable, faults⟩ =
      ((.error (.ioError (ascii "cannot append WAL record")), { log with nextLsn := log.nextLsn + 1 }),
        ⟨Function.update w .wal ⟨(w .wal).content.map (· ++ (w .wal).buffer ++
          (encodeRecord ⟨log.nextLsn, txnId, prevLsn, type.toByte, payload⟩).take kept), []⟩, stable, faults.tail⟩) := by
  rw [append, hOpen, if_neg (by decide), if_neg (Nat.not_lt.mpr hPayload)]
  exact Files.run_write_fails hFault

theorem run_readAll (hPath : log.hasPath = true) {bytes : Bytes} (hContent : (w .wal).content = some bytes)
    (hFault : faults.headD .none = .none) : run Files.platform log.readAll ⟨w, stable, faults⟩ =
      (.ok (readRecords bytes), ⟨w, stable, faults.tail⟩) := by
  rw [readAll, if_pos hPath, readFile, Files.run_read hFault, hContent]
  rfl

/-- What the last step of a flush returns. -/
def syncStatus : Fault → Status
  | .none => .ok
  | .fails 0 => .ioError (ascii "cannot open WAL for sync")
  | .fails _ => .ioError (ascii "cannot sync WAL")

/-- Stable storage after the last step of a flush. -/
def syncedTo (sync : Fault) (stable : Files.Disk FileId) (content : Option Bytes) : Files.Disk FileId :=
  if sync = .none then Function.update stable .wal content else stable

theorem run_syncFile (sync : Fault) (hFault : faults.headD .none = sync) :
    run Files.platform syncFile ⟨w, stable, faults⟩ =
      (syncStatus sync, ⟨w, syncedTo sync stable (w .wal).content, faults.tail⟩) := by
  rw [syncFile]
  cases sync with
  | none =>
    rw [Files.run_sync hFault]
    rfl
  | fails kept =>
    rw [Files.run_sync_fails hFault]
    cases kept <;> rfl

theorem flushed_flushed (state : Files.FileState) : state.flushed.flushed = state.flushed := by
  obtain ⟨content, buffer⟩ := state
  cases content <;> simp [Files.FileState.flushed]

theorem run_flush (hOpen : log.isOpen = true) (through : UInt64) (sync : Fault) (hFault : faults.headD .none = .none)
    (hSync : faults.tail.headD .none = sync) : run Files.platform (log.flush through) ⟨w, stable, faults⟩ =
      ((syncStatus sync, { log with durableLsn := log.watermark through }),
        ⟨Function.update w .wal (w .wal).flushed, syncedTo sync stable (w .wal).flushed.content, faults.tail.tail⟩) := by
  rw [flush, hOpen, if_pos rfl, Files.run_flush hFault, if_pos rfl, run_bind, run_syncFile sync hSync,
    Function.update_self]
  rfl

theorem run_close (hOpen : log.isOpen = true) : run Files.platform log.close ⟨w, stable, []⟩ =
    ({ log with isOpen := false }, ⟨Function.update w .wal (w .wal).flushed, stable, []⟩) := by
  rw [close, hOpen, if_pos rfl, Files.run_flush rfl, Files.run_close rfl, Function.update_self, flushed_flushed,
    Function.update_idem]
  rfl

theorem run_openAppend (log : LogManager) (hFault : faults.headD .none = .none) :
    run Files.platform log.openAppend ⟨w, stable, faults⟩ = ((true, { log with isOpen := true }),
      ⟨Function.update w .wal ⟨some ((w .wal).content.getD []), (w .wal).buffer⟩, stable, faults.tail⟩) := by
  rw [openAppend, Files.run_openAppend hFault]
  rfl

theorem run_truncate (hOpen : log.isOpen = true) (sync : Fault) :
    run Files.platform log.truncate ⟨w, stable, [.none, .none, .none, .none, .none, sync]⟩ =
      ((syncStatus sync, { log with nextLsn := 1, durableLsn := 0 }),
        ⟨Function.update w .wal ⟨some [], []⟩, syncedTo sync stable (some []), []⟩) := by
  rw [truncate, hOpen, if_pos rfl, Files.run_flush rfl, Files.run_close rfl, Files.run_create rfl, if_pos rfl,
    Files.run_close rfl, run_bind, run_openAppend _ rfl]
  dsimp only [List.tail]
  rw [if_pos rfl, run_bind, run_syncFile sync rfl]
  simp [Files.FileState.flushed, ← hOpen]

theorem run_discardTail {bytes : Bytes} (hOpen : log.isOpen = true) (hWal : w .wal = ⟨some bytes, []⟩) (valid : Nat) :
    run Files.platform (log.discardTail valid) ⟨w, stable, []⟩ =
      ((.ok, log), ⟨Function.update w .wal ⟨some (bytes.take valid), []⟩, stable, []⟩) := by
  rw [discardTail, Files.run_fileSize rfl, hWal]
  dsimp only [Option.map_some, Option.any_some, List.tail]
  split
  · rename_i hShorter
    have hShorter := of_decide_eq_true hShorter
    rw [Files.run_close rfl, Files.run_resize rfl, if_pos rfl, run_bind, run_openAppend _ rfl]
    have hCut : bytes.take valid ++ List.replicate (valid - bytes.length) 0 = bytes.take valid := by
      rw [Nat.sub_eq_zero_of_le (Nat.le_of_lt hShorter), List.replicate_zero, List.append_nil]
    simp [hWal, Files.FileState.flushed, Files.resized, hCut, ← hOpen]
  · rename_i hWhole
    have hLength : bytes.length ≤ valid := by
      rw [decide_eq_true_eq] at hWhole
      exact Nat.not_lt.mp hWhole
    rw [List.take_of_length_le hLength, ← hWal, Function.update_eq_self]
    rfl

theorem isOpen_afterLast (log : LogManager) (records : List LogRecord) :
    (log.afterLast records).isOpen = log.isOpen := by
  rw [afterLast]
  split <;> rfl

theorem hasPath_afterLast (log : LogManager) (records : List LogRecord) :
    (log.afterLast records).hasPath = log.hasPath := by
  rw [afterLast]
  split <;> rfl

/-- Opening keeps the whole records at the front of the file. -/
theorem run_openLog {content : Option Bytes} (hClosed : log.isOpen = false) (hWal : w .wal = ⟨content, []⟩) :
    run Files.platform log.openLog ⟨w, stable, []⟩ =
      ((.ok, { log with isOpen := true, hasPath := true }.afterLast (readRecords (content.getD []))),
        ⟨Function.update w .wal ⟨some (wholePart (content.getD [])), []⟩, stable, []⟩) := by
  have hStream : run Files.platform log.openStream ⟨w, stable, []⟩ = ((.ok, { log with isOpen := true, hasPath := true }),
      ⟨Function.update w .wal ⟨some (content.getD []), []⟩, stable, []⟩) := by
    rw [openStream, run_bind, run_openAppend _ rfl, hWal]
    rfl
  have hRead : run Files.platform readFile ⟨Function.update w .wal ⟨some (content.getD []), []⟩, stable, []⟩ =
      (.ok (readRecords (content.getD [])), ⟨Function.update w .wal ⟨some (content.getD []), []⟩, stable, []⟩) := by
    rw [readFile, Files.run_read rfl, Function.update_self]
    rfl
  rw [openLog, hClosed, if_neg Bool.false_ne_true, run_bind, hStream]
  dsimp only
  rw [if_neg (not_not.mpr rfl), run_bind, hRead]
  dsimp only
  rw [run_bind, run_discardTail rfl (Function.update_self _ _ _)]
  simp [wholePart]

theorem openLog_opened (hOpen : log.isOpen = true) :
    log.openLog = pure (.alreadyExists (ascii "WAL is already open"), log) := by
  rw [openLog, hOpen, if_pos rfl]

end LogManager

end TupleStone
