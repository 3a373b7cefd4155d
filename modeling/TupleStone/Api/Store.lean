import TupleStone.Api.Database
import TupleStone.Wal.LogRuns

/-! # The stored state of a database

What the files of a database mean: the data file's bytes, and the records of the log, of which some may still be in
the stream's buffer. Each file program is one change of this state, and a kill keeps the data file and an initial
part of the buffered records.
-/

set_option autoImplicit false

namespace TupleStone

open FrameLog OpProgram

structure Store where
  data : Option Bytes
  durable : List LogRecord
  pending : List LogRecord := []

/-- The log file with its stream: absent, not yet opened with a torn end, or open. -/
inductive HoldsLog : Files.FileState → List LogRecord → List LogRecord → Prop where
  | missing : HoldsLog ⟨none, []⟩ [] []
  | torn {clean tail : Bytes} {durable : List LogRecord} (hClean : Frames nextRecord clean durable)
      (hTail : nextRecord tail = none) : HoldsLog ⟨some (clean ++ tail), []⟩ durable []
  | whole {content buffer : Bytes} {durable pending : List LogRecord} (hContent : Frames nextRecord content durable)
      (hBuffer : Frames nextRecord buffer pending) : HoldsLog ⟨some content, buffer⟩ durable pending

structure Represents (w : Files.World FileId) (s : Store) : Prop where
  data : w .data = ⟨s.data, []⟩
  log : HoldsLog (w .wal) s.durable s.pending

/-- The records a process reads from a disk. -/
def diskRecords (d : Files.Disk FileId) : List LogRecord := readRecords ((d .wal).getD [])

theorem represents_ofDisk (d : Files.Disk FileId) : Represents (Files.ofDisk d) ⟨d .data, diskRecords d, []⟩ := by
  refine ⟨rfl, ?_⟩
  cases h : d .wal with
  | none =>
    have hState : Files.ofDisk d .wal = ⟨none, []⟩ := by rw [Files.ofDisk, h]
    have hRecords : diskRecords d = [] := by rw [diskRecords, h]; rfl
    rw [hState, hRecords]
    exact .missing
  | some bytes =>
    obtain ⟨clean, tail, hSplit, hTail, hClean⟩ := exists_frames nextRecord_lawful bytes
    have hState : Files.ofDisk d .wal = ⟨some (clean ++ tail), []⟩ := by rw [Files.ofDisk, h, hSplit]
    have hRecords : diskRecords d = records nextRecord bytes := by rw [diskRecords, h]; rfl
    rw [hState, hRecords]
    exact .torn hClean hTail

/-- What a kill leaves. -/
theorem Represents.survives {w : Files.World FileId} {s : Store} (h : Represents w s) {d : Files.Disk FileId}
    (hd : Files.Survives w d) : d .data = s.data ∧ ∃ k, diskRecords d = s.durable ++ s.pending.take k := by
  obtain ⟨data, durable, pending⟩ := s
  constructor
  · have hBuffer : (w .data).buffer = [] := by rw [h.data]
    rw [hd.of_buffer_nil hBuffer, h.data]
  · have hLog : HoldsLog (w .wal) durable pending := h.log
    have hWal := hd .wal
    generalize w .wal = state at hLog hWal
    cases hLog with
    | missing =>
      refine ⟨0, ?_⟩
      rw [diskRecords, show d .wal = none from hWal]
      rfl
    | torn hClean hTail =>
      obtain ⟨kept, hKept, hBytes⟩ := hWal
      rw [List.prefix_nil.mp hKept, List.append_nil] at hBytes
      refine ⟨0, ?_⟩
      rw [diskRecords, hBytes, List.take_zero, List.append_nil]
      exact hClean.records_append hTail
    | whole hContent hBuffer =>
      obtain ⟨kept, hKept, hBytes⟩ := hWal
      obtain ⟨k, whole, tail, rfl, hWhole, hTail⟩ := hBuffer.records_cut nextRecord_lawful hKept
      refine ⟨k, ?_⟩
      rw [diskRecords, hBytes, Option.getD_some, ← List.append_assoc]
      exact (hContent.append hWhole).records_append hTail

/-! ## Programs as changes of the store -/

/-- The visited world represents a store that satisfies `K`. -/
def Kept (K : Store → Prop) (w : Files.World FileId) : Prop := ∃ s, Represents w s ∧ K s

variable {K : Store → Prop} {w : Files.World FileId} {s : Store}

theorem Represents.update_temp (h : Represents w s) (state : Files.FileState) :
    Represents (Function.update w .temp state) s := by
  refine ⟨?_, ?_⟩
  · rw [Function.update_of_ne (by decide), h.data]
  · rw [Function.update_of_ne (by decide)]
    exact h.log

theorem Represents.update_data (h : Represents w s) (bytes : Bytes) :
    Represents (Function.update w .data ⟨some bytes, []⟩) { s with data := some bytes } := by
  refine ⟨by rw [Function.update_self], ?_⟩
  rw [Function.update_of_ne (by decide)]
  exact h.log

def Store.save (s : Store) (tables : Tables) : Store := { s with data := some (serializeTables tables) }

theorem safe_saveTables (h : Represents w s) (tables : Tables) (hBefore : K s) (hAfter : K (s.save tables)) :
    Safe Files.handler (Kept K) (saveTables tables) w (fun status w' =>
      status = .ok ∧ Represents w' (s.save tables) ∧ w' .wal = w .wal) := by
  have hTemp : ∀ {w'}, Represents w' s → Kept K w' := fun h' => ⟨s, h', hBefore⟩
  have hCreated := h.update_temp ⟨some [], []⟩
  refine Files.safe_create (hTemp h) (Files.safe_write (hTemp hCreated) ?_)
  have hWritten := hCreated.update_temp ⟨some [], serializeTables tables⟩
  simp only [Function.update_self, List.nil_append]
  refine Files.safe_flush (hTemp hWritten) (Files.safe_close (hTemp (hWritten.update_temp _)) ?_)
  have hClosed := (hWritten.update_temp ⟨some (serializeTables tables), []⟩).update_temp ⟨some (serializeTables tables), []⟩
  simp only [Function.update_self, Files.FileState.flushed, Option.map_some, List.nil_append, List.append_nil]
  refine Files.safe_rename (by rw [Function.update_self]) (hTemp hClosed) ?_
  have hSaved := (hClosed.update_temp ⟨none, []⟩).update_data (serializeTables tables)
  refine Safe.ret ⟨_, hSaved, hAfter⟩ ⟨rfl, hSaved, ?_⟩
  simp only [Function.update_of_ne (show FileId.wal ≠ .data by decide), Function.update_of_ne (show FileId.wal ≠ .temp by decide)]

/-! ## The open log -/

/-- The log's stream is open: what was written is whole frames. -/
structure Opened (w : Files.World FileId) (s : Store) : Prop where
  data : w .data = ⟨s.data, []⟩
  log : ∃ content buffer, w .wal = ⟨some content, buffer⟩ ∧ Frames nextRecord content s.durable ∧
    Frames nextRecord buffer s.pending

theorem Opened.represents (h : Opened w s) : Represents w s := by
  obtain ⟨content, buffer, hWal, hContent, hBuffer⟩ := h.log
  exact ⟨h.data, hWal ▸ .whole hContent hBuffer⟩

theorem Opened.of_represents {w' : Files.World FileId} {s' : Store} (h : Opened w s) (h' : Represents w' s')
    (hWal : w' .wal = w .wal) (hDurable : s'.durable = s.durable) (hPending : s'.pending = s.pending) : Opened w' s' := by
  refine ⟨h'.data, ?_⟩
  rw [hWal, hDurable, hPending]
  exact h.log

/-- Saving leaves the log alone. -/
theorem Opened.safe_saveTables (h : Opened w s) (tables : Tables) (hBefore : K s) (hAfter : K (s.save tables)) :
    Safe Files.handler (Kept K) (saveTables tables) w (fun status w' => status = .ok ∧ Opened w' (s.save tables)) := by
  refine (TupleStone.safe_saveTables h.represents tables hBefore hAfter).weaken (fun _ h => h) ?_
  rintro status w' ⟨hStatus, hSaved, hWal⟩
  exact ⟨hStatus, h.of_represents hSaved hWal rfl rfl⟩

def Store.push (s : Store) (record : LogRecord) : Store := { s with pending := s.pending ++ [record] }

def Store.flush (s : Store) : Store := ⟨s.data, s.durable ++ s.pending, []⟩

theorem Opened.update_write (h : Opened w s) (record : LogRecord) (hPayload : record.payload.length ≤ LogManager.maxPayload) :
    Opened (Function.update w .wal ⟨(w .wal).content, (w .wal).buffer ++ encodeRecord record⟩) (s.push record) := by
  obtain ⟨content, buffer, hWal, hContent, hBuffer⟩ := h.log
  refine ⟨by rw [Function.update_of_ne (by decide), h.data]; rfl, content, buffer ++ encodeRecord record, ?_, hContent, ?_⟩
  · rw [Function.update_self, hWal]
  · have hFrame := Frames.cons (isFrame_encodeRecord hPayload) .nil
    rw [List.append_nil] at hFrame
    exact hBuffer.append hFrame

theorem Opened.update_flush (h : Opened w s) : Opened (Function.update w .wal (w .wal).flushed) s.flush := by
  obtain ⟨content, buffer, hWal, hContent, hBuffer⟩ := h.log
  refine ⟨by rw [Function.update_of_ne (by decide), h.data]; rfl, content ++ buffer, [], ?_, hContent.append hBuffer, .nil⟩
  rw [Function.update_self, hWal]
  rfl

theorem safe_append (log : LogManager) (h : Opened w s) (hOpen : log.isOpen = true) {txnId prevLsn : UInt64}
    {type : LogRecordType} {payload : Bytes} (hPayload : payload.length ≤ LogManager.maxPayload) (hBefore : K s)
    (hAfter : K (s.push ⟨log.nextLsn, txnId, prevLsn, type.toByte, payload⟩)) :
    Safe Files.handler (Kept K) (log.append txnId prevLsn type payload) w (fun r w' =>
      r = (.ok log.nextLsn, { log with nextLsn := log.nextLsn + 1 }) ∧
        Opened w' (s.push ⟨log.nextLsn, txnId, prevLsn, type.toByte, payload⟩)) := by
  have hWritten := h.update_write ⟨log.nextLsn, txnId, prevLsn, type.toByte, payload⟩ hPayload
  rw [LogManager.append, hOpen, if_neg (by decide), if_neg (Nat.not_lt.mpr hPayload)]
  refine Files.safe_write ⟨s, h.represents, hBefore⟩ ?_
  exact Safe.ret ⟨_, hWritten.represents, hAfter⟩ ⟨rfl, hWritten⟩

/-- The three records of a commit. -/
def commitRecords (log : LogManager) (txnId : UInt64) (payload : Bytes) : List LogRecord :=
  [⟨log.nextLsn, txnId, kInvalidLsn, LogRecordType.kBegin.toByte, []⟩,
   ⟨log.nextLsn + 1, txnId, log.nextLsn, LogRecordType.kUpdate.toByte, payload⟩,
   ⟨log.nextLsn + 1 + 1, txnId, log.nextLsn + 1, LogRecordType.kCommit.toByte, []⟩]

def Store.pushAll (s : Store) (records : List LogRecord) : Store := { s with pending := s.pending ++ records }

theorem safe_appendCommit {log : LogManager} (h : Opened w s) (hOpen : log.isOpen = true) {txnId : UInt64} {payload : Bytes}
    (hPayload : payload.length ≤ LogManager.maxPayload) (hK : ∀ k, K (s.pushAll ((commitRecords log txnId payload).take k))) :
    Safe Files.handler (Kept K) (appendCommit log txnId payload) w (fun r w' =>
      r = (.ok (log.nextLsn + 1 + 1), { log with nextLsn := log.nextLsn + 1 + 1 + 1 }) ∧
        Opened w' (s.pushAll (commitRecords log txnId payload))) := by
  obtain ⟨isOpen, n, m, hasPath⟩ := log
  change isOpen = true at hOpen
  subst hOpen
  let s₁ := s.push ⟨n, txnId, kInvalidLsn, LogRecordType.kBegin.toByte, []⟩
  let s₂ := s₁.push ⟨n + 1, txnId, n, LogRecordType.kUpdate.toByte, payload⟩
  let s₃ := s₂.push ⟨n + 1 + 1, txnId, n + 1, LogRecordType.kCommit.toByte, []⟩
  have hTwo : s₂ = s.pushAll ((commitRecords ⟨true, n, m, hasPath⟩ txnId payload).take 2) := by
    simp [s₂, s₁, Store.push, Store.pushAll, commitRecords]
  have hThree : s₃ = s.pushAll (commitRecords ⟨true, n, m, hasPath⟩ txnId payload) := by
    simp [s₃, s₂, s₁, Store.push, Store.pushAll, commitRecords]
  have hZeroK : K s := by
    have hFirst := hK 0
    rwa [List.take_zero, Store.pushAll, List.append_nil] at hFirst
  have hOneK : K s₁ := hK 1
  have hTwoK : K s₂ := hTwo ▸ hK 2
  have hThreeK : K s₃ := hThree ▸ hK 3
  rw [← hThree]
  have hEmpty : ([] : Bytes).length ≤ LogManager.maxPayload := Nat.zero_le _
  refine (safe_append ⟨true, n, m, hasPath⟩ h rfl hEmpty hZeroK hOneK).bind ?_
  rintro _ w₁ ⟨rfl, h₁⟩
  refine (safe_append ⟨true, n + 1, m, hasPath⟩ h₁ rfl hPayload hOneK hTwoK).bind ?_
  rintro _ w₂ ⟨rfl, h₂⟩
  exact safe_append ⟨true, n + 1 + 1, m, hasPath⟩ h₂ rfl hEmpty hTwoK hThreeK

theorem Opened.safe_flush (h : Opened w s) (log : LogManager) (hOpen : log.isOpen = true) (hBefore : K s)
    (hAfter : K s.flush) (through : UInt64) : Safe Files.handler (Kept K) (log.flush through) w (fun r w' =>
      r = (.ok, { log with durableLsn := log.watermark through }) ∧ Opened w' s.flush) := by
  have hFlushed := h.update_flush
  rw [LogManager.flush, hOpen, if_pos rfl]
  refine Files.safe_flush ⟨s, h.represents, hBefore⟩ ?_
  refine Files.safe_sync ⟨_, hFlushed.represents, hAfter⟩ ?_
  exact Safe.ret ⟨_, hFlushed.represents, hAfter⟩ ⟨rfl, hFlushed⟩

/-! ## Commits -/

/-- What a commit makes of the store. -/
def Store.commit (s : Store) (sync : Bool) (records : List LogRecord) (tables : Tables) : Store :=
  (if sync then (s.pushAll records).flush else s.pushAll records).save tables

/-- The log after the three appends of a commit and its flush, if there is one. -/
def LogManager.committed (log : LogManager) (sync : Bool) : LogManager :=
  let appended := { log with nextLsn := log.nextLsn + 1 + 1 + 1 }
  if sync then { appended with durableLsn := appended.watermark (log.nextLsn + 1 + 1) } else appended

/-- The database after a commit that succeeded. -/
def Database.committed (db : Database) : Database :=
  { db with nextWalTxn := db.nextWalTxn + 1, wal := db.wal.committed db.options.syncOnCommit }

theorem safe_persist {db : Database} {tables : Tables} (h : Opened w s) (hOpen : db.wal.isOpen = true)
    (hPayload : (snapshotPayload tables).length ≤ LogManager.maxPayload) {records : List LogRecord}
    (hRecords : records = commitRecords db.wal db.nextWalTxn (snapshotPayload tables))
    (hAppend : ∀ k, K (s.pushAll (records.take k))) (hFlush : K (s.pushAll records).flush)
    (hSave : K (s.commit db.options.syncOnCommit records tables)) :
    Safe Files.handler (Kept K) (persistCommittedTables db tables) w (fun r w' =>
      r = (.ok, db.committed) ∧ Opened w' (s.commit db.options.syncOnCommit records tables)) := by
  subst hRecords
  refine (safe_appendCommit h hOpen hPayload hAppend).bind ?_
  rintro _ w₁ ⟨rfl, h₁⟩
  have hAll : K (s.pushAll (commitRecords db.wal db.nextWalTxn (snapshotPayload tables))) := hAppend 3
  dsimp only
  rw [Database.committed, LogManager.committed]
  rw [Store.commit] at hSave ⊢
  cases hSync : db.options.syncOnCommit with
  | true =>
    rw [hSync, if_pos rfl] at hSave
    rw [if_pos rfl, if_pos rfl, if_pos rfl]
    refine (h₁.safe_flush { db.wal with nextLsn := db.wal.nextLsn + 1 + 1 + 1 } hOpen hAll hFlush _).bind ?_
    rintro _ w₂ ⟨rfl, h₂⟩
    rw [if_pos rfl]
    refine (h₂.safe_saveTables tables hFlush hSave).bind ?_
    rintro _ w₃ ⟨rfl, h₃⟩
    exact Safe.ret ⟨_, h₃.represents, hSave⟩ ⟨rfl, h₃⟩
  | false =>
    rw [hSync, if_neg (by decide)] at hSave
    rw [if_neg (by decide), if_neg (by decide), if_neg (by decide)]
    have hNone : Safe Files.handler (Kept K) (pure (Status.ok, { db.wal with nextLsn := db.wal.nextLsn + 1 + 1 + 1 })) w₁
        (fun r w' => r = (.ok, { db.wal with nextLsn := db.wal.nextLsn + 1 + 1 + 1 }) ∧ w' = w₁) :=
      Safe.ret ⟨_, h₁.represents, hAll⟩ ⟨rfl, rfl⟩
    refine hNone.bind ?_
    rintro _ _ ⟨rfl, rfl⟩
    rw [if_pos rfl]
    refine (h₁.safe_saveTables tables hAll hSave).bind ?_
    rintro _ w₃ ⟨rfl, h₃⟩
    exact Safe.ret ⟨_, h₃.represents, hSave⟩ ⟨rfl, h₃⟩

/-- The database after a commit whose payload the log refused. -/
def Database.refused (db : Database) : Database :=
  { db with nextWalTxn := db.nextWalTxn + 1, wal := { db.wal with nextLsn := db.wal.nextLsn + 1 } }

theorem safe_persist_large {db : Database} {tables : Tables} (h : Opened w s) (hOpen : db.wal.isOpen = true)
    (hPayload : LogManager.maxPayload < (snapshotPayload tables).length) {record : LogRecord}
    (hRecord : record = ⟨db.wal.nextLsn, db.nextWalTxn, kInvalidLsn, LogRecordType.kBegin.toByte, []⟩)
    (hBefore : K s) (hAfter : K (s.push record)) :
    Safe Files.handler (Kept K) (persistCommittedTables db tables) w (fun r w' =>
      r = (.outOfRange (ascii "WAL payload is too large"), db.refused) ∧ Opened w' (s.push record)) := by
  subst hRecord
  rw [persistCommittedTables, appendCommit]
  rw [bind_assoc]
  refine (safe_append db.wal h hOpen (Nat.zero_le _) hBefore hAfter).bind ?_
  rintro _ w₁ ⟨rfl, h₁⟩
  dsimp only
  rw [LogManager.append_large (by exact hOpen) _ _ _ hPayload]
  exact Safe.ret ⟨_, h₁.represents, hAfter⟩ ⟨rfl, h₁⟩

theorem persist_closed {db : Database} (hOpen : db.wal.isOpen = false) (tables : Tables) :
    persistCommittedTables db tables =
      pure (.ioError (ascii "WAL is not open"), { db with nextWalTxn := db.nextWalTxn + 1 }) := by
  rw [persistCommittedTables, appendCommit, LogManager.append_closed hOpen]
  rfl

/-! ## Close and Checkpoint -/

theorem Opened.safe_closeLog {log : LogManager} (h : Opened w s) (hOpen : log.isOpen = true) (hBefore : K s)
    (hAfter : K s.flush) : Safe Files.handler (Kept K) log.close w (fun r w' =>
      r = { log with isOpen := false } ∧ Opened w' s.flush) := by
  have hFlushed := h.update_flush
  have hClosed : Opened (Function.update (Function.update w .wal (w .wal).flushed) .wal
      ((Function.update w .wal (w .wal).flushed) .wal).flushed) s.flush := by
    have hTwice := hFlushed.update_flush
    rwa [Store.flush, Store.flush, List.append_nil] at hTwice
  rw [LogManager.close, hOpen, if_pos rfl]
  refine Files.safe_flush ⟨s, h.represents, hBefore⟩ (Files.safe_close ⟨_, hFlushed.represents, hAfter⟩ ?_)
  exact Safe.ret ⟨_, hClosed.represents, hAfter⟩ ⟨rfl, hClosed⟩

theorem safe_closeDatabase {db : Database} (h : Opened w s) (hClosed : db.closed = false) (hOpen : db.wal.isOpen = true)
    (hBefore : K s) (hSave : K (s.save db.tables)) (hAfter : K (s.save db.tables).flush) :
    Safe Files.handler (Kept K) (closeDatabase db) w (fun r w' =>
      r = (.ok, { db with wal := { db.wal with isOpen := false }, closed := true }) ∧
        Opened w' (s.save db.tables).flush) := by
  rw [closeDatabase, hClosed, if_neg (by decide)]
  refine (h.safe_saveTables db.tables hBefore hSave).bind ?_
  rintro _ w₁ ⟨rfl, h₁⟩
  refine (h₁.safe_closeLog hOpen hSave hAfter).bind ?_
  rintro _ w₂ ⟨rfl, h₂⟩
  exact Safe.ret ⟨_, h₂.represents, hAfter⟩ ⟨rfl, h₂⟩

/-- The store once the log is emptied. -/
def Store.truncate (s : Store) : Store := ⟨s.data, [], []⟩

theorem Opened.update_create (h : Opened w s) : Opened (Function.update w .wal ⟨some [], []⟩) s.truncate := by
  refine ⟨by rw [Function.update_of_ne (by decide), h.data]; rfl, [], [], ?_, .nil, .nil⟩
  rw [Function.update_self]

theorem Opened.update_openAppend (h : Opened w s) :
    Opened (Function.update w .wal ⟨some ((w .wal).content.getD []), (w .wal).buffer⟩) s := by
  obtain ⟨content, buffer, hWal, hContent, hBuffer⟩ := h.log
  refine ⟨by rw [Function.update_of_ne (by decide), h.data], content, buffer, ?_, hContent, hBuffer⟩
  rw [Function.update_self, hWal]
  rfl

/-- An open log manager whose counter stands at the start. -/
def LogManager.emptied (hasPath : Bool) : LogManager := { isOpen := true, hasPath := hasPath }

theorem Opened.safe_truncate {log : LogManager} (h : Opened w s) (hOpen : log.isOpen = true) (hBefore : K s)
    (hFlush : K s.flush) (hAfter : K s.truncate) : Safe Files.handler (Kept K) log.truncate w (fun r w' =>
      r = (.ok, LogManager.emptied log.hasPath) ∧ Opened w' s.truncate) := by
  have hFlushed := h.update_flush
  have hClosed := hFlushed.update_flush
  have hCreated := hClosed.update_create
  have hOver := hCreated.update_flush
  have hAgain := hOver.update_openAppend
  have hFlushTwice : s.flush.flush = s.flush := by rw [Store.flush, Store.flush, List.append_nil]
  have hEmpty : s.flush.flush.truncate.flush = s.truncate := by rw [hFlushTwice]; rfl
  have hEmpty' : s.flush.flush.truncate = s.truncate := by rw [hFlushTwice]; rfl
  rw [hFlushTwice] at hClosed
  rw [hEmpty'] at hCreated
  rw [hEmpty] at hOver hAgain
  rw [LogManager.truncate, hOpen, if_pos rfl]
  refine Files.safe_flush ⟨s, h.represents, hBefore⟩ (Files.safe_close ⟨_, hFlushed.represents, hFlush⟩ ?_)
  refine Files.safe_create ⟨_, hClosed.represents, hFlush⟩ (Files.safe_close ⟨_, hCreated.represents, hAfter⟩ ?_)
  refine Files.safe_openAppend ⟨_, hOver.represents, hAfter⟩ (Files.safe_sync ⟨_, hAgain.represents, hAfter⟩ ?_)
  exact Safe.ret ⟨_, hAgain.represents, hAfter⟩ ⟨rfl, hAgain⟩

theorem safe_checkpoint {db : Database} (h : Opened w s) (hClosed : db.closed = false) (hOpen : db.wal.isOpen = true)
    (hBefore : K s) (hSave : K (s.save db.tables)) (hFlush : K (s.save db.tables).flush)
    (hAfter : K (s.save db.tables).truncate) : Safe Files.handler (Kept K) (checkpoint db) w (fun r w' =>
      r = (.ok, { db with wal := .emptied db.wal.hasPath }) ∧ Opened w' (s.save db.tables).truncate) := by
  rw [checkpoint, hClosed, if_neg (by decide)]
  refine (h.safe_saveTables db.tables hBefore hSave).bind ?_
  rintro _ w₁ ⟨rfl, h₁⟩
  rw [if_pos rfl]
  refine (h₁.safe_truncate hOpen hSave hFlush hAfter).bind ?_
  rintro _ w₂ ⟨rfl, h₂⟩
  exact Safe.ret ⟨_, h₂.represents, hAfter⟩ ⟨rfl, h₂⟩

/-! ## Open -/

/-- Before the stream is opened the file holds the durable records and a torn end. -/
theorem HoldsLog.split {state : Files.FileState} {durable pending : List LogRecord} (h : HoldsLog state durable pending)
    (hBuffer : state.buffer = []) : ∃ clean tail, state.content.getD [] = clean ++ tail ∧
      Frames nextRecord clean durable ∧ nextRecord tail = none := by
  cases h with
  | missing => exact ⟨[], [], rfl, .nil, next_nil nextRecord_lawful⟩
  | torn hClean hTail => exact ⟨_, _, rfl, hClean, hTail⟩
  | whole hContent _ => exact ⟨_, [], (List.append_nil _).symm, hContent, next_nil nextRecord_lawful⟩

theorem safe_discardTail {clean tail : Bytes} (hData : w .data = ⟨s.data, []⟩) (hWal : w .wal = ⟨some (clean ++ tail), []⟩)
    (hClean : Frames nextRecord clean s.durable) (hTail : nextRecord tail = none) (hPending : s.pending = []) (hK : K s)
    (log : LogManager) (hOpen : log.isOpen = true) :
    Safe Files.handler (Kept K) (log.discardTail (validBytes s.durable)) w (fun r w' => r = (.ok, log) ∧ Opened w' s) := by
  have hTorn : ∀ {w' : Files.World FileId}, w' .data = ⟨s.data, []⟩ → w' .wal = ⟨some (clean ++ tail), []⟩ → Kept K w' :=
    fun hData hWal => ⟨s, ⟨hData, hWal ▸ hPending ▸ .torn hClean hTail⟩, hK⟩
  have hWhole : ∀ {w' : Files.World FileId}, w' .data = ⟨s.data, []⟩ → w' .wal = ⟨some clean, []⟩ → Opened w' s :=
    fun hData hWal => ⟨hData, clean, [], hWal, hClean, hPending ▸ .nil⟩
  rw [LogManager.discardTail]
  refine Files.safe_fileSize (hTorn hData hWal) ?_
  rw [hWal, validBytes_of_frames hClean]
  dsimp only [Option.map_some, Option.any_some]
  split
  · have hClosed : Function.update w .wal (w .wal).flushed = w := by
      rw [hWal, Files.FileState.flushed, Option.map_some, List.append_nil, ← hWal, Function.update_eq_self]
    refine Files.safe_close (hTorn hData hWal) ?_
    rw [hClosed]
    refine Files.safe_resize (hTorn hData hWal) ?_
    have hCut : (w .wal).content.map (Files.resized clean.length) = some clean := by
      rw [hWal, Option.map_some, Files.resized, List.take_left, List.length_append, Nat.sub_eq_zero_of_le (Nat.le_add_right _ _),
        List.replicate_zero, List.append_nil]
    have hEmpty : (w .wal).buffer = [] := by rw [hWal]
    rw [hCut, hEmpty]
    have hResized : Opened (Function.update w .wal ⟨some clean, []⟩) s :=
      hWhole (by rw [Function.update_of_ne (by decide), hData]) (Function.update_self _ _ _)
    have hAgain := hResized.update_openAppend
    rw [if_pos rfl]
    refine Files.safe_openAppend ⟨_, hResized.represents, hK⟩ ?_
    exact Safe.ret ⟨_, hAgain.represents, hK⟩ ⟨by rw [if_pos rfl, ← hOpen], hAgain⟩
  · rename_i hShort
    have hNil : tail = [] := by
      rw [List.length_append, decide_eq_true_eq] at hShort
      exact List.eq_nil_of_length_eq_zero (by omega)
    rw [hNil, List.append_nil] at hWal
    exact Safe.ret ⟨_, (hWhole hData hWal).represents, hK⟩ ⟨rfl, hWhole hData hWal⟩

theorem safe_openLog (h : Represents w s) (hBuffer : (w .wal).buffer = []) (hPending : s.pending = []) (hK : K s) :
    Safe Files.handler (Kept K) (LogManager.openLog {}) w (fun r w' =>
      r = (.ok, (LogManager.emptied true).afterLast s.durable) ∧ Opened w' s) := by
  obtain ⟨clean, tail, hContent, hClean, hTail⟩ := h.log.split hBuffer
  let w₁ := Function.update w .wal ⟨some (clean ++ tail), []⟩
  have hData : w₁ .data = ⟨s.data, []⟩ := by rw [← h.data]; exact Function.update_of_ne (by decide) _ _
  have hWal : w₁ .wal = ⟨some (clean ++ tail), []⟩ := Function.update_self _ _ _
  have hOpened : Kept K w₁ := ⟨s, ⟨hData, hWal ▸ hPending ▸ .torn hClean hTail⟩, hK⟩
  have hRecords : readRecords (clean ++ tail) = s.durable := hClean.records_append hTail
  have hStream : Safe Files.handler (Kept K) (LogManager.openStream {}) w
      (fun r w' => r = (.ok, .emptied true) ∧ w' = w₁) := by
    refine Files.safe_openAppend ⟨s, h, hK⟩ ?_
    rw [hContent, hBuffer]
    exact Safe.ret hOpened ⟨rfl, rfl⟩
  rw [LogManager.openLog, if_neg Bool.false_ne_true]
  refine hStream.bind ?_
  rintro _ _ ⟨rfl, rfl⟩
  dsimp only
  rw [if_neg (not_not.mpr rfl)]
  have hRead : Safe Files.handler (Kept K) LogManager.readFile w₁ (fun r w' => r = .ok s.durable ∧ w' = w₁) := by
    refine Files.safe_read hOpened ?_
    rw [hWal]
    exact Safe.ret hOpened ⟨congrArg Except.ok hRecords, rfl⟩
  refine hRead.bind ?_
  rintro _ _ ⟨rfl, rfl⟩
  refine (safe_discardTail hData hWal hClean hTail hPending hK (.emptied true) rfl).bind ?_
  rintro _ w₂ ⟨rfl, h₂⟩
  exact Safe.ret ⟨_, h₂.represents, hK⟩ ⟨rfl, h₂⟩

/-- What opening the data file gives, and the file's content afterwards. -/
def openedData (options : Options) : Option Bytes → Except Status Tables × Option Bytes
  | some bytes => (loadTablesBytes bytes, some bytes)
  | none =>
    if options.createIfMissing then (.ok OrderedMap.empty, some (serializeTables OrderedMap.empty))
    else (.error (.notFound (ascii "database file does not exist")), none)

/-- The status returned, and the tables the object holds. -/
def loadedTables : Except Status Tables → Status × Tables
  | .ok tables => (.ok, tables)
  | .error status => (status, OrderedMap.empty)

theorem safe_openData (h : Represents w s) (options : Options) (hBefore : K s)
    (hAfter : K { s with data := (openedData options s.data).2 }) :
    Safe Files.handler (Kept K) (openData options) w (fun r w' => r = loadedTables (openedData options s.data).1 ∧
      Represents w' { s with data := (openedData options s.data).2 } ∧ w' .wal = w .wal) := by
  obtain ⟨data, durable, pending⟩ := s
  have hRead : ∀ {x : Except Status Tables}, (match data with
      | none => .error (.notFound (ascii "database file does not exist"))
      | some bytes => loadTablesBytes bytes) = x →
      Safe Files.handler (Kept K) loadTables w (fun r w' => r = x ∧ w' = w) := by
    rintro x rfl
    refine Files.safe_read ⟨_, h, hBefore⟩ ?_
    rw [h.data]
    cases data <;> exact Safe.ret ⟨_, h, hBefore⟩ ⟨rfl, rfl⟩
  rw [openData]
  cases data with
  | some bytes =>
    refine (hRead (x := loadTablesBytes bytes) rfl).bind ?_
    rintro _ _ ⟨rfl, rfl⟩
    rw [openedData]
    cases hLoad : loadTablesBytes bytes with
    | ok tables => exact Safe.ret ⟨_, h, hBefore⟩ ⟨rfl, h, rfl⟩
    | error status =>
      obtain ⟨message, rfl | rfl⟩ := malformed_of_load hLoad
      · exact Safe.ret ⟨_, h, hBefore⟩ ⟨rfl, h, rfl⟩
      · exact Safe.ret ⟨_, h, hBefore⟩ ⟨rfl, h, rfl⟩
  | none =>
    refine (hRead rfl).bind ?_
    rintro _ _ ⟨rfl, rfl⟩
    simp only [openedData] at hAfter ⊢
    dsimp only [Status.notFound]
    cases hCreate : options.createIfMissing with
    | true =>
      rw [hCreate, if_pos rfl] at hAfter
      rw [if_pos rfl, if_pos rfl]
      refine (safe_saveTables h OrderedMap.empty hBefore hAfter).bind ?_
      rintro _ w₁ ⟨rfl, h₁, hWal⟩
      exact Safe.ret ⟨_, h₁, hAfter⟩ ⟨rfl, h₁, hWal⟩
    | false =>
      rw [if_neg (by decide), if_neg (by decide)]
      exact Safe.ret ⟨_, h, hBefore⟩ ⟨rfl, h, rfl⟩

/-- The database after a replay that succeeded. -/
def Database.recovered (db : Database) (state : Replay) : Database :=
  { db with
    tables := state.tables
    nextWalTxn := max db.nextWalTxn (state.largestTxn + 1)
    generation := if state.recovered then db.generation + 1 else db.generation }

/-- The result of recovery and the store it leaves. -/
def Store.recover (s : Store) (db : Database) : (Status × Database) × Store :=
  match Replay.run { tables := db.tables } s.durable with
  | .error (status, tables) => ((status, { db with tables := tables }), s)
  | .ok state => ((.ok, db.recovered state), if state.recovered then s.save state.tables else s)

theorem Opened.safe_recover {db : Database} (h : Opened w s) (hPath : db.wal.hasPath = true) (hBefore : K s)
    (hAfter : K (s.recover db).2) :
    Safe Files.handler (Kept K) (recoverCommittedTables db) w (fun r w' =>
      r = (s.recover db).1 ∧ Opened w' (s.recover db).2) := by
  obtain ⟨content, buffer, hWal, hContent, -⟩ := h.log
  have hRead : Safe Files.handler (Kept K) LogManager.readFile w (fun r w' => r = .ok s.durable ∧ w' = w) := by
    refine Files.safe_read ⟨s, h.represents, hBefore⟩ ?_
    rw [hWal]
    exact Safe.ret ⟨s, h.represents, hBefore⟩ ⟨congrArg Except.ok (hContent.records_eq nextRecord_lawful), rfl⟩
  rw [recoverCommittedTables, LogManager.readAll, if_pos hPath]
  refine hRead.bind ?_
  rintro _ _ ⟨rfl, rfl⟩
  rw [Store.recover] at hAfter ⊢
  dsimp only
  cases hRun : Replay.run { tables := db.tables } s.durable with
  | error failure =>
    obtain ⟨status, tables⟩ := failure
    exact Safe.ret ⟨s, h.represents, hBefore⟩ ⟨rfl, h⟩
  | ok state =>
    rw [hRun] at hAfter
    dsimp only at hAfter ⊢
    cases hRecovered : state.recovered with
    | true =>
      rw [hRecovered, if_pos rfl] at hAfter
      rw [if_pos rfl, if_pos rfl]
      refine (h.safe_saveTables state.tables hBefore hAfter).bind ?_
      rintro _ w₁ ⟨rfl, h₁⟩
      refine Safe.ret ⟨_, h₁.represents, hAfter⟩ ⟨?_, h₁⟩
      rw [Database.recovered, hRecovered, if_pos rfl, if_pos rfl]
    | false =>
      rw [if_neg (by decide), if_neg (by decide)]
      refine Safe.ret ⟨s, h.represents, hBefore⟩ ⟨?_, h⟩
      rw [Database.recovered, hRecovered, if_neg (by decide)]

/-- The store once the data file is loaded or created. -/
def Store.started (options : Options) (s : Store) : Store := { s with data := (openedData options s.data).2 }

/-- The stages of `Open` on the store. -/
def Store.stages (options : Options) (s : Store) : (Status × Database) × Store :=
  match (openedData options s.data).1 with
  | .error status => ((status, { options := options }), s.started options)
  | .ok tables =>
    (s.started options).recover
      { options := options, tables := tables, wal := (LogManager.emptied true).afterLast s.durable }

theorem malformed_or_missing {options : Options} {data : Option Bytes} {status : Status}
    (h : (openedData options data).1 = .error status) : status ≠ .ok := by
  cases data with
  | some bytes =>
    obtain ⟨message, rfl | rfl⟩ := malformed_of_load h
    · exact Status.noConfusion
    · exact Status.noConfusion
  | none =>
    rw [openedData] at h
    split at h
    · cases h
    · cases h
      exact Status.noConfusion

/-- The log's stream is open exactly when the stages reached it. -/
structure Backed (log : LogManager) (w : Files.World FileId) (s : Store) : Prop where
  represents : Represents w s
  opened : log.isOpen = true → Opened w s

theorem safe_openStages (h : Represents w s) (hBuffer : (w .wal).buffer = []) (hPending : s.pending = []) (options : Options)
    (hBefore : K s) (hStarted : K (s.started options)) (hAfter : K (s.stages options).2) :
    Safe Files.handler (Kept K) (openStages options) w (fun r w' =>
      r = (s.stages options).1 ∧ Backed r.2.wal w' (s.stages options).2) := by
  rw [openStages]
  refine (safe_openData h options hBefore hStarted).bind ?_
  rintro _ w₁ ⟨rfl, h₁, hWal⟩
  rw [Store.stages] at hAfter ⊢
  cases hLoad : (openedData options s.data).1 with
  | error status =>
    dsimp only [loadedTables]
    rw [if_pos (malformed_or_missing hLoad)]
    exact Safe.ret ⟨_, h₁, hStarted⟩ ⟨rfl, h₁, fun hOpen => by cases hOpen⟩
  | ok tables =>
    rw [hLoad] at hAfter
    rw [← hWal] at hBuffer
    dsimp only [loadedTables]
    rw [if_neg (not_not.mpr rfl)]
    refine (safe_openLog (s := s.started options) h₁ hBuffer hPending hStarted).bind ?_
    rintro _ w₂ ⟨rfl, h₂⟩
    dsimp only
    rw [if_neg (not_not.mpr rfl)]
    refine (h₂.safe_recover (LogManager.hasPath_afterLast _ _) hStarted hAfter).weaken (fun _ h => h) ?_
    rintro _ w₃ ⟨rfl, h₃⟩
    exact ⟨rfl, h₃.represents, fun _ => h₃⟩

/-- A successful `Open`. -/
theorem safe_openDatabase (h : Represents w s) (hBuffer : (w .wal).buffer = []) (hPending : s.pending = [])
    {options : Options} {db : Database} {s' : Store} (hStages : s.stages options = ((.ok, db), s')) (hBefore : K s)
    (hStarted : K (s.started options)) (hAfter : K s') :
    Safe Files.handler (Kept K) (openDatabase options) w (fun r w' => r = .ok db ∧ Backed db.wal w' s') := by
  have hSafe := safe_openStages h hBuffer hPending options hBefore hStarted (by rw [hStages]; exact hAfter)
  rw [hStages] at hSafe
  refine hSafe.bind ?_
  rintro _ w₁ ⟨rfl, h₁⟩
  dsimp only
  rw [if_pos rfl]
  exact Safe.ret ⟨_, h₁.represents, hAfter⟩ ⟨rfl, h₁⟩

theorem not_closed_stages (options : Options) (s : Store) : (s.stages options).1.2.closed = false := by
  rw [Store.stages]
  split
  · rfl
  · rw [Store.recover]
    split <;> rfl

/-- A failed `Open`: the destructor saves what the object holds. -/
theorem safe_openDatabase_error (h : Represents w s) (hBuffer : (w .wal).buffer = []) (hPending : s.pending = [])
    {options : Options} {status : Status} {db : Database} {s' : Store} (hStages : s.stages options = ((status, db), s'))
    (hStatus : status ≠ .ok) :
    Safe Files.handler (Kept (fun _ => True)) (openDatabase options) w (fun r w' =>
      r = .error status ∧ ∃ s'', Represents w' s'' ∧ s''.data = some (serializeTables db.tables)) := by
  have hSafe := safe_openStages (K := fun _ => True) h hBuffer hPending options trivial trivial trivial
  have hClosed := not_closed_stages options s
  rw [hStages] at hSafe hClosed
  refine hSafe.bind ?_
  rintro _ w₁ ⟨rfl, h₁⟩
  dsimp only
  rw [if_neg hStatus]
  have hClose : Safe Files.handler (Kept (fun _ => True)) (closeDatabase db) w₁
      (fun _ w' => ∃ s'', Represents w' s'' ∧ s''.data = some (serializeTables db.tables)) := by
    cases hOpen : db.wal.isOpen with
    | true =>
      refine (safe_closeDatabase (h₁.opened hOpen) hClosed hOpen trivial trivial trivial).weaken (fun _ h => h) ?_
      rintro _ w₂ ⟨-, h₂⟩
      exact ⟨_, h₂.represents, rfl⟩
    | false =>
      rw [closeDatabase, hClosed, if_neg (by decide), LogManager.close, hOpen, if_neg (by decide)]
      refine (safe_saveTables h₁.represents db.tables trivial trivial).bind ?_
      rintro _ w₂ ⟨-, h₂, -⟩
      exact Safe.ret ⟨_, h₂, trivial⟩ ⟨_, h₂, rfl⟩
  refine hClose.bind ?_
  rintro r w₂ ⟨s'', h₂, hData⟩
  exact Safe.ret ⟨s'', h₂, trivial⟩ ⟨rfl, s'', h₂, hData⟩

end TupleStone
