import TupleStone.Wal.LogRuns

/-! # Runs of log manager calls

A run calls one log manager in any order. A write may fail after a part of the frame reached the file, and a
synchronisation may fail; no other operation does.
-/

set_option autoImplicit false

namespace TupleStone

open OpProgram FrameLog

inductive LogCall where
  | openLog
  | append (txnId prevLsn : UInt64) (type : LogRecordType) (payload : Bytes) (write : Fault)
  | flush (through : UInt64) (sync : Fault)
  | readAll
  | close
  | truncate (sync : Fault)
  deriving DecidableEq, Repr

/-- The records whose `Append` returned a number since the log was last emptied, and those of them that a `Flush`
that returned Ok came after. -/
structure LogState where
  log : LogManager := {}
  platform : Files.Platform FileId
  acknowledged : List LogRecord := []
  flushed : List LogRecord := []

namespace LogState

/-- A method runs with its script, and what is left of the script is dropped. -/
def perform {α : Type} (s : LogState) (p : Io α) (faults : List Fault) : α × Files.Platform FileId :=
  let r := run Files.platform p { s.platform with faults := faults }
  (r.1, { r.2 with faults := [] })

def call (s : LogState) : LogCall → LogState
  | .openLog =>
    let r := s.perform s.log.openLog []
    { s with log := r.1.2, platform := r.2 }
  | .append txnId prevLsn type payload write =>
    let r := s.perform (s.log.append txnId prevLsn type payload) [write]
    match r.1.1 with
    | .ok lsn =>
      { s with
        log := r.1.2
        platform := r.2
        acknowledged := s.acknowledged ++ [⟨lsn, txnId, prevLsn, type.toByte, payload⟩] }
    | .error _ => { s with log := r.1.2, platform := r.2 }
  | .flush through sync =>
    let r := s.perform (s.log.flush through) [.none, sync]
    { s with log := r.1.2, platform := r.2, flushed := if r.1.1 = .ok then s.acknowledged else s.flushed }
  | .readAll => { s with platform := (s.perform s.log.readAll []).2 }
  | .close =>
    let r := s.perform s.log.close []
    { s with log := r.1, platform := r.2 }
  | .truncate sync =>
    let r := s.perform s.log.truncate [.none, .none, .none, .none, .none, sync]
    if s.log.isOpen then { log := r.1.2, platform := r.2 } else { s with log := r.1.2, platform := r.2 }

/-- Before the first call. -/
def start (d stable : Files.Disk FileId) : LogState := { platform := ⟨Files.ofDisk d, stable, []⟩ }

def file (s : LogState) : Files.FileState := s.platform.files .wal

/-- Everything that was written, whether it reached the file or is buffered. -/
def bytes (s : LogState) : Bytes := s.file.content.getD [] ++ s.file.buffer

/-- A closed stream has nothing buffered, and an open one has a file. -/
structure Sound (s : LogState) : Prop where
  unbuffered : s.log.isOpen = false → s.file.buffer = []
  exists_file : s.log.hasPath = true → s.file.content ≠ none
  hasPath : s.log.isOpen = true → s.log.hasPath = true

theorem sound_start (d stable : Files.Disk FileId) : (start d stable).Sound where
  unbuffered _ := rfl
  exists_file hPath := by cases hPath
  hasPath hOpen := by cases hOpen

/-! ## What a call does -/

variable {s : LogState}

/-- The state after a change of the log's file. -/
def withFile (s : LogState) (log : LogManager) (file : Files.FileState) (stable : Files.Disk FileId)
    (acknowledged flushed : List LogRecord) : LogState :=
  ⟨log, ⟨Function.update s.platform.files .wal file, stable, []⟩, acknowledged, flushed⟩

@[simp] theorem file_withFile (log : LogManager) (file : Files.FileState) (stable : Files.Disk FileId)
    (acknowledged flushed : List LogRecord) : (s.withFile log file stable acknowledged flushed).file = file := by
  simp [LogState.file, withFile]

@[simp] theorem log_withFile (log : LogManager) (file : Files.FileState) (stable : Files.Disk FileId)
    (acknowledged flushed : List LogRecord) : (s.withFile log file stable acknowledged flushed).log = log := rfl

theorem bytes_withFile (log : LogManager) (content : Option Bytes) (buffer : Bytes) (stable : Files.Disk FileId)
    (acknowledged flushed : List LogRecord) :
    (s.withFile log ⟨content, buffer⟩ stable acknowledged flushed).bytes = content.getD [] ++ buffer := by
  rw [bytes, file_withFile]

/-- The state without a script of failures. -/
def rested (s : LogState) : LogState := { s with platform := { s.platform with faults := [] } }

theorem call_openLog_opened (hOpen : s.log.isOpen = true) : s.call .openLog = s.rested := by
  rw [call, perform, LogManager.openLog_opened hOpen]
  rfl

theorem call_openLog (hClosed : s.log.isOpen = false) (hSound : s.Sound) : s.call .openLog =
    s.withFile ({ s.log with isOpen := true, hasPath := true }.afterLast (readRecords s.bytes))
      ⟨some (wholePart s.bytes), []⟩ s.platform.stable s.acknowledged s.flushed := by
  have hBuffer := hSound.unbuffered hClosed
  have hFile : s.platform.files .wal = ⟨s.file.content, []⟩ := by
    rw [← hBuffer]
    rfl
  have hBytes : s.bytes = s.file.content.getD [] := by rw [bytes, hBuffer, List.append_nil]
  rw [call, perform, LogManager.run_openLog hClosed hFile, hBytes]
  rfl

theorem call_append {txnId prevLsn : UInt64} {type : LogRecordType} {payload : Bytes} (hOpen : s.log.isOpen = true)
    (hPayload : payload.length ≤ LogManager.maxPayload) : s.call (.append txnId prevLsn type payload .none) =
      s.withFile { s.log with nextLsn := s.log.nextLsn + 1 } ⟨s.file.content, s.file.buffer ++
          encodeRecord ⟨s.log.nextLsn, txnId, prevLsn, type.toByte, payload⟩⟩ s.platform.stable
        (s.acknowledged ++ [⟨s.log.nextLsn, txnId, prevLsn, type.toByte, payload⟩]) s.flushed := by
  rw [call, perform, LogManager.run_append hOpen _ _ _ hPayload rfl]
  rfl

theorem call_append_fails {txnId prevLsn : UInt64} {type : LogRecordType} {payload : Bytes} (kept : Nat)
    (hOpen : s.log.isOpen = true) (hPayload : payload.length ≤ LogManager.maxPayload) :
    s.call (.append txnId prevLsn type payload (.fails kept)) =
      s.withFile { s.log with nextLsn := s.log.nextLsn + 1 } ⟨s.file.content.map (· ++ s.file.buffer ++
        (encodeRecord ⟨s.log.nextLsn, txnId, prevLsn, type.toByte, payload⟩).take kept), []⟩ s.platform.stable
        s.acknowledged s.flushed := by
  rw [call, perform, LogManager.run_append_fails hOpen _ _ _ hPayload rfl]
  rfl

theorem call_append_refused {txnId prevLsn : UInt64} {type : LogRecordType} {payload : Bytes} {write : Fault}
    (h : s.log.isOpen = false ∨ LogManager.maxPayload < payload.length) :
    s.call (.append txnId prevLsn type payload write) = s.rested := by
  cases hOpen : s.log.isOpen with
  | false =>
    rw [call, perform, LogManager.append_closed hOpen]
    rfl
  | true =>
    rw [hOpen] at h
    rw [call, perform, LogManager.append_large hOpen _ _ _ (h.resolve_left Bool.noConfusion)]
    rfl

theorem call_flush (hOpen : s.log.isOpen = true) (through : UInt64) (sync : Fault) : s.call (.flush through sync) =
    s.withFile { s.log with durableLsn := s.log.watermark through } s.file.flushed
      (LogManager.syncedTo sync s.platform.stable s.file.flushed.content) s.acknowledged
      (if LogManager.syncStatus sync = .ok then s.acknowledged else s.flushed) := by
  rw [call, perform, LogManager.run_flush hOpen through sync rfl rfl]
  rfl

theorem call_flush_closed (hClosed : s.log.isOpen = false) (through : UInt64) (sync : Fault) :
    s.call (.flush through sync) = s.rested := by
  rw [call, perform, LogManager.flush, hClosed, if_neg Bool.false_ne_true]
  rfl

theorem call_readAll (hSound : s.Sound) : s.call .readAll = s.rested := by
  cases hPath : s.log.hasPath with
  | false =>
    rw [call, perform, LogManager.readAll, hPath, if_neg Bool.false_ne_true]
    rfl
  | true =>
    obtain ⟨content, hContent⟩ := Option.ne_none_iff_exists'.mp (hSound.exists_file hPath)
    rw [call, perform, LogManager.run_readAll hPath hContent rfl]
    rfl

theorem call_close_closed (hClosed : s.log.isOpen = false) : s.call .close = s.rested := by
  rw [call, perform, LogManager.close, hClosed, if_neg Bool.false_ne_true]
  rfl

theorem call_truncate_closed (hClosed : s.log.isOpen = false) (sync : Fault) : s.call (.truncate sync) = s.rested := by
  rw [call, perform, LogManager.truncate, hClosed, if_neg Bool.false_ne_true]
  rfl

theorem call_close (hOpen : s.log.isOpen = true) : s.call .close =
    s.withFile { s.log with isOpen := false } s.file.flushed s.platform.stable s.acknowledged s.flushed := by
  rw [call, perform, LogManager.run_close hOpen]
  rfl

theorem call_truncate (hOpen : s.log.isOpen = true) (sync : Fault) : s.call (.truncate sync) =
    s.withFile { s.log with nextLsn := 1, durableLsn := 0 } ⟨some [], []⟩
      (LogManager.syncedTo sync s.platform.stable (some [])) [] [] := by
  rw [call, perform, LogManager.run_truncate hOpen, if_pos hOpen]
  rfl

/-- Every call leaves the state alone or has one of these effects. -/
inductive Effect (s : LogState) : LogCall → LogState → Prop where
  | rested (c : LogCall) : Effect s c s.rested
  | opened (hClosed : s.log.isOpen = false) :
      Effect s .openLog (s.withFile ({ s.log with isOpen := true, hasPath := true }.afterLast (readRecords s.bytes))
        ⟨some (wholePart s.bytes), []⟩ s.platform.stable s.acknowledged s.flushed)
  | appended (hOpen : s.log.isOpen = true) {txnId prevLsn : UInt64} {type : LogRecordType} {payload : Bytes}
      (hPayload : payload.length ≤ LogManager.maxPayload) {record : LogRecord}
      (hRecord : record = ⟨s.log.nextLsn, txnId, prevLsn, type.toByte, payload⟩) :
      Effect s (.append txnId prevLsn type payload .none)
        (s.withFile { s.log with nextLsn := s.log.nextLsn + 1 } ⟨s.file.content, s.file.buffer ++ encodeRecord record⟩
          s.platform.stable (s.acknowledged ++ [record]) s.flushed)
  | torn (hOpen : s.log.isOpen = true) {txnId prevLsn : UInt64} {type : LogRecordType} {payload part : Bytes} (kept : Nat)
      (hPayload : payload.length ≤ LogManager.maxPayload)
      (hPart : part = (encodeRecord ⟨s.log.nextLsn, txnId, prevLsn, type.toByte, payload⟩).take kept) :
      Effect s (.append txnId prevLsn type payload (.fails kept))
        (s.withFile { s.log with nextLsn := s.log.nextLsn + 1 } ⟨s.file.content.map (· ++ s.file.buffer ++ part), []⟩
          s.platform.stable s.acknowledged s.flushed)
  | flushed (hOpen : s.log.isOpen = true) (through : UInt64) (sync : Fault) :
      Effect s (.flush through sync)
        (s.withFile { s.log with durableLsn := s.log.watermark through } s.file.flushed
          (LogManager.syncedTo sync s.platform.stable s.file.flushed.content) s.acknowledged
          (if LogManager.syncStatus sync = .ok then s.acknowledged else s.flushed))
  | closed (hOpen : s.log.isOpen = true) :
      Effect s .close
        (s.withFile { s.log with isOpen := false } s.file.flushed s.platform.stable s.acknowledged s.flushed)
  | truncated (hOpen : s.log.isOpen = true) (sync : Fault) :
      Effect s (.truncate sync)
        (s.withFile { s.log with nextLsn := 1, durableLsn := 0 } ⟨some [], []⟩
          (LogManager.syncedTo sync s.platform.stable (some [])) [] [])

theorem effect_call (hSound : s.Sound) (c : LogCall) : Effect s c (s.call c) := by
  cases hOpen : s.log.isOpen with
  | false =>
    cases c with
    | openLog =>
      rw [call_openLog hOpen hSound]
      exact .opened hOpen
    | append txnId prevLsn type payload write =>
      rw [call_append_refused (Or.inl hOpen)]
      exact .rested _
    | flush through sync =>
      rw [call_flush_closed hOpen]
      exact .rested _
    | readAll =>
      rw [call_readAll hSound]
      exact .rested _
    | close =>
      rw [call_close_closed hOpen]
      exact .rested _
    | truncate sync =>
      rw [call_truncate_closed hOpen]
      exact .rested _
  | true =>
    cases c with
    | openLog =>
      rw [call_openLog_opened hOpen]
      exact .rested _
    | append txnId prevLsn type payload write =>
      obtain hLarge | hPayload := Nat.lt_or_ge LogManager.maxPayload payload.length
      · rw [call_append_refused (Or.inr hLarge)]
        exact .rested _
      · cases write with
        | none =>
          rw [call_append hOpen hPayload]
          exact .appended hOpen hPayload rfl
        | fails kept =>
          rw [call_append_fails kept hOpen hPayload]
          exact .torn hOpen kept hPayload rfl
    | flush through sync =>
      rw [call_flush hOpen]
      exact .flushed hOpen through sync
    | readAll =>
      rw [call_readAll hSound]
      exact .rested _
    | close =>
      rw [call_close hOpen]
      exact .closed hOpen
    | truncate sync =>
      rw [call_truncate hOpen]
      exact .truncated hOpen sync

theorem Sound.flushed (hSound : s.Sound) (hOpen : s.log.isOpen = true) : ∃ content, s.file = ⟨some content, s.file.buffer⟩ ∧
    s.bytes = content ++ s.file.buffer ∧ s.file.flushed = ⟨some (content ++ s.file.buffer), []⟩ := by
  obtain ⟨content, hContent⟩ := Option.ne_none_iff_exists'.mp (hSound.exists_file (hSound.hasPath hOpen))
  have hFile : s.file = ⟨some content, s.file.buffer⟩ := by rw [← hContent]
  refine ⟨content, hFile, ?_, ?_⟩
  · rw [bytes, hContent]
    rfl
  · rw [Files.FileState.flushed, hContent]
    rfl

/-- The effects keep the state sound. -/
theorem Sound.call (hSound : s.Sound) (c : LogCall) : (s.call c).Sound := by
  have hEffect := effect_call hSound c
  generalize s.call c = s' at hEffect
  cases hEffect with
  | rested => exact ⟨hSound.unbuffered, hSound.exists_file, hSound.hasPath⟩
  | opened hClosed =>
    refine ⟨fun _ => ?_, fun _ => ?_, fun _ => LogManager.hasPath_afterLast _ _⟩
    · simp [LogState.file, withFile]
    · simp [LogState.file, withFile]
  | appended hOpen hPayload hRecord =>
    obtain ⟨content, hFile, -, -⟩ := hSound.flushed hOpen
    refine ⟨fun hShut => ?_, fun _ => ?_, fun _ => hSound.hasPath hOpen⟩
    · exact absurd (hOpen.symm.trans hShut) (by decide)
    · rw [hFile]
      simp [LogState.file, withFile]
  | torn hOpen kept hPayload hPart =>
    obtain ⟨content, hFile, -, -⟩ := hSound.flushed hOpen
    refine ⟨fun _ => ?_, fun _ => ?_, fun _ => hSound.hasPath hOpen⟩
    · simp [LogState.file, withFile]
    · rw [hFile]
      simp [LogState.file, withFile]
  | flushed hOpen through sync =>
    obtain ⟨content, -, -, hFlushed⟩ := hSound.flushed hOpen
    refine ⟨fun _ => ?_, fun _ => ?_, fun _ => hSound.hasPath hOpen⟩
    · simp [LogState.file, withFile, Files.FileState.flushed]
    · rw [hFlushed]
      simp [LogState.file, withFile]
  | closed hOpen =>
    obtain ⟨content, -, -, hFlushed⟩ := hSound.flushed hOpen
    refine ⟨fun _ => ?_, fun _ => ?_, fun hShut => by cases hShut⟩
    · simp [LogState.file, withFile, Files.FileState.flushed]
    · rw [hFlushed]
      simp [LogState.file, withFile]
  | truncated hOpen sync =>
    refine ⟨fun _ => ?_, fun _ => ?_, fun _ => hSound.hasPath hOpen⟩
    · simp [LogState.file, withFile]
    · simp [LogState.file, withFile]

end LogState

end TupleStone
