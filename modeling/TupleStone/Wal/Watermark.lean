import TupleStone.Wal.TornAppend

/-! # The durability watermark

`Flush` moves the watermark to the number its caller names, before the file is synchronised, and `Open` moves it to
the last record of the file, whether or not that record ever reached stable storage.
-/

set_option autoImplicit false

namespace TupleStone

open OpProgram FrameLog

def lastLsn (records : List LogRecord) : UInt64 :=
  match records.getLast? with
  | none => kInvalidLsn
  | some last => last.lsn

theorem lastLsn_append (records : List LogRecord) (record : LogRecord) : lastLsn (records ++ [record]) = record.lsn := by
  rw [lastLsn, List.getLast?_concat]

theorem EndsWhole.readRecords_append {bytes : Bytes} (h : EndsWhole bytes) {record : LogRecord}
    (hPayload : record.payload.length ≤ LogManager.maxPayload) :
    readRecords (bytes ++ encodeRecord record) = readRecords bytes ++ [record] ∧
      EndsWhole (bytes ++ encodeRecord record) := by
  have hFrames := h.frames.append (.cons (isFrame_encodeRecord hPayload) .nil)
  rw [List.append_nil] at hFrames
  have hRecords : readRecords (bytes ++ encodeRecord record) = readRecords bytes ++ [record] :=
    hFrames.records_eq nextRecord_lawful
  constructor
  · exact hRecords
  · rw [EndsWhole, hRecords, validBytes_of_frames hFrames]

theorem endsWhole_wholePart (bytes : Bytes) : EndsWhole (wholePart bytes) := by
  obtain ⟨tail, -, -, hFrames, -⟩ := wholePart_split bytes
  rw [EndsWhole, readRecords_wholePart, validBytes_of_frames hFrames]

namespace LogState

/-- The records of the log, those that are still buffered included. -/
def records (s : LogState) : List LogRecord := readRecords s.bytes

/-- The records of the log that a successful synchronisation covered. -/
def synced (s : LogState) : List LogRecord := readRecords ((s.platform.stable .wal).getD [])

/-- Every record up to a number is on stable storage. -/
def SyncedThrough (s : LogState) (through : UInt64) : Prop := ∀ r ∈ s.records, r.lsn ≤ through → r ∈ s.synced

instance (s : LogState) (through : UInt64) : Decidable (s.SyncedThrough through) :=
  inferInstanceAs (Decidable (∀ r ∈ s.records, r.lsn ≤ through → r ∈ s.synced))

/-- The writes of the run do not fail. The file that is opened is on stable storage up to the number of its last
record, an append does not follow a wrap of the counter, and a flush goes neither back nor beyond the last record and
fails to synchronise only what is synchronised already. -/
def MarksSynced (s : LogState) : LogCall → Prop
  | .openLog => s.log.isOpen = false → s.SyncedThrough (lastLsn s.records)
  | .append _ _ _ payload write =>
    s.log.isOpen = true → payload.length ≤ LogManager.maxPayload → write = .none ∧ s.log.durableLsn < s.log.nextLsn
  | .flush through sync =>
    s.log.isOpen = true → s.log.durableLsn ≤ s.log.watermark through ∧ s.log.watermark through ≤ lastLsn s.records ∧
      (sync = .none ∨ s.SyncedThrough (s.log.watermark through))
  | _ => True

inductive Marked (d stable : Files.Disk FileId) : LogState → Prop where
  | start : Marked d stable (LogState.start d stable)
  | call {s : LogState} (h : Marked d stable s) (c : LogCall) (hMarks : s.MarksSynced c) : Marked d stable (s.call c)

structure Watermarked (s : LogState) : Prop where
  sound : s.Sound
  whole : s.log.isOpen = true → EndsWhole s.bytes
  bounded : s.log.durableLsn ≤ lastLsn s.records
  covered : s.log.hasPath = true → s.SyncedThrough s.log.durableLsn

/-- Opening moves the watermark to the last record of the file, if it has one. -/
theorem durableLsn_afterLast (log : LogManager) (records : List LogRecord) :
    (log.afterLast records).durableLsn = lastLsn records ∨ records = [] ∧ (log.afterLast records).durableLsn = log.durableLsn := by
  cases hLast : records.getLast? with
  | none =>
    refine Or.inr ⟨List.getLast?_eq_none_iff.mp hLast, ?_⟩
    rw [LogManager.afterLast, hLast]
  | some last =>
    refine Or.inl ?_
    rw [LogManager.afterLast, lastLsn, hLast]

variable {s : LogState}

theorem synced_withFile (log : LogManager) (file : Files.FileState) (stable : Files.Disk FileId)
    (acknowledged flushed : List LogRecord) :
    (s.withFile log file stable acknowledged flushed).synced = readRecords ((stable .wal).getD []) := rfl

theorem Watermarked.opened (h : s.Watermarked) (hMarks : s.SyncedThrough (lastLsn s.records)) {log : LogManager}
    (hLog : log.durableLsn = s.log.durableLsn) {s' : LogState} (hSound : s'.Sound)
    (hState : s' = s.withFile (log.afterLast (readRecords s.bytes)) ⟨some (wholePart s.bytes), []⟩ s.platform.stable
      s.acknowledged s.flushed) : s'.Watermarked ∧ s.log.durableLsn ≤ s'.log.durableLsn := by
  have hBytes : s'.bytes = wholePart s.bytes := by
    rw [hState, bytes_withFile, Option.getD_some, List.append_nil]
  have hRecords : s'.records = s.records := by rw [records, hBytes, readRecords_wholePart, records]
  have hSynced : s'.synced = s.synced := by rw [hState, synced_withFile, synced]
  have hWhole : EndsWhole s'.bytes := hBytes ▸ endsWhole_wholePart s.bytes
  have hDurable : s'.log.durableLsn = lastLsn s.records ∨ s.records = [] ∧ s'.log.durableLsn = s.log.durableLsn := by
    rw [hState, log_withFile, ← hLog]
    exact durableLsn_afterLast log (readRecords s.bytes)
  have hCovered : s'.SyncedThrough s'.log.durableLsn := by
    intro r hMem hLe
    rw [hRecords] at hMem
    rw [hSynced]
    obtain hLast | ⟨hEmpty, -⟩ := hDurable
    · exact hMarks r hMem (hLast ▸ hLe)
    · rw [hEmpty] at hMem
      exact absurd hMem List.not_mem_nil
  have hBounded : s'.log.durableLsn ≤ lastLsn s.records ∧ s.log.durableLsn ≤ s'.log.durableLsn := by
    obtain hLast | ⟨-, hSame⟩ := hDurable
    · rw [hLast]
      exact ⟨UInt64.le_refl _, h.bounded⟩
    · rw [hSame]
      exact ⟨h.bounded, UInt64.le_refl _⟩
  exact ⟨⟨hSound, fun _ => hWhole, hRecords ▸ hBounded.1, fun _ => hCovered⟩, hBounded.2⟩

theorem Watermarked.appended (h : s.Watermarked) (hOpen : s.log.isOpen = true) {record : LogRecord}
    (hPayload : record.payload.length ≤ LogManager.maxPayload) (hLsn : record.lsn = s.log.nextLsn)
    (hFresh : s.log.durableLsn < s.log.nextLsn) {s' : LogState} (hSound : s'.Sound)
    (hState : s' = s.withFile { s.log with nextLsn := s.log.nextLsn + 1 }
      ⟨s.file.content, s.file.buffer ++ encodeRecord record⟩ s.platform.stable (s.acknowledged ++ [record]) s.flushed) :
    s'.Watermarked ∧ s.log.durableLsn ≤ s'.log.durableLsn := by
  have hBytes : s'.bytes = s.bytes ++ encodeRecord record := by
    rw [hState, bytes_withFile, bytes, List.append_assoc]
  obtain ⟨hRead, hWhole⟩ := (h.whole hOpen).readRecords_append hPayload
  have hRecords : s'.records = s.records ++ [record] := by rw [records, hBytes, hRead, records]
  have hSynced : s'.synced = s.synced := by rw [hState, synced_withFile, synced]
  have hDurable : s'.log.durableLsn = s.log.durableLsn := by rw [hState, log_withFile]
  have hCovered : s'.SyncedThrough s'.log.durableLsn := by
    intro r hMem hLe
    rw [hDurable] at hLe
    rw [hSynced]
    rw [hRecords] at hMem
    obtain hOld | hNew := List.mem_append.mp hMem
    · exact h.covered (h.sound.hasPath hOpen) r hOld hLe
    · rw [List.mem_singleton.mp hNew, hLsn] at hLe
      exact absurd hFresh (UInt64.not_lt.mpr hLe)
  refine ⟨⟨hSound, fun _ => hBytes ▸ hWhole, ?_, fun _ => hCovered⟩, UInt64.le_of_eq hDurable.symm⟩
  rw [hDurable, hRecords, lastLsn_append, hLsn]
  exact UInt64.le_of_lt hFresh

/-- A flush that moves the watermark to `target`. -/
theorem Watermarked.flushed (h : s.Watermarked) (hOpen : s.log.isOpen = true) {target : UInt64} {sync : Fault}
    (hBounded : target ≤ lastLsn s.records) (hSync : sync = .none ∨ s.SyncedThrough target) {flushed : List LogRecord}
    {s' : LogState} (hSound : s'.Sound) (hState : s' = s.withFile { s.log with durableLsn := target } s.file.flushed
      (LogManager.syncedTo sync s.platform.stable s.file.flushed.content) s.acknowledged flushed) : s'.Watermarked := by
  obtain ⟨content, -, hContent, hFlushed⟩ := h.sound.flushed hOpen
  have hBytes : s'.bytes = s.bytes := by
    rw [hState, hFlushed, bytes_withFile, hContent, Option.getD_some, List.append_nil]
  have hRecords : s'.records = s.records := by rw [records, hBytes, records]
  have hDurable : s'.log.durableLsn = target := by rw [hState, log_withFile]
  refine ⟨hSound, fun _ => hBytes ▸ h.whole hOpen, ?_, fun _ => ?_⟩
  · rw [hDurable, hRecords]
    exact hBounded
  · intro r hMem hLe
    rw [hDurable] at hLe
    rw [hRecords] at hMem
    rw [hState, synced_withFile]
    cases sync with
    | none =>
      rw [LogManager.syncedTo, if_pos rfl, Function.update_self, hFlushed, ← hContent, Option.getD_some]
      exact hMem
    | fails kept => exact hSync.resolve_left Fault.noConfusion r hMem hLe

theorem Watermarked.closed (h : s.Watermarked) (hOpen : s.log.isOpen = true) {s' : LogState} (hSound : s'.Sound)
    (hState : s' = s.withFile { s.log with isOpen := false } s.file.flushed s.platform.stable s.acknowledged s.flushed) :
    s'.Watermarked := by
  obtain ⟨content, -, hContent, hFlushed⟩ := h.sound.flushed hOpen
  have hBytes : s'.bytes = s.bytes := by
    rw [hState, hFlushed, bytes_withFile, hContent, Option.getD_some, List.append_nil]
  have hRecords : s'.records = s.records := by rw [records, hBytes, records]
  have hSynced : s'.synced = s.synced := by rw [hState, synced_withFile, synced]
  have hDurable : s'.log.durableLsn = s.log.durableLsn := by rw [hState, log_withFile]
  refine ⟨hSound, fun _ => hBytes ▸ h.whole hOpen, ?_, fun _ => ?_⟩
  · rw [hDurable, hRecords]
    exact h.bounded
  · intro r hMem hLe
    rw [hSynced]
    exact h.covered (h.sound.hasPath hOpen) r (hRecords ▸ hMem) (hDurable ▸ hLe)

theorem watermarked_truncated {sync : Fault} {s' : LogState} (hSound : s'.Sound)
    (hState : s' = s.withFile { s.log with nextLsn := 1, durableLsn := 0 } ⟨some [], []⟩
      (LogManager.syncedTo sync s.platform.stable (some [])) [] []) : s'.Watermarked := by
  have hBytes : s'.bytes = [] := by rw [hState, bytes_withFile, Option.getD_some, List.append_nil]
  have hRecords : s'.records = [] := by
    rw [records, hBytes]
    rfl
  have hDurable : s'.log.durableLsn = 0 := by rw [hState, log_withFile]
  refine ⟨hSound, fun _ => ?_, ?_, fun _ => ?_⟩
  · rw [hBytes]
    decide
  · rw [hDurable]
    exact UInt64.zero_le
  · intro r hMem
    rw [hRecords] at hMem
    exact absurd hMem List.not_mem_nil

/-- One call: the watermark stays sound, and only `Truncate` lowers it. -/
theorem Watermarked.call (h : s.Watermarked) {c : LogCall} (hMarks : s.MarksSynced c) :
    (s.call c).Watermarked ∧ (s.log.durableLsn ≤ (s.call c).log.durableLsn ∨ ∃ sync, c = .truncate sync) := by
  have hEffect := effect_call h.sound c
  have hSound := h.sound.call c
  generalize hState : s.call c = s' at hEffect hSound
  cases hEffect with
  | rested => exact ⟨⟨hSound, h.whole, h.bounded, h.covered⟩, Or.inl (UInt64.le_refl _)⟩
  | opened hClosed =>
    have hDurable : ({ s.log with isOpen := true, hasPath := true } : LogManager).durableLsn = s.log.durableLsn := rfl
    obtain ⟨hMarked, hForward⟩ := h.opened (hMarks hClosed) hDurable hSound rfl
    exact ⟨hMarked, Or.inl hForward⟩
  | appended hOpen hPayload hRecord =>
    obtain ⟨hMarked, hForward⟩ := h.appended hOpen (by rw [hRecord]; exact hPayload) (by rw [hRecord])
      (hMarks hOpen hPayload).2 hSound rfl
    exact ⟨hMarked, Or.inl hForward⟩
  | torn hOpen kept hPayload hPart => exact absurd (hMarks hOpen hPayload).1 Fault.noConfusion
  | flushed hOpen through sync =>
    obtain ⟨hForward, hBounded, hSync⟩ := hMarks hOpen
    exact ⟨h.flushed hOpen hBounded hSync hSound rfl, Or.inl hForward⟩
  | closed hOpen => exact ⟨h.closed hOpen hSound rfl, Or.inl (UInt64.le_refl _)⟩
  | truncated hOpen sync => exact ⟨watermarked_truncated hSound rfl, Or.inr ⟨sync, rfl⟩⟩

theorem Marked.watermarked {d stable : Files.Disk FileId} (h : Marked d stable s) : s.Watermarked := by
  induction h with
  | start => exact ⟨sound_start d stable, fun hOpen => (by cases hOpen), UInt64.zero_le, fun hPath => (by cases hPath)⟩
  | call _ c hMarks ih => exact (ih.call hMarks).1

/-- In a run whose calls meet the condition the watermark is at most the number of the last record, never decreases
except by `Truncate`, and every record up to it was synchronised. -/
theorem durable_lsn_sound {d stable : Files.Disk FileId} (h : Marked d stable s) :
    s.log.durableLsn ≤ lastLsn s.records ∧ (s.log.hasPath = true → s.SyncedThrough s.log.durableLsn) ∧
      ∀ c, s.MarksSynced c → s.log.durableLsn ≤ (s.call c).log.durableLsn ∨ ∃ sync, c = .truncate sync :=
  ⟨h.watermarked.bounded, h.watermarked.covered, fun _ hMarks => (h.watermarked.call hMarks).2⟩

/-- Two appends, a flush of the first of them, and a flush of that one again that fails to synchronise. -/
def flushedTwice : LogState :=
  ((((fresh.call .openLog).call (.append 1 0 .kBegin [] .none)).call (.flush 1 .none)).call
    (.append 1 1 .kCommit [] .none)).call (.flush 1 (.fails 1))

theorem marked_flushedTwice : Marked (fun _ => none) (fun _ => none) flushedTwice := by
  have hStart : Marked (fun _ => none) (fun _ => none) fresh := .start
  have hOpened := hStart.call .openLog (fun _ => by decide +kernel)
  have hAppended := hOpened.call (.append 1 0 .kBegin [] .none) (fun _ _ => ⟨rfl, by decide +kernel⟩)
  have hFlushed := hAppended.call (.flush 1 .none) (fun _ => ⟨by decide +kernel, by decide +kernel, Or.inl rfl⟩)
  have hAgain := hFlushed.call (.append 1 1 .kCommit [] .none) (fun _ _ => ⟨rfl, by decide +kernel⟩)
  exact hAgain.call (.flush 1 (.fails 1)) (fun _ => ⟨by decide +kernel, by decide +kernel, Or.inr (by decide +kernel)⟩)

theorem flushedTwice_sound : flushedTwice.log.durableLsn = 1 ∧
    flushedTwice.log.durableLsn ≤ lastLsn flushedTwice.records ∧ flushedTwice.SyncedThrough flushedTwice.log.durableLsn := by
  have hSound := durable_lsn_sound marked_flushedTwice
  exact ⟨by decide +kernel, hSound.1, hSound.2.1 (by decide +kernel)⟩

/-- A flush that fails to synchronise moves the watermark all the same, and it follows its argument anywhere. -/
theorem failed_sync_marks_record :
    let appended := (fresh.call .openLog).call (.append 1 0 .kBegin [] .none)
    ¬ (appended.call (.flush 0 (.fails 1))).SyncedThrough (appended.call (.flush 0 (.fails 1))).log.durableLsn ∧
      ¬ (appended.call (.flush 7 .none)).log.durableLsn ≤ lastLsn (appended.call (.flush 7 .none)).records ∧
      ¬ (appended.call (.flush 7 .none)).log.durableLsn ≤ ((appended.call (.flush 7 .none)).call (.flush 1 .none)).log.durableLsn :=
  ⟨by decide +kernel, by decide +kernel, by decide +kernel⟩

end LogState

end TupleStone
