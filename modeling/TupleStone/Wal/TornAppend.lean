import TupleStone.Wal.LogState

/-! # Appends that fail halfway

The bytes of a failed append stay in the log. Reading stops in front of them, so a record that is appended after them
is not read back, although its append and its flush succeeded.
-/

set_option autoImplicit false

namespace TupleStone

open OpProgram FrameLog

/-- The bytes are whole records. -/
def EndsWhole (bytes : Bytes) : Prop := validBytes (readRecords bytes) = bytes.length

instance (bytes : Bytes) : Decidable (EndsWhole bytes) := inferInstanceAs (Decidable (_ = _))

theorem EndsWhole.frames {bytes : Bytes} (h : EndsWhole bytes) : Frames nextRecord bytes (readRecords bytes) := by
  obtain ⟨tail, -, -, hFrames, -⟩ := wholePart_split bytes
  have hWhole : wholePart bytes = bytes := by rw [wholePart, h, List.take_length]
  rwa [hWhole] at hFrames

theorem mem_readRecords_append {bytes : Bytes} {record : LogRecord} (h : record ∈ readRecords bytes) (more : Bytes) :
    record ∈ readRecords (bytes ++ more) := by
  obtain ⟨tail, hSplit, -, hFrames, -⟩ := wholePart_split bytes
  have hCount := hFrames.length_le
  have hRead : readRecords (wholePart bytes ++ (tail ++ more)) = readRecords bytes ++ _ :=
    hFrames.readAll_append (tail ++ more) (by rw [List.length_append]; omega)
  rw [hSplit, List.append_assoc, hRead]
  exact List.mem_append_left _ h

theorem EndsWhole.mem_append_frame {bytes : Bytes} (h : EndsWhole bytes) {record : LogRecord}
    (hPayload : record.payload.length ≤ LogManager.maxPayload) : record ∈ readRecords (bytes ++ encodeRecord record) := by
  have hFrames := h.frames.append (.cons (isFrame_encodeRecord hPayload) .nil)
  rw [List.append_nil] at hFrames
  rw [readRecords, hFrames.records_eq nextRecord_lawful]
  exact List.mem_append_right _ (List.mem_singleton_self record)

namespace LogState

/-- An append that succeeds finds whole records in front of it: no bytes of a failed append stand at the end. -/
def AppendsWhole (s : LogState) : LogCall → Prop
  | .append _ _ _ payload .none =>
    s.log.isOpen = true → payload.length ≤ LogManager.maxPayload → EndsWhole s.bytes
  | _ => True

inductive Reached (d stable : Files.Disk FileId) : LogState → Prop where
  | start : Reached d stable (LogState.start d stable)
  | call {s : LogState} (h : Reached d stable s) (c : LogCall) (hWhole : s.AppendsWhole c) : Reached d stable (s.call c)

/-- What was acknowledged is read from what was written, and what was flushed from the file. -/
structure Readable (s : LogState) : Prop where
  sound : s.Sound
  acknowledged : ∀ record ∈ s.acknowledged, record ∈ readRecords s.bytes
  flushed : ∀ record ∈ s.flushed, record ∈ readRecords (s.file.content.getD [])

theorem readable_of_file {s : LogState} {file : Files.FileState} (hSound : s.Sound) (hFile : s.file = file)
    (hAcknowledged : ∀ record ∈ s.acknowledged, record ∈ readRecords (file.content.getD [] ++ file.buffer))
    (hFlushed : ∀ record ∈ s.flushed, record ∈ readRecords (file.content.getD [])) : s.Readable := by
  subst hFile
  exact ⟨hSound, hAcknowledged, hFlushed⟩

theorem Readable.call {s : LogState} (h : s.Readable) {c : LogCall} (hWhole : s.AppendsWhole c) : (s.call c).Readable := by
  have hEffect := effect_call h.sound c
  have hSound := h.sound.call c
  generalize s.call c = s' at hEffect hSound
  cases hEffect with
  | rested => exact ⟨hSound, h.acknowledged, h.flushed⟩
  | opened hClosed =>
    have hBytes : s.file.content.getD [] = s.bytes := by
      rw [bytes, h.sound.unbuffered hClosed, List.append_nil]
    refine readable_of_file hSound (file_withFile _ _ _ _ _) (fun record hMem => ?_) (fun record hMem => ?_)
    · rw [Option.getD_some, List.append_nil, readRecords_wholePart]
      exact h.acknowledged record hMem
    · rw [Option.getD_some, readRecords_wholePart]
      exact hBytes ▸ h.flushed record hMem
  | appended hOpen hPayload hRecord =>
    rename_i record
    have hFits : record.payload.length ≤ LogManager.maxPayload := by
      rw [hRecord]
      exact hPayload
    have hBytes : s.file.content.getD [] ++ (s.file.buffer ++ encodeRecord record) = s.bytes ++ encodeRecord record := by
      rw [bytes, List.append_assoc]
    refine readable_of_file hSound (file_withFile _ _ _ _ _) (fun r hMem => ?_) h.flushed
    dsimp only
    rw [hBytes]
    obtain hOld | hNew := List.mem_append.mp hMem
    · exact mem_readRecords_append (h.acknowledged r hOld) _
    · rw [List.mem_singleton.mp hNew]
      exact (hWhole hOpen hPayload).mem_append_frame hFits
  | torn hOpen kept hPayload hPart =>
    rename_i part
    obtain ⟨content, hFile, hBytes, -⟩ := h.sound.flushed hOpen
    have hContent : (s.file.content.map (· ++ s.file.buffer ++ part)).getD [] = s.bytes ++ part := by
      rw [hFile, hBytes]
      rfl
    have hPrevious : s.file.content.getD [] = content := by rw [hFile, Option.getD_some]
    refine readable_of_file hSound (file_withFile _ _ _ _ _) (fun r hMem => ?_) (fun r hMem => ?_)
    · rw [hContent, List.append_nil]
      exact mem_readRecords_append (h.acknowledged r hMem) _
    · rw [hContent, hBytes, List.append_assoc]
      exact mem_readRecords_append (hPrevious ▸ h.flushed r hMem) _
  | flushed hOpen through sync =>
    obtain ⟨content, hFile, hBytes, hFlushed⟩ := h.sound.flushed hOpen
    have hPrevious : s.file.content.getD [] = content := by rw [hFile, Option.getD_some]
    rw [hFlushed, ← hBytes] at hSound ⊢
    refine readable_of_file hSound (file_withFile _ _ _ _ _) (fun r hMem => ?_) (fun r hMem => ?_)
    · rw [Option.getD_some, List.append_nil]
      exact h.acknowledged r hMem
    · rw [Option.getD_some]
      dsimp only at hMem
      split at hMem
      · exact h.acknowledged r hMem
      · rw [hBytes]
        exact mem_readRecords_append (hPrevious ▸ h.flushed r hMem) _
  | closed hOpen =>
    obtain ⟨content, hFile, hBytes, hFlushed⟩ := h.sound.flushed hOpen
    have hPrevious : s.file.content.getD [] = content := by rw [hFile, Option.getD_some]
    rw [hFlushed, ← hBytes] at hSound ⊢
    refine readable_of_file hSound (file_withFile _ _ _ _ _) (fun r hMem => ?_) (fun r hMem => ?_)
    · rw [Option.getD_some, List.append_nil]
      exact h.acknowledged r hMem
    · rw [Option.getD_some, hBytes]
      exact mem_readRecords_append (hPrevious ▸ h.flushed r hMem) _
  | truncated hOpen sync =>
    exact ⟨hSound, fun r hMem => absurd hMem List.not_mem_nil, fun r hMem => absurd hMem List.not_mem_nil⟩

theorem Reached.readable {d stable : Files.Disk FileId} {s : LogState} (h : Reached d stable s) : s.Readable := by
  induction h with
  | start =>
    exact ⟨sound_start d stable, fun r hMem => absurd hMem List.not_mem_nil, fun r hMem => absurd hMem List.not_mem_nil⟩
  | call _ c hWhole ih => exact ih.call hWhole

/-- What is read when the log is closed and opened again, by the same manager or another. -/
def reopen (s : LogState) (log : LogManager) : Io (Except Status (List LogRecord)) := do
  let _ ← s.log.close
  let (_, log) ← log.openLog
  log.readAll

theorem run_close_file {s : LogState} (hSound : s.Sound) : ∃ content, content.getD [] = s.bytes ∧
    ∃ log, run Files.platform s.log.close { s.platform with faults := [] } =
      (log, ⟨Function.update s.platform.files .wal ⟨content, []⟩, s.platform.stable, []⟩) := by
  cases hOpen : s.log.isOpen with
  | true =>
    obtain ⟨content, -, hBytes, hFlushed⟩ := hSound.flushed hOpen
    have hFile : (s.platform.files .wal).flushed = ⟨some s.bytes, []⟩ := by
      rw [hBytes]
      exact hFlushed
    exact ⟨some s.bytes, rfl, _, by rw [LogManager.run_close hOpen, hFile]⟩
  | false =>
    have hBuffer := hSound.unbuffered hOpen
    have hFile : s.platform.files .wal = ⟨s.file.content, []⟩ := by
      rw [← hBuffer]
      rfl
    refine ⟨s.file.content, by rw [bytes, hBuffer, List.append_nil], s.log, ?_⟩
    rw [← hFile, Function.update_eq_self, LogManager.close, hOpen, if_neg Bool.false_ne_true]
    rfl

theorem run_reopen {s : LogState} (hSound : s.Sound) {log : LogManager} (hClosed : log.isOpen = false) :
    (s.perform (s.reopen log) []).1 = .ok (readRecords s.bytes) := by
  obtain ⟨content, hBytes, _, hClose⟩ := run_close_file hSound
  have hPath := LogManager.hasPath_afterLast { log with isOpen := true, hasPath := true } (readRecords s.bytes)
  rw [perform, reopen]
  dsimp only
  rw [run_bind, hClose]
  dsimp only
  rw [run_bind, LogManager.run_openLog hClosed (Function.update_self _ _ _), hBytes]
  dsimp only
  rw [LogManager.run_readAll hPath (by rw [Function.update_self]) rfl, readRecords_wholePart]

def fresh : LogState := start (fun _ => none) (fun _ => none)

/-- An append, a flush, an append that fails after a byte, and an open that repairs the log. -/
def repaired : LogState :=
  ((((((fresh.call .openLog).call (.append 1 0 .kBegin [] .none)).call (.flush 0 .none)).call
    (.append 1 1 .kCommit [] (.fails 1))).call .close).call .openLog).call (.append 1 1 .kCommit [] .none)

theorem reached_repaired : Reached (fun _ => none) (fun _ => none) repaired := by
  have hStart : Reached (fun _ => none) (fun _ => none) fresh := .start
  have hOpened := hStart.call .openLog trivial
  have hAppended := hOpened.call (.append 1 0 .kBegin [] .none) (fun _ _ => by decide +kernel)
  have hFlushed := hAppended.call (.flush 0 .none) trivial
  have hTorn := hFlushed.call (.append 1 1 .kCommit [] (.fails 1)) trivial
  have hClosed := hTorn.call .close trivial
  have hReopened := hClosed.call .openLog trivial
  exact hReopened.call (.append 1 1 .kCommit [] .none) (fun _ _ => by decide +kernel)

/-- Without the repair the record that is appended next is flushed and cannot be read. -/
def torn : LogState :=
  (((fresh.call .openLog).call (.append 1 0 .kBegin [] (.fails 1))).call (.append 1 0 .kBegin [] .none)).call (.flush 0 .none)

end LogState

end TupleStone
