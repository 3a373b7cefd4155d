import TupleStone.Wal.LogRuns

/-! # Opening, appending and reading agree

Whatever bytes the file holds, opening keeps the longest beginning that is a sequence of records; what is appended
after it is read back, and so it is after the log is opened again.
-/

set_option autoImplicit false

namespace TupleStone

open OpProgram FrameLog

/-- The arguments of an `Append` whose payload the log takes. -/
structure Entry where
  txnId : UInt64
  prevLsn : UInt64
  type : LogRecordType
  payload : Bytes
  fits : payload.length ≤ LogManager.maxPayload

def Entry.record (entry : Entry) (lsn : UInt64) : LogRecord :=
  ⟨lsn, entry.txnId, entry.prevLsn, entry.type.toByte, entry.payload⟩

/-- The records of entries that are numbered from `lsn` on. -/
def stamped (lsn : UInt64) : List Entry → List LogRecord
  | [] => []
  | entry :: entries => entry.record lsn :: stamped (lsn + 1) entries

theorem length_stamped (lsn : UInt64) (entries : List Entry) : (stamped lsn entries).length = entries.length := by
  induction entries generalizing lsn with
  | nil => rfl
  | cons entry entries ih => rw [stamped, List.length_cons, List.length_cons, ih]

theorem wholeRecords_stamped (lsn : UInt64) (entries : List Entry) :
    WholeRecords ((stamped lsn entries).map encodeRecord).flatten (stamped lsn entries) := by
  refine ⟨?_, rfl⟩
  induction entries generalizing lsn with
  | nil => exact fun _ hMem => absurd hMem List.not_mem_nil
  | cons entry entries ih => exact List.forall_mem_cons.mpr ⟨entry.fits, ih (lsn + 1)⟩

/-- Without a wrap of the counter the numbers increase. -/
theorem stamped_increasing (lsn : UInt64) (entries : List Entry) (h : lsn.toNat + entries.length ≤ 2 ^ 64) :
    (stamped lsn entries).Pairwise (fun r r' => r.lsn < r'.lsn) ∧ ∀ r ∈ stamped lsn entries, lsn ≤ r.lsn := by
  induction entries generalizing lsn with
  | nil => exact ⟨.nil, fun _ hMem => absurd hMem List.not_mem_nil⟩
  | cons entry entries ih =>
    rw [List.length_cons] at h
    cases entries with
    | nil =>
      constructor
      · exact List.pairwise_singleton _ _
      · intro r hMem
        rw [stamped, stamped, List.mem_singleton] at hMem
        rw [hMem]
        exact UInt64.le_refl _
    | cons next entries =>
      rw [List.length_cons] at h
      have hNext : (lsn + 1).toNat = lsn.toNat + 1 := by
        rw [UInt64.toNat_add]
        exact Nat.mod_eq_of_lt (by simp; omega)
      obtain ⟨hPairwise, hLower⟩ := ih (lsn + 1) (by rw [hNext, List.length_cons]; omega)
      have hLess : lsn < lsn + 1 := by
        rw [UInt64.lt_iff_toNat_lt, hNext]
        omega
      constructor
      · rw [stamped, List.pairwise_cons]
        exact ⟨fun r hMem => UInt64.lt_of_lt_of_le hLess (hLower r hMem), hPairwise⟩
      · intro r hMem
        rw [stamped] at hMem
        obtain rfl | hMem := List.mem_cons.mp hMem
        · exact UInt64.le_refl _
        · exact UInt64.le_trans (UInt64.le_of_lt hLess) (hLower r hMem)

namespace LogManager

def appendAll (log : LogManager) : List Entry → Io (List (Except Status UInt64) × LogManager)
  | [] => pure ([], log)
  | entry :: entries => do
    let (result, log) ← log.append entry.txnId entry.prevLsn entry.type entry.payload
    let (results, log) ← appendAll log entries
    pure (result :: results, log)

variable (stable : Files.Disk FileId)

theorem run_appendAll {log : LogManager} (hOpen : log.isOpen = true) (entries : List Entry) (w : Files.World FileId) :
    ∃ nextLsn, run Files.platform (log.appendAll entries) ⟨w, stable, []⟩ =
      (((stamped log.nextLsn entries).map (fun r => .ok r.lsn), { log with nextLsn := nextLsn }),
        ⟨Function.update w .wal ⟨(w .wal).content, (w .wal).buffer ++
          ((stamped log.nextLsn entries).map encodeRecord).flatten⟩, stable, []⟩) := by
  induction entries generalizing log w with
  | nil =>
    refine ⟨log.nextLsn, ?_⟩
    rw [appendAll, stamped, List.map_nil, List.map_nil, List.flatten_nil, List.append_nil, Function.update_eq_self]
    rfl
  | cons entry entries ih =>
    have hNext : { log with nextLsn := log.nextLsn + 1 }.isOpen = true := hOpen
    obtain ⟨nextLsn, hRest⟩ := ih hNext (Function.update w .wal ⟨(w .wal).content, (w .wal).buffer ++
      encodeRecord (entry.record log.nextLsn)⟩)
    refine ⟨nextLsn, ?_⟩
    rw [appendAll, run_bind, run_append hOpen _ _ _ entry.fits rfl]
    dsimp only [List.tail]
    rw [run_bind]
    rw [Entry.record] at hRest
    rw [hRest]
    simp [stamped, Entry.record, Function.update_idem]

/-- Nothing fails while a file is opened, entries are appended and flushed, and the log is closed and opened again. -/
theorem open_append_read (d : Files.Disk FileId) (entries : List Entry) (through : UInt64) :
    let bytes := (d .wal).getD []
    let opened := run Files.platform (openLog {}) ⟨Files.ofDisk d, stable, []⟩
    let appended := run Files.platform (opened.1.2.appendAll entries) opened.2
    let flushed := run Files.platform (appended.1.2.flush through) appended.2
    let closed := run Files.platform flushed.1.2.close flushed.2
    let reopened := run Files.platform (openLog {}) closed.2
    let kept := wholePart bytes
    let records := readRecords bytes ++ stamped opened.1.2.nextLsn entries
    (opened.1.1 = .ok ∧ (opened.2.files .wal).content = some kept ∧ kept <+: bytes ∧
      WholeRecords kept (readRecords bytes) ∧
      ∀ whole rs, WholeRecords whole rs → whole <+: bytes → whole.length ≤ kept.length) ∧
    (appended.1.1 = (stamped opened.1.2.nextLsn entries).map (fun r => .ok r.lsn) ∧ flushed.1.1 = .ok ∧
      (run Files.platform flushed.1.2.readAll flushed.2).1 = .ok records) ∧
    (reopened.1.1 = .ok ∧ (reopened.2.files .wal).content = (flushed.2.files .wal).content ∧
      (run Files.platform reopened.1.2.readAll reopened.2).1 = .ok records) ∧
    (readRecords bytes = [] → ((flushed.2.files .wal).content.getD []).length < 2 ^ 63 →
      records.Pairwise (fun r r' => r.lsn < r'.lsn)) := by
  intro bytes opened appended flushed closed reopened kept records
  obtain ⟨tail, hBytes, -, hKept, -⟩ := wholePart_split bytes
  let more : Bytes := ((stamped opened.1.2.nextLsn entries).map encodeRecord).flatten
  have hOpened : opened = ((.ok, { isOpen := true, hasPath := true : LogManager }.afterLast (readRecords bytes)),
      ⟨Function.update (Files.ofDisk d) .wal ⟨some kept, []⟩, stable, []⟩) := run_openLog rfl rfl
  have hOpen : opened.1.2.isOpen = true := by rw [hOpened]; exact isOpen_afterLast _ _
  have hPath : opened.1.2.hasPath = true := by rw [hOpened]; exact hasPath_afterLast _ _
  have hPlatform : opened.2 = ⟨Function.update (Files.ofDisk d) .wal ⟨some kept, []⟩, stable, []⟩ := by rw [hOpened]
  obtain ⟨nextLsn, hRun⟩ := run_appendAll stable hOpen entries (Function.update (Files.ofDisk d) .wal ⟨some kept, []⟩)
  have hAppended : appended = (((stamped opened.1.2.nextLsn entries).map (fun r => .ok r.lsn),
      { opened.1.2 with nextLsn := nextLsn }), ⟨Function.update (Files.ofDisk d) .wal ⟨some kept, more⟩, stable, []⟩) := by
    simp only [appended, hPlatform, hRun, Function.update_self, Function.update_idem, List.nil_append, more]
  have hLog : appended.1.2.isOpen = true ∧ appended.1.2.hasPath = true := by rw [hAppended]; exact ⟨hOpen, hPath⟩
  have hFlushed : flushed = ((.ok, { appended.1.2 with durableLsn := appended.1.2.watermark through }),
      ⟨Function.update (Files.ofDisk d) .wal ⟨some (kept ++ more), []⟩,
        Function.update stable .wal (some (kept ++ more)), []⟩) := by
    have hHere : appended.2 = ⟨Function.update (Files.ofDisk d) .wal ⟨some kept, more⟩, stable, []⟩ := by rw [hAppended]
    simp only [flushed, hHere]
    rw [run_flush hLog.1 through .none rfl rfl]
    simp [Files.FileState.flushed, syncStatus, syncedTo]
  have hClosed : closed.2 = ⟨Function.update (Files.ofDisk d) .wal ⟨some (kept ++ more), []⟩,
      Function.update stable .wal (some (kept ++ more)), []⟩ := by
    have hStill : flushed.1.2.isOpen = true := by rw [hFlushed]; exact hLog.1
    have hHere : flushed.2 = _ := congrArg Prod.snd hFlushed
    simp only [closed, hHere]
    rw [run_close hStill]
    simp [Files.FileState.flushed]
  have hFrames : Frames nextRecord (kept ++ more) records :=
    hKept.append (frames_iff_wholeRecords.mpr (wholeRecords_stamped _ entries))
  have hRecords : readRecords (kept ++ more) = records := hFrames.records_eq nextRecord_lawful
  have hWhole : wholePart (kept ++ more) = kept ++ more := by
    rw [wholePart, hRecords, validBytes_of_frames hFrames, List.take_length]
  have hReopened : reopened = ((.ok, { isOpen := true, hasPath := true : LogManager }.afterLast records),
      ⟨Function.update (Files.ofDisk d) .wal ⟨some (kept ++ more), []⟩,
        Function.update stable .wal (some (kept ++ more)), []⟩) := by
    simp only [reopened, hClosed]
    rw [run_openLog rfl (Function.update_self _ _ _)]
    simp [hRecords, hWhole]
  refine ⟨⟨?_, ?_, ?_, ?_, ?_⟩, ⟨?_, ?_, ?_⟩, ⟨?_, ?_, ?_⟩, ?_⟩
  · rw [hOpened]
  · simp only [hOpened, Function.update_self]
  · exact ⟨tail, hBytes.symm⟩
  · exact frames_iff_wholeRecords.mp hKept
  · exact fun whole rs hRs hStart => wholePart_longest hRs hStart
  · rw [hAppended]
  · rw [hFlushed]
  · have hStill : flushed.1.2.hasPath = true := by rw [hFlushed]; exact hLog.2
    have hHere : flushed.2 = _ := congrArg Prod.snd hFlushed
    rw [hHere, run_readAll hStill (by rw [Function.update_self]) rfl, hRecords]
  · rw [hReopened]
  · rw [hReopened, hFlushed]
  · have hStill : reopened.1.2.hasPath = true := by rw [hReopened]; exact hasPath_afterLast _ _
    have hHere : reopened.2 = _ := congrArg Prod.snd hReopened
    rw [hHere, run_readAll hStill (by rw [Function.update_self]) rfl, hRecords]
  · intro hEmpty hSize
    have hFirst : opened.1.2.nextLsn = 1 := by rw [hOpened, hEmpty]; rfl
    have hCount := hFrames.length_le
    have hLength : records.length = entries.length := by
      simp only [records, hEmpty, List.nil_append, length_stamped]
    simp only [hFlushed, Function.update_self, Option.getD_some] at hSize
    simp only [records, hEmpty, List.nil_append, hFirst]
    exact (stamped_increasing 1 entries (by simp; omega)).1

end LogManager

end TupleStone
