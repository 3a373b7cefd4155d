import TupleStone.Disk.DiskManager

/-! # The header of the disk manager

What `WriteHeaderLocked` writes, `ReadHeaderLocked` accepts and reads back.
-/

set_option autoImplicit false

namespace TupleStone

open RandomAccess

theorem field32 {bytes rest : Bytes} {n : Nat} {v : UInt32} (h : bytes.drop n = storeU32LE v ++ rest) :
    loadU32LE (bytes.drop n) = v ∧ bytes.drop (n + 4) = rest := by
  constructor
  · rw [h, loadU32LE_storeU32LE]
  · rw [← List.drop_drop, h, List.drop_append_of_le_length (Nat.le_of_eq (length_storeU32LE v).symm),
      List.drop_of_length_le (Nat.le_of_eq (length_storeU32LE v)), List.nil_append]

theorem field64 {bytes rest : Bytes} {n : Nat} {v : UInt64} (h : bytes.drop n = storeU64LE v ++ rest) :
    loadU64LE (bytes.drop n) = v ∧ bytes.drop (n + 8) = rest := by
  constructor
  · rw [h, loadU64LE_storeU64LE]
  · rw [← List.drop_drop, h, List.drop_append_of_le_length (Nat.le_of_eq (length_storeU64LE v).symm),
      List.drop_of_length_le (Nat.le_of_eq (length_storeU64LE v)), List.nil_append]

namespace DiskManager

variable (disk : DiskManager)

theorem length_kMagic : kMagic.length = 8 := by decide +kernel

theorem length_headerFields : disk.headerFields.length = 4092 := by
  simp only [headerFields, List.length_append, length_kMagic, length_storeU32LE, length_storeU64LE, List.length_replicate,
    List.length_cons, List.length_nil]

theorem length_header : disk.header.length = kPageSize := by
  rw [header, List.length_append, length_headerFields, length_storeU32LE]
  rfl

/-- The fields of the header are those of the manager. -/
structure IsHeader (bytes : Bytes) : Prop where
  magic : bytes.take 8 = kMagic
  version : bytes[8]? = some kFormatVersion
  pageSizeLog2 : bytes[9]? = some kPageSizeLog2
  checksum : loadU32LE (bytes.drop 4092) = crc32c (bytes.take 4092)
  pageCount : loadU32LE (bytes.drop 12) = disk.pageCount
  freeListHead : loadU32LE (bytes.drop 16) = disk.freeListHead
  nextTxnId : loadU64LE (bytes.drop 20) = disk.nextTxnId
  checkpointLsn : loadU64LE (bytes.drop 28) = disk.checkpointLsn
  nextTableId : loadU32LE (bytes.drop 36) = disk.nextTableId
  nextIndexId : loadU32LE (bytes.drop 40) = disk.nextIndexId
  catalogRoots : (loadU32LE (bytes.drop 44), loadU32LE (bytes.drop 48), loadU32LE (bytes.drop 52)) = disk.catalogRoots

theorem header_eq : ∃ rest, disk.header = kMagic ++ ([kFormatVersion, kPageSizeLog2, 0, 0] ++ (storeU32LE disk.pageCount ++
    (storeU32LE disk.freeListHead ++ (storeU64LE disk.nextTxnId ++ (storeU64LE disk.checkpointLsn ++
      (storeU32LE disk.nextTableId ++ (storeU32LE disk.nextIndexId ++ (storeU32LE disk.catalogRoots.1 ++
        (storeU32LE disk.catalogRoots.2.1 ++ (storeU32LE disk.catalogRoots.2.2 ++ rest)))))))))) := by
  refine ⟨List.replicate 4036 0 ++ storeU32LE (crc32c disk.headerFields), ?_⟩
  simp only [header, headerFields, List.append_assoc]

theorem isHeader_header : disk.IsHeader disk.header := by
  have hTake : disk.header.take 4092 = disk.headerFields := by
    rw [header, ← disk.length_headerFields, List.take_left]
  have hDrop : disk.header.drop 4092 = storeU32LE (crc32c disk.headerFields) := by
    rw [header, ← disk.length_headerFields, List.drop_left]
  have hChecksum : loadU32LE (disk.header.drop 4092) = crc32c (disk.header.take 4092) := by
    have hLoad := loadU32LE_storeU32LE (crc32c disk.headerFields) []
    rw [hDrop, hTake, ← List.append_nil (storeU32LE _), hLoad]
  obtain ⟨rest, hBytes⟩ := disk.header_eq
  generalize disk.header = bytes at hBytes hChecksum
  have hMagic : kMagic.length = 8 := length_kMagic
  have hEight := congrArg (List.drop 8) hBytes
  have hTwelve : bytes.drop 12 = (bytes.drop 8).drop 4 := by rw [List.drop_drop]
  rw [← hMagic, List.drop_left, hMagic] at hEight
  rw [hEight, List.drop_left' (by rfl)] at hTwelve
  have hVersions (i : Nat) : (bytes.drop 8)[i]? = bytes[8 + i]? := List.getElem?_drop
  obtain ⟨hPageCount, h16⟩ := field32 hTwelve
  obtain ⟨hFreeListHead, h20⟩ := field32 h16
  obtain ⟨hNextTxnId, h28⟩ := field64 h20
  obtain ⟨hCheckpointLsn, h36⟩ := field64 h28
  obtain ⟨hNextTableId, h40⟩ := field32 h36
  obtain ⟨hNextIndexId, h44⟩ := field32 h40
  obtain ⟨hCatalog, h48⟩ := field32 h44
  obtain ⟨hIndexes, h52⟩ := field32 h48
  obtain ⟨hRoots, -⟩ := field32 h52
  refine ⟨?_, ?_, ?_, hChecksum, hPageCount, hFreeListHead, hNextTxnId, hCheckpointLsn, hNextTableId, hNextIndexId, ?_⟩
  · rw [hBytes, ← hMagic, List.take_left]
  · rw [← hVersions 0, hEight]
    rfl
  · rw [← hVersions 1, hEight]
    rfl
  · rw [hCatalog, hIndexes, hRoots]

/-- A header belongs to one setting of the fields. -/
theorem IsHeader.fields {disk disk' : DiskManager} {bytes : Bytes} (h : disk.IsHeader bytes) (h' : disk'.IsHeader bytes) :
    disk' = { disk with isOpen := disk'.isOpen, path := disk'.path } := by
  obtain ⟨isOpen, path, pageCount, freeListHead, nextTxnId, checkpointLsn, nextTableId, nextIndexId, catalogRoots⟩ := disk'
  rw [DiskManager.mk.injEq]
  exact ⟨rfl, rfl, h'.pageCount.symm.trans h.pageCount, h'.freeListHead.symm.trans h.freeListHead,
    h'.nextTxnId.symm.trans h.nextTxnId, h'.checkpointLsn.symm.trans h.checkpointLsn,
    h'.nextTableId.symm.trans h.nextTableId, h'.nextIndexId.symm.trans h.nextIndexId,
    h'.catalogRoots.symm.trans h.catalogRoots⟩

end DiskManager

namespace Disk

variable {s : Disk}

/-- The manager over another content of its file. -/
def withFile (s : Disk) (bytes : Bytes) : Disk := ⟨s.toDiskManager, some bytes⟩

@[simp] theorem bytes_withFile (s : Disk) (bytes : Bytes) : (s.withFile bytes).bytes = bytes := rfl

@[simp] theorem file_withFile (s : Disk) (bytes : Bytes) : (s.withFile bytes).file = some bytes := rfl

@[simp] theorem toDiskManager_withFile (s : Disk) (bytes : Bytes) : (s.withFile bytes).toDiskManager = s.toDiskManager := rfl

theorem writeHeaderLocked_of_open (h : s.isOpen = true) :
    s.writeHeaderLocked = (.ok, s.withFile (writeAt 0 s.bytes 0 s.header)) := by
  rw [writeHeaderLocked, if_pos h, write, if_pos h]
  rfl

/-- What is accepted is a header, and the manager takes its fields. -/
theorem readHeaderLocked_of_isHeader {bytes : Bytes} {disk : DiskManager} (hRead : s.read 0 kPageSize = some bytes)
    (h : disk.IsHeader bytes) : s.readHeaderLocked = (.ok, ⟨{ disk with isOpen := s.isOpen, path := s.path }, s.file⟩) := by
  have hVersion : ¬ (bytes[8]? ≠ some kFormatVersion ∨ bytes[9]? ≠ some kPageSizeLog2) := by
    rintro (hNe | hNe)
    · exact hNe h.version
    · exact hNe h.pageSizeLog2
  simp only [readHeaderLocked, hRead]
  rw [if_neg (not_not.mpr h.magic), if_neg hVersion, if_neg (not_not.mpr h.checksum), h.pageCount, h.freeListHead,
    h.nextTxnId, h.checkpointLsn, h.nextTableId, h.nextIndexId, h.catalogRoots]

end Disk

end TupleStone
