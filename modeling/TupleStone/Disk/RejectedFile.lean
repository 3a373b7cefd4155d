import TupleStone.Disk.Header

/-! # Files that `Open` rejects

A file of a wrong size is closed again. Where the header is rejected the stream stays open, and `Close` and the
destructor write the fields of the manager over the first page.
-/

set_option autoImplicit false

namespace TupleStone

open RandomAccess

namespace Disk

variable {s : Disk} {bytes path : Bytes} {create : Bool}

/-- A header that is not accepted changes nothing. -/
theorem readHeaderLocked_rejected (h : s.readHeaderLocked.1 ≠ .ok) : s.readHeaderLocked.2 = s := by
  rw [readHeaderLocked] at h ⊢
  split at h
  · rfl
  · split_ifs at h ⊢
    · rfl
    · rfl
    · rfl
    · exact absurd rfl h

/-- The open stream over the file. -/
def opened (s : Disk) (path bytes : Bytes) : Disk := { s with path := path, isOpen := true, file := some bytes }

theorem openPath_existing (hClosed : s.isOpen = false) (hFile : s.file = some bytes) :
    s.openPath path create = (s.opened path bytes).openStream := by
  rw [openPath, hClosed, if_neg Bool.false_ne_true, hFile, Option.isSome_some, Bool.true_or, if_pos rfl, Disk.bytes, hFile]
  rfl

theorem openStream_wrong_size (hBytes : s.bytes = bytes) (hNonempty : bytes.length ≠ 0)
    (hSize : bytes.length < kPageSize ∨ bytes.length % kPageSize ≠ 0) :
    s.openStream = (.corruption (ascii "database file has an invalid size"), { s with isOpen := false }) := by
  rw [openStream, hBytes, if_neg hNonempty, if_pos hSize]

theorem openStream_right_size (hBytes : s.bytes = bytes) (hNonempty : bytes.length ≠ 0)
    (hSize : ¬ (bytes.length < kPageSize ∨ bytes.length % kPageSize ≠ 0)) : s.openStream = s.readHeaderLocked := by
  rw [openStream, hBytes, if_neg hNonempty, if_neg hSize]

/-- An empty file is not rejected. -/
theorem openStream_empty (hOpen : s.isOpen = true) (hBytes : s.bytes.length = 0) : s.openStream.1 = .ok := by
  have hLength : ({ s with
      pageCount := 1
      freeListHead := kInvalidPageId
      nextTxnId := 1
      nextTableId := 1
      nextIndexId := 1 } : Disk).isOpen = true := hOpen
  rw [openStream, if_pos hBytes, writeHeaderLocked_of_open hLength]
  rfl

/-- Closing a manager that rejected the header of its file changes the file. -/
theorem close_after_rejected (hOpen : s.isOpen = true) (hFile : s.file = some bytes)
    (hReject : s.readHeaderLocked.1 ≠ .ok) : s.readHeaderLocked.2.close.2.file ≠ some bytes := by
  have hBytes : s.bytes = bytes := by rw [Disk.bytes, hFile, Option.getD_some]
  rw [readHeaderLocked_rejected hReject, close, if_pos hOpen, writeHeaderLocked_of_open hOpen]
  intro hSame
  have hWritten : writeAt 0 bytes 0 s.header = bytes := by
    have hFiles : some (writeAt 0 s.bytes 0 s.header) = some bytes := hSame
    rw [hBytes] at hFiles
    exact Option.some.inj hFiles
  have hRead : s.read 0 kPageSize = some s.header := by
    have hBack := readAt_writeAt_same 0 bytes s.header 0
    rw [hWritten, s.length_header] at hBack
    rw [read, if_pos hOpen, hBytes, hBack]
  exact hReject (by rw [readHeaderLocked_of_isHeader hRead s.isHeader_header])

/-- A file that `Open` rejects is left alone by `Close` and by the destructor exactly when its size is wrong. -/
theorem rejected_file_kept_iff (hClosed : s.isOpen = false) (hFile : s.file = some bytes)
    (hError : (s.openPath path create).1 ≠ .ok) :
    ((s.openPath path create).2.close.2.file = some bytes ∧ (s.openPath path create).2.restarted.file = some bytes) ↔
      (bytes.length < kPageSize ∨ bytes.length % kPageSize ≠ 0) := by
  have hBytes : (s.opened path bytes).bytes = bytes := rfl
  rw [openPath_existing hClosed hFile] at hError ⊢
  have hNonempty : bytes.length ≠ 0 := fun hZero => hError (openStream_empty rfl (hBytes ▸ hZero))
  rw [restarted, and_self]
  by_cases hSize : bytes.length < kPageSize ∨ bytes.length % kPageSize ≠ 0
  · rw [openStream_wrong_size hBytes hNonempty hSize]
    exact iff_of_true rfl hSize
  · rw [openStream_right_size hBytes hNonempty hSize] at hError ⊢
    exact iff_of_false (close_after_rejected rfl rfl hError) hSize

theorem rejected_byte_kept : ((({ file := some [0] } : Disk).openPath [] true).2.close.2.file = some [0] ∧
    (({ file := some [0] } : Disk).openPath [] true).2.restarted.file = some [0]) ↔
      (([0] : Bytes).length < kPageSize ∨ ([0] : Bytes).length % kPageSize ≠ 0) :=
  rejected_file_kept_iff rfl rfl (by decide)

/-- A page of zeros has not the magic of the header, and is overwritten by one. -/
theorem rejected_zeros_overwritten :
    (({ file := some Page.reset.data } : Disk).openPath [] true).1 = .incompatible (ascii "not a tuplestone database") ∧
      (({ file := some Page.reset.data } : Disk).openPath [] true).2.close.2.file ≠ some Page.reset.data := by
  have hSize := Page.reset.size
  have hLong : ¬ (Page.reset.data.length < kPageSize ∨ Page.reset.data.length % kPageSize ≠ 0) := by
    rw [hSize]
    decide
  have hNonempty : Page.reset.data.length ≠ 0 := by
    rw [hSize]
    decide
  generalize hOpened : ({ file := some Page.reset.data } : Disk).opened [] Page.reset.data = opened
  have hOpen : opened.isOpen = true := hOpened ▸ rfl
  have hFile : opened.file = some Page.reset.data := hOpened ▸ rfl
  have hBytes : opened.bytes = Page.reset.data := hOpened ▸ rfl
  have hHeader : opened.readHeaderLocked.1 = .incompatible (ascii "not a tuplestone database") := by
    have hRead : opened.read 0 kPageSize = some Page.reset.data := by
      rw [read, if_pos hOpen, readAt, hBytes, hSize, if_pos (by decide), List.drop_zero, ← hSize, List.take_length]
    have hMagic : Page.reset.data.take 8 ≠ kMagic := by
      rw [Page.reset, List.take_replicate]
      decide +kernel
    rw [readHeaderLocked, hRead]
    simp only [if_pos hMagic]
  rw [openPath_existing rfl rfl, hOpened, openStream_right_size hBytes hNonempty hLong]
  refine ⟨hHeader, close_after_rejected hOpen hFile ?_⟩
  rw [hHeader]
  exact Status.noConfusion

end Disk

end TupleStone
