import TupleStone.Disk.PageStore

/-! # Calls whose reads and writes fail

`AllocatePage` and `FreePage` change the fields of the manager between two operations on the file, each of which may
fail. A failed write leaves some file or other.
-/

set_option autoImplicit false

namespace TupleStone

open Disk

/-- What fails during a call, with the file that a failed write leaves. -/
structure Faults where
  readFreePage : Bool := false
  writePage : Option (Option Bytes) := none
  writeHeader : Option (Option Bytes) := none

namespace Faults

def writePageLocked (faults : Faults) (s : Disk) (pageId : UInt32) (page : Page) : Status × Disk :=
  match faults.writePage with
  | some file =>
    if s.isOpen ∧ s.ensurePageLocked pageId = .ok then (ioFailure "write page" s.path, { s with file := file })
    else s.writePageLocked pageId page
  | none => s.writePageLocked pageId page

def writeHeaderLocked (faults : Faults) (s : Disk) : Status × Disk :=
  match faults.writeHeader with
  | some file => if s.isOpen then (ioFailure "write header" s.path, { s with file := file }) else s.writeHeaderLocked
  | none => s.writeHeaderLocked

def takePage (faults : Faults) (s : Disk) : Except Status UInt32 × Disk :=
  if s.freeListHead ≠ kInvalidPageId ∧ faults.readFreePage then (.error (ioFailure "read free page" s.path), s)
  else s.takePage

def allocatePage (faults : Faults) (s : Disk) : Except Status UInt32 × Disk :=
  if s.isOpen then
    match faults.takePage s with
    | (.error status, s) => (.error status, s)
    | (.ok result, s) =>
      match faults.writePageLocked s result (.free result kInvalidPageId) with
      | (.ok, s) =>
        match faults.writeHeaderLocked s with
        | (.ok, s) => (.ok result, s)
        | (status, s) => (.error status, s)
      | (status, s) => (.error status, s)
  else (.error (.ioError (ascii "database is not open")), s)

def freePage (faults : Faults) (s : Disk) (pageId : UInt32) : Status × Disk :=
  match s.ensurePageLocked pageId with
  | .ok =>
    if pageId = kHeaderPageId then (.invalidArgument (ascii "cannot free header page"), s)
    else
      match faults.writePageLocked s pageId (.free pageId s.freeListHead) with
      | (.ok, s) => faults.writeHeaderLocked { s with freeListHead := pageId }
      | (status, s) => (status, s)
  | status => (status, s)

/-! ## Without faults -/

theorem allocatePage_noFault (s : Disk) : allocatePage {} s = s.allocatePage := by
  have hTake : takePage {} s = s.takePage := if_neg (fun h => Bool.false_ne_true h.2)
  rw [allocatePage, hTake]
  rfl

theorem freePage_noFault (s : Disk) (pageId : UInt32) : freePage {} s pageId = s.freePage pageId := rfl

/-! ## What the operations keep -/

variable {faults : Faults} {s t : Disk} {id : UInt32}

theorem ioFailure_ne_ok (operation : String) (path : Bytes) : ioFailure operation path ≠ .ok := Status.noConfusion

/-- Writing a page changes the file at most. -/
theorem writePageLocked_form (faults : Faults) (id : UInt32) (hOpen : s.isOpen = true) (page : Page) :
    ∃ status file, faults.writePageLocked s id page = (status, { s with file := file }) ∧
      (status = .ok ↔ faults.writePage = none ∧ id < s.pageCount) := by
  by_cases hLt : id < s.pageCount
  · have hRange := ensurePageLocked_of_lt hLt
    cases hWrite : faults.writePage with
    | none =>
      refine ⟨.ok, some (RandomAccess.writeAt 0 s.bytes (pageOffset id)
        (if id = kHeaderPageId then page.data else page.body.image)), ?_, by simp [hLt]⟩
      simp only [writePageLocked, hWrite, Disk.writePageLocked, hRange, write, if_pos hOpen]
    | some file =>
      refine ⟨ioFailure "write page" s.path, file, ?_, by simp [ioFailure_ne_ok]⟩
      simp only [writePageLocked, hWrite, if_pos (And.intro hOpen hRange)]
  · have hRefused := writePageLocked_of_not_lt hLt page
    have hRange : s.ensurePageLocked id ≠ .ok := by
      rw [ensurePageLocked_of_not_lt hLt]
      exact Status.noConfusion
    refine ⟨.outOfRange (ascii "page id is out of range"), s.file, ?_, by simp [hLt, Status.outOfRange]⟩
    cases hWrite : faults.writePage with
    | none => simp only [writePageLocked, hWrite, hRefused]
    | some file => simp only [writePageLocked, hWrite, if_neg (fun h : s.isOpen = true ∧ _ => hRange h.2), hRefused]

theorem writeHeaderLocked_form (faults : Faults) (hOpen : s.isOpen = true) :
    ∃ status file, faults.writeHeaderLocked s = (status, { s with file := file }) ∧
      (status = .ok ↔ faults.writeHeader = none) := by
  cases hWrite : faults.writeHeader with
  | none =>
    refine ⟨.ok, some (RandomAccess.writeAt 0 s.bytes 0 s.header), ?_, by simp⟩
    rw [writeHeaderLocked, hWrite]
    exact writeHeaderLocked_of_open hOpen
  | some file =>
    refine ⟨ioFailure "write header" s.path, file, ?_, by simp [ioFailure_ne_ok]⟩
    simp only [writeHeaderLocked, hWrite, if_pos hOpen]

/-- Once a page is taken, the fields stay whatever fails. -/
theorem allocatePage_taken (hOpen : s.isOpen = true) (hTake : faults.takePage s = (.ok id, t)) (hTaken : t.isOpen = true) :
    ∃ result file, faults.allocatePage s = (result, { t with file := file }) ∧
      ((∃ status, result = .error status) ↔
        ¬ (faults.writePage = none ∧ faults.writeHeader = none ∧ id < t.pageCount)) := by
  obtain ⟨status, file, hPage, hPageOk⟩ := writePageLocked_form faults id hTaken (.free id kInvalidPageId)
  rw [allocatePage, if_pos hOpen]
  cases status with
  | ok =>
    obtain ⟨hWrite, hLt⟩ := hPageOk.mp rfl
    obtain ⟨status, file', hHeader, hHeaderOk⟩ :=
      writeHeaderLocked_form faults (s := { t with file := file }) hTaken
    cases status with
    | ok => exact ⟨.ok id, file', by simp only [hTake, hPage, hHeader], by simp [hWrite, hLt, hHeaderOk.mp rfl]⟩
    | error code message =>
      refine ⟨.error (.error code message), file', by simp only [hTake, hPage, hHeader], ?_⟩
      refine iff_of_true ⟨_, rfl⟩ (fun h => ?_)
      cases hHeaderOk.mpr h.2.1
  | error code message =>
    refine ⟨.error (.error code message), file, by simp only [hTake, hPage], ?_⟩
    refine iff_of_true ⟨_, rfl⟩ (fun h => ?_)
    cases hPageOk.mpr ⟨h.1, h.2.2⟩

/-! ## Clean failures -/

def SameFields (s t : Disk) : Prop := t.pageCount = s.pageCount ∧ t.freeListHead = s.freeListHead

def AllocateFailsClean (faults : Faults) (s : Disk) : Prop :=
  ∀ status, (faults.allocatePage s).1 = .error status → SameFields s (faults.allocatePage s).2

def FreeFailsClean (faults : Faults) (s : Disk) (pageId : UInt32) : Prop :=
  (faults.freePage s pageId).1 ≠ .ok → SameFields s (faults.freePage s pageId).2

/-- A new page has a number below the invalid one, a listed one is a page of the file, and both writes succeed. -/
def Completes (faults : Faults) (s : Disk) : Prop :=
  faults.writePage = none ∧ faults.writeHeader = none ∧
    if s.freeListHead = kInvalidPageId then s.pageCount < kInvalidPageId else s.freeListHead < s.pageCount

/-- The head of the list is not read, or it names itself as the next free page. -/
def HeadStays (faults : Faults) (s : Disk) : Prop :=
  s.freeListHead ≠ kInvalidPageId ∧ ∀ bytes, faults.readFreePage = false →
    s.read (pageOffset s.freeListHead) kPageSize = some bytes → loadU32LE (bytes.drop 16) = s.freeListHead

theorem lt_succ_iff (count : UInt32) : count < count + 1 ↔ count < kInvalidPageId := by
  have hLast : kInvalidPageId.toNat = 2 ^ 32 - 1 := rfl
  have hOne : (1 : UInt32).toNat = 1 := rfl
  rw [UInt32.lt_iff_toNat_lt, UInt32.lt_iff_toNat_lt, hLast, UInt32.toNat_add, hOne]
  have hBound := count.toNat_lt
  omega

theorem succ_ne (count : UInt32) : count + 1 ≠ count := by
  intro h
  have hOne : (1 : UInt32).toNat = 1 := rfl
  have hNat := congrArg UInt32.toNat h
  rw [UInt32.toNat_add, hOne] at hNat
  have hBound := count.toNat_lt
  omega

/-- With an empty list the counter has moved when a write fails, and when there is no number left. -/
theorem allocateFailsClean_added (hOpen : s.isOpen = true) (hHead : s.freeListHead = kInvalidPageId) :
    AllocateFailsClean faults s ↔ Completes faults s := by
  have hTake : faults.takePage s = (.ok s.pageCount, { s with pageCount := s.pageCount + 1 }) := by
    rw [takePage, if_neg (fun h => h.1 hHead), takePage_empty hHead]
  obtain ⟨result, file, hCall, hError⟩ := allocatePage_taken hOpen hTake hOpen
  have hCompletes : Completes faults s ↔ ¬ ∃ status, result = .error status := by
    rw [hError, not_not, lt_succ_iff, Completes, if_pos hHead]
  rw [AllocateFailsClean, hCall, hCompletes]
  constructor
  · rintro h ⟨status, hResult⟩
    exact succ_ne _ (h status hResult).1
  · intro h status hResult
    exact absurd ⟨status, hResult⟩ h

/-- The head of the list has moved when a write fails, unless the page names itself. -/
theorem allocateFailsClean_listed (hOpen : s.isOpen = true) (hHead : s.freeListHead ≠ kInvalidPageId)
    (hFault : faults.readFreePage = false) {bytes : Bytes}
    (hBytes : s.read (pageOffset s.freeListHead) kPageSize = some bytes) :
    AllocateFailsClean faults s ↔ Completes faults s ∨ HeadStays faults s := by
  have hTake : faults.takePage s = (.ok s.freeListHead, { s with freeListHead := loadU32LE (bytes.drop 16) }) := by
    rw [takePage, if_neg (fun h => by simp [hFault] at h), Disk.takePage, if_pos hHead, hBytes]
  obtain ⟨result, file, hCall, hError⟩ := allocatePage_taken hOpen hTake hOpen
  have hCompletes : Completes faults s ↔ ¬ ∃ status, result = .error status := by
    rw [hError, not_not, Completes, if_neg hHead]
  have hStays : HeadStays faults s ↔ loadU32LE (bytes.drop 16) = s.freeListHead := by
    constructor
    · exact fun h => h.2 bytes hFault hBytes
    · refine fun h => ⟨hHead, fun found _ hFound => ?_⟩
      rw [hBytes] at hFound
      cases hFound
      exact h
  rw [AllocateFailsClean, hCall, hCompletes, hStays]
  constructor
  · intro h
    by_cases hFails : ∃ status, result = .error status
    · obtain ⟨status, hResult⟩ := hFails
      exact Or.inr (h status hResult).2
    · exact Or.inl hFails
  · rintro (h | h) status hResult
    · exact absurd ⟨status, hResult⟩ h
    · exact ⟨rfl, h⟩

/-- Nothing has changed when the free page is not read. -/
theorem allocatePage_unread (hOpen : s.isOpen = true) (hHead : s.freeListHead ≠ kInvalidPageId)
    (hRead : ∀ bytes, faults.readFreePage = false → s.read (pageOffset s.freeListHead) kPageSize ≠ some bytes) :
    faults.allocatePage s = (.error (ioFailure "read free page" s.path), s) := by
  have hTake : faults.takePage s = (.error (ioFailure "read free page" s.path), s) := by
    cases hFault : faults.readFreePage with
    | true => rw [takePage, if_pos ⟨hHead, hFault⟩]
    | false =>
      cases hBytes : s.read (pageOffset s.freeListHead) kPageSize with
      | none => rw [takePage, if_neg (fun h => by simp [hFault] at h), Disk.takePage, if_pos hHead, hBytes]
      | some bytes => exact absurd hBytes (hRead bytes hFault)
  rw [allocatePage, if_pos hOpen]
  simp only [hTake]

theorem allocateFailsClean_iff (faults : Faults) (s : Disk) :
    AllocateFailsClean faults s ↔ (s.isOpen = true → Completes faults s ∨ HeadStays faults s) := by
  by_cases hOpen : s.isOpen = true
  · rw [imp_iff_right hOpen]
    by_cases hHead : s.freeListHead = kInvalidPageId
    · rw [allocateFailsClean_added hOpen hHead, or_iff_left (fun h : HeadStays faults s => h.1 hHead)]
    · by_cases hRead : ∃ bytes, faults.readFreePage = false ∧ s.read (pageOffset s.freeListHead) kPageSize = some bytes
      · obtain ⟨bytes, hFault, hBytes⟩ := hRead
        exact allocateFailsClean_listed hOpen hHead hFault hBytes
      · have hUnread := not_exists.mp hRead
        rw [AllocateFailsClean, allocatePage_unread hOpen hHead (fun bytes hFault hBytes => hUnread bytes ⟨hFault, hBytes⟩)]
        refine iff_of_true (fun _ _ => ⟨rfl, rfl⟩) (Or.inr ⟨hHead, fun bytes hFault hBytes => ?_⟩)
        exact absurd ⟨hFault, hBytes⟩ (hUnread bytes)
  · refine iff_of_true (fun status _ => ?_) (fun h => absurd h hOpen)
    rw [allocatePage, if_neg hOpen]
    exact ⟨rfl, rfl⟩

/-- Nothing has changed when the page is refused or not written. -/
theorem freePage_unwritten (h : s.isOpen = true → 0 < id → id < s.pageCount → faults.writePage ≠ none) :
    FreeFailsClean faults s id := by
  intro _
  by_cases hRange : 0 < id ∧ id < s.pageCount
  · obtain ⟨hPos, hLt⟩ := hRange
    have hHeader : id ≠ kHeaderPageId := (UInt32.ne_of_lt hPos).symm
    suffices hPage : ∃ code message file, faults.writePageLocked s id (.free id s.freeListHead) =
        (.error code message, { s with file := file }) by
      obtain ⟨code, message, file, hPage⟩ := hPage
      simp only [freePage, ensurePageLocked_of_lt hLt, if_neg hHeader, hPage]
      exact ⟨rfl, rfl⟩
    by_cases hOpen : s.isOpen = true
    · obtain ⟨status, file, hPage, hPageOk⟩ :=
        writePageLocked_form faults id hOpen (.free id s.freeListHead)
      cases status with
      | ok => exact absurd (hPageOk.mp rfl).1 (h hOpen hPos hLt)
      | error code message => exact ⟨code, message, file, hPage⟩
    · refine ⟨.kIoError, ascii "write page" ++ ascii " failed for " ++ s.path, s.file, ?_⟩
      have hClosed : s.writePageLocked id (.free id s.freeListHead) = (ioFailure "write page" s.path, s) := by
        simp only [Disk.writePageLocked, ensurePageLocked_of_lt hLt, write, if_neg hOpen]
      cases hWrite : faults.writePage with
      | none => simp only [writePageLocked, hWrite, hClosed]; rfl
      | some file => simp only [writePageLocked, hWrite, if_neg (fun h : s.isOpen = true ∧ _ => hOpen h.1), hClosed]; rfl
  · obtain ⟨status, -, hCall⟩ := freePage_refused hRange
    have hSame : faults.freePage s id = s.freePage id := by
      rw [freePage, Disk.freePage]
      by_cases hLt : id < s.pageCount
      · have hHeader : id = kHeaderPageId := by
          by_contra hNe
          exact hRange ⟨UInt32.pos_iff_ne_zero.mpr hNe, hLt⟩
        simp only [ensurePageLocked_of_lt hLt, if_pos hHeader]
      · simp only [ensurePageLocked_of_not_lt hLt, Status.outOfRange]
    rw [hSame, hCall]
    exact ⟨rfl, rfl⟩

/-- The head of the list has moved when the header is not written after the page was. -/
theorem freeFailsClean_iff (faults : Faults) (s : Disk) (pageId : UInt32) :
    FreeFailsClean faults s pageId ↔ (s.isOpen = true → 0 < pageId → pageId < s.pageCount → faults.writePage = none →
      faults.writeHeader ≠ none → s.freeListHead = pageId) := by
  by_cases hWritten : s.isOpen = true ∧ 0 < pageId ∧ pageId < s.pageCount ∧ faults.writePage = none
  · obtain ⟨hOpen, hPos, hLt, hFault⟩ := hWritten
    have hHeader : pageId ≠ kHeaderPageId := (UInt32.ne_of_lt hPos).symm
    obtain ⟨status, file, hPage, hPageOk⟩ :=
      writePageLocked_form faults pageId hOpen (.free pageId s.freeListHead)
    cases hPageOk.mpr ⟨hFault, hLt⟩
    obtain ⟨status, file', hWrite, hWriteOk⟩ :=
      writeHeaderLocked_form faults (s := { s with file := file, freeListHead := pageId }) hOpen
    have hCall : faults.freePage s pageId = (status, { s with freeListHead := pageId, file := file' }) := by
      simp only [freePage, ensurePageLocked_of_lt hLt, if_neg hHeader, hPage, hWrite]
    rw [FreeFailsClean, hCall, imp_iff_right hOpen, imp_iff_right hPos, imp_iff_right hLt, imp_iff_right hFault]
    constructor
    · intro h hFails
      exact (h (fun hOk => hFails (hWriteOk.mp hOk))).2.symm
    · intro h hFails
      exact ⟨rfl, (h (fun hNone => hFails (hWriteOk.mpr hNone))).symm⟩
  · refine iff_of_true (freePage_unwritten fun hOpen hPos hLt hFault => ?_) (fun hOpen hPos hLt hFault => ?_)
    · exact hWritten ⟨hOpen, hPos, hLt, hFault⟩
    · exact absurd ⟨hOpen, hPos, hLt, hFault⟩ hWritten

/-- Which failures leave the fields of the manager as they were. -/
theorem pages_fail_clean_iff (faults : Faults) (s : Disk) (pageId : UInt32) :
    (AllocateFailsClean faults s ↔ (s.isOpen = true → Completes faults s ∨ HeadStays faults s)) ∧
      (FreeFailsClean faults s pageId ↔ (s.isOpen = true → 0 < pageId → pageId < s.pageCount → faults.writePage = none →
        faults.writeHeader ≠ none → s.freeListHead = pageId)) :=
  ⟨allocateFailsClean_iff faults s, freeFailsClean_iff faults s pageId⟩

/-- A write that fails has moved the counter, and the counter wraps at its end. -/
theorem failed_allocation_moves :
    ¬ AllocateFailsClean { writePage := some (some []) } { isOpen := true, file := some [], pageCount := 1 } ∧
      ¬ AllocateFailsClean {} { isOpen := true, file := some [], pageCount := 0xFFFFFFFF } ∧
      ¬ FreeFailsClean { writeHeader := some (some []) } { isOpen := true, file := some [], pageCount := 2 } 1 := by
  constructor
  · rw [allocateFailsClean_added rfl rfl]
    exact fun h => by cases h.1
  constructor
  · rw [allocateFailsClean_added rfl rfl]
    exact fun h => absurd h.2.2 (by decide)
  · rw [freeFailsClean_iff]
    exact fun h => absurd (h rfl (by decide) (by decide) rfl (by simp)) (by decide)

end Faults

end TupleStone
