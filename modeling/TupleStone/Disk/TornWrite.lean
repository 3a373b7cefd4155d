import TupleStone.Disk.PageStore

/-! # Injected faults

`FaultDiskManager` tears a write above the code that computes the checksum, so that a torn page is as good as any.
-/

set_option autoImplicit false

namespace TupleStone

open RandomAccess Disk

structure FaultDisk extends Disk where
  writeCount : UInt64 := 0
  failWriteAt : UInt64 := 0
  tearWriteAt : UInt64 := 0

/-- The second half of the page is zeros. -/
def Page.torn (page : Page) : Page :=
  page.store (kPageSize / 2) (List.replicate (kPageSize / 2) 0) (by rw [List.length_replicate]; decide)

namespace FaultDisk

def failAt (s : FaultDisk) (writeNumber : UInt64) : FaultDisk := { s with failWriteAt := writeNumber }

def tearAt (s : FaultDisk) (writeNumber : UInt64) : FaultDisk := { s with tearWriteAt := writeNumber }

def counted (s : FaultDisk) : FaultDisk := { s with writeCount := s.writeCount + 1 }

def fails (s : FaultDisk) : Bool := s.failWriteAt != 0 && s.writeCount == s.failWriteAt

def tears (s : FaultDisk) : Bool := s.tearWriteAt != 0 && s.writeCount == s.tearWriteAt

def writePage (s : FaultDisk) (pageId : UInt32) (page : Page) : Status × FaultDisk :=
  let s := s.counted
  if s.fails then (.ioError (ascii "injected write failure"), s)
  else
    let (status, disk) := s.toDisk.writePage pageId (if s.tears then page.torn else page)
    (status, { s with toDisk := disk })

/-- The next write is torn. -/
def Tears (s : FaultDisk) : Prop := s.counted.fails = false ∧ s.counted.tears = true

variable {s : FaultDisk} {id : UInt32}

theorem writePage_torn (id : UInt32) (hTears : s.Tears) (page : Page) : s.writePage id page =
    ((s.toDisk.writePage id page.torn).1, { s.counted with toDisk := (s.toDisk.writePage id page.torn).2 }) := by
  simp only [writePage, hTears.1, hTears.2, if_true, Bool.false_eq_true, if_false]
  rfl

/-- A page whose second half is not zeros loses it. -/
theorem torn_body_ne {page : Page} (h : page.data.drop (kPageSize / 2) ≠ List.replicate (kPageSize / 2) 0) :
    page.torn.body ≠ page.body := by
  intro hSame
  have hBytes : page.torn.data.drop 4 = page.data.drop 4 := congrArg PageBody.bytes hSame
  have hHalf := congrArg (List.drop (kPageSize / 2 - 4)) hBytes
  rw [List.drop_drop, List.drop_drop] at hHalf
  have hRead : readAt page.torn.data (kPageSize / 2) (kPageSize / 2) = some (List.replicate (kPageSize / 2) 0) := by
    have hWritten := readAt_writeAt_same 0 page.data (List.replicate (kPageSize / 2) 0) (kPageSize / 2)
    rwa [List.length_replicate] at hWritten
  obtain ⟨before, after, hData, hBefore, hCount⟩ := readAt_eq_some.mp hRead
  have hAfter : after = [] := by
    have hSize := page.torn.size
    have hPage : kPageSize = kPageSize / 2 + kPageSize / 2 := rfl
    rw [hData, List.length_append, List.length_append, hBefore, hCount] at hSize
    exact List.length_eq_zero_iff.mp (by omega)
  have hDrop : page.torn.data.drop (kPageSize / 2) = List.replicate (kPageSize / 2) 0 := by
    rw [hData, hAfter, List.append_nil, ← hBefore, List.drop_left]
  exact h (hHalf.symm.trans hDrop)

theorem readPage_closed {t : Disk} (hClosed : t.isOpen ≠ true) (hLt : id < t.pageCount) (out : Page) :
    t.readPage id (some out) = (ioFailure "read page" t.path, some out) := by
  have hRead : t.read (pageOffset id) kPageSize = none := by rw [Disk.read, if_neg hClosed]
  simp only [Disk.readPage, ensurePageLocked_of_lt hLt]
  split
  · rfl
  · rename_i hSome
    exact absurd (hRead.symm.trans hSome) (Option.some_ne_none _).symm

/-- The checksum is that of the torn page. -/
theorem read_torn (hOpen : s.isOpen = true) (hPos : 0 < id) (hLt : id < s.pageCount) (hTears : s.Tears) (page out : Page) :
    (s.writePage id page).1 = .ok ∧ ∃ found,
      (s.writePage id page).2.toDisk.readPage id (some out) = (.ok, some found) ∧ found.body = page.torn.body := by
  have hWrite : s.toDisk.writePage id page.torn = _ := writePageLocked_of_lt hOpen hPos hLt page.torn
  have hPage := writePage_torn id hTears page
  rw [hWrite] at hPage
  have hRead : (s.toDisk.withFile (writeAt 0 s.bytes (pageOffset id) page.torn.body.image)).read (pageOffset id) kPageSize =
      some page.torn.body.image := by
    have hSame := readAt_writeAt_same 0 s.bytes page.torn.body.image (pageOffset id)
    rw [PageBody.length_image] at hSame
    exact (if_pos hOpen).trans hSame
  obtain ⟨found, hFound, -, hBody⟩ := readPage_of_image
    (s := s.toDisk.withFile (writeAt 0 s.bytes (pageOffset id) page.torn.body.image)) hPos hLt hRead out
  rw [hPage]
  exact ⟨rfl, found, hFound, hBody⟩

/-- A closed manager neither writes nor reads. -/
theorem read_torn_closed (hClosed : s.isOpen ≠ true) (hLt : id < s.pageCount) (hTears : s.Tears) (page out : Page) :
    (s.writePage id page).2.toDisk.readPage id (some out) = (ioFailure "read page" s.path, some out) := by
  have hWrite : s.toDisk.writePage id page.torn = (ioFailure "write page" s.path, s.toDisk) := by
    simp only [Disk.writePage, writePageLocked, ensurePageLocked_of_lt (s := s.toDisk) hLt, write, if_neg hClosed]
  have hPage := writePage_torn id hTears page
  rw [hWrite] at hPage
  rw [hPage]
  exact readPage_closed (t := s.toDisk) hClosed hLt out

/-- No torn write is found by the next read of the page, which returns the half-zeroed page. -/
theorem torn_write_undetected (hPos : 0 < id) (hLt : id < s.pageCount) (hTears : s.Tears) (page out : Page)
    (hHalf : page.data.drop (kPageSize / 2) ≠ List.replicate (kPageSize / 2) 0) :
    (∀ message, ((s.writePage id page).2.toDisk.readPage id (some out)).1 ≠ .corruption message) ∧
      (s.isOpen = true → (s.writePage id page).1 = .ok ∧
        ∃ found, (s.writePage id page).2.toDisk.readPage id (some out) = (.ok, some found) ∧
          found.body = page.torn.body ∧ found.body ≠ page.body) := by
  by_cases hOpen : s.isOpen = true
  · obtain ⟨hOk, found, hFound, hBody⟩ := read_torn hOpen hPos hLt hTears page out
    constructor
    · intro message
      rw [hFound]
      exact Status.noConfusion
    · exact fun _ => ⟨hOk, found, hFound, hBody, hBody ▸ torn_body_ne hHalf⟩
  · constructor
    · intro message hCorrupt
      have hStatus := (congrArg Prod.fst (read_torn_closed hOpen hLt hTears page out)).symm.trans hCorrupt
      simp [ioFailure, Status.ioError, Status.corruption] at hStatus
    · exact fun h => absurd h hOpen

/-! ## A page of ones -/

def ones : Page := ⟨1, List.replicate kPageSize 1, List.length_replicate⟩

theorem ones_half : ones.data.drop (kPageSize / 2) ≠ List.replicate (kPageSize / 2) 0 := by
  rw [ones, List.drop_replicate]
  exact fun h => absurd (List.eq_of_mem_replicate (h ▸ List.mem_replicate.mpr ⟨by decide, rfl⟩) : (1 : UInt8) = 0) (by decide)

/-- The first write is torn. -/
def tearing : FaultDisk := ({ isOpen := true, file := some [], pageCount := 2 } : FaultDisk).tearAt 1

theorem tearing_tears : tearing.Tears := ⟨by decide, by decide⟩

theorem ones_undetected :
    (∀ message, ((tearing.writePage 1 ones).2.toDisk.readPage 1 (some ones)).1 ≠ .corruption message) ∧
      (tearing.isOpen = true → (tearing.writePage 1 ones).1 = .ok ∧
        ∃ found, (tearing.writePage 1 ones).2.toDisk.readPage 1 (some ones) = (.ok, some found) ∧
          found.body = ones.torn.body ∧ found.body ≠ ones.body) :=
  torn_write_undetected (by decide) (by decide) tearing_tears ones ones ones_half

theorem ones_read_torn : (tearing.writePage 1 ones).1 = .ok ∧
    ¬ ∃ message, ((tearing.writePage 1 ones).2.toDisk.readPage 1 (some ones)).1 = .corruption message := by
  have hRead : (tearing.writePage 1 ones).1 = .ok ∧ ∃ found,
      (tearing.writePage 1 ones).2.toDisk.readPage 1 (some ones) = (.ok, some found) ∧ found.body = ones.torn.body :=
    read_torn rfl (by decide) (by decide) tearing_tears ones ones
  obtain ⟨hOk, found, hFound, -⟩ := hRead
  refine ⟨hOk, ?_⟩
  rintro ⟨message, hCorrupt⟩
  rw [hFound] at hCorrupt
  cases hCorrupt

end FaultDisk

end TupleStone
