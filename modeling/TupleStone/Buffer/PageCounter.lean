import TupleStone.Buffer.Transparency

/-! # The page counter at its end

A disk of 2^32 - 1 pages with no free page cannot take another one, but `AllocatePage` has moved the counter on by then:
it starts again at 0, and the pages in use are allocated once more.
-/

set_option autoImplicit false

namespace TupleStone

open BufferPool RandomAccess

/-- A disk with a number of pages of zeros behind the header. -/
def filledDisk (pages : Nat) : Disk :=
  let manager : DiskManager := { isOpen := true, pageCount := UInt32.ofNat (pages + 1) }
  ⟨manager, some (manager.header ++ (List.replicate pages Page.reset.body.image).flatten)⟩

def filledStore : PageStore := ⟨fun _ => Page.reset.body, []⟩

theorem holds_filled {header : Bytes} (hSize : header.length = kPageSize) (body : PageBody) (pages : Nat) :
    Holds (header ++ (List.replicate pages body.image).flatten) header (pages + 1) (fun _ => body) := by
  induction pages with
  | zero =>
    have hNone : Holds ([] : Bytes) header 0 (fun _ => body) :=
      ⟨(Nat.zero_mul _).symm, fun i hLt => absurd hLt (Nat.not_lt_zero i)⟩
    have hOne := Blocks.concat 0 hNone hSize
    rw [List.replicate_zero, List.flatten_nil, List.append_nil]
    refine hOne.congr fun i hLt => ?_
    obtain rfl : i = 0 := Nat.lt_one_iff.mp hLt
    rw [images_zero, Function.update_self]
  | succ pages ih =>
    have hNext := Blocks.concat 0 ih body.length_image
    rw [List.append_assoc] at hNext
    rw [List.replicate_succ', List.flatten_append, List.flatten_singleton]
    refine hNext.congr fun i hLt => ?_
    obtain rfl | hNe := eq_or_ne i (pages + 1)
    · rw [Function.update_self, images, if_neg (Nat.succ_ne_zero pages)]
    · rw [Function.update_of_ne hNe]

theorem filledDisk_stores {pages : Nat} (hLt : pages + 1 < 2 ^ 32) : (filledDisk pages).Stores filledStore := by
  have hCount : (filledDisk pages).pageCount.toNat = pages + 1 := UInt32.toNat_ofNat_of_lt' hLt
  refine ⟨rfl, rfl, ?_, ?_, .nil, fun page hPage => absurd hPage List.not_mem_nil⟩
  · rw [UInt32.lt_iff_toNat_lt, hCount]
    exact Nat.succ_pos pages
  · rw [hCount]
    exact holds_filled (DiskManager.length_header _) Page.reset.body pages

namespace PoolUse

theorem filled_inUse {pages : Nat} (hLt : pages + 1 < 2 ^ 32) {id : UInt32} (hPos : 0 < id) (hId : id.toNat ≤ pages) :
    (filledDisk pages).inUse filledStore id = some Page.reset.body := by
  refine Disk.inUse_eq_some.mpr ⟨⟨hPos, ?_, List.not_mem_nil⟩, rfl⟩
  have hCount : (filledDisk pages).pageCount.toNat = pages + 1 := UInt32.toNat_ofNat_of_lt' hLt
  rw [UInt32.lt_iff_toNat_lt, hCount]
  exact Nat.lt_succ_of_le hId

/-- The one page of a disk is fetched into the one frame. -/
def fetchedOnce : PoolUse := (start 1 (filledDisk 1) filledStore).call (.fetchPage 1 true)

theorem reached_fetchedOnce : Reached fetchedOnce := by
  refine (Reached.start 1 (filledDisk_stores (by decide))).call (.fetchPage 1 true) ?_ trivial
  have hUse := filled_inUse (by decide : 1 + 1 < 2 ^ 32) (by decide : (0 : UInt32) < 1) (Nat.le_refl 1)
  exact fun hNone => Option.some_ne_none _ (hUse.symm.trans hNone)

theorem fetchedOnce_transparent :
    (∀ guard, some guard ∈ fetchedOnce.guards →
      fetchedOnce.pages guard.pageId = some (fetchedOnce.pool.frame guard.frame).page.body ∧
      fetchedOnce.pool.pageTable guard.pageId = some guard.frame ∧
      (fetchedOnce.pool.frame guard.frame).page.id = guard.pageId) ∧
    ∀ id i, fetchedOnce.pool.pageTable id = some i ↔
      id ≠ kInvalidPageId ∧ i < fetchedOnce.pool.frames.length ∧ (fetchedOnce.pool.frame i).page.id = id :=
  have hTransparent := pool_transparent reached_fetchedOnce
  ⟨hTransparent.1, hTransparent.2.1⟩

/-! ## A refused page -/

theorem newPage_all_pinned {pool : BufferPool} (hPinned : ∀ f ∈ pool.frames, f.pinCount ≠ 0) {id : UInt32}
    (hNone : pool.pageTable id = none) {allocated freed : Disk} {status : Status}
    (hCall : pool.disk.allocatePage = (.ok id, allocated)) (hFree : allocated.freePage id = (status, freed)) :
    pool.newPage = (.error (.outOfMemory (ascii "all buffer pages are pinned")), { pool with disk := freed }) := by
  have hVictim : (⟨allocated, pool.frames, pool.pageTable, pool.clock⟩ : BufferPool).victimLocked = none := no_victim hPinned
  simp only [newPage, hCall, fetchPage, hNone, hVictim, hFree]

/-- A pool that holds page 2 in its only frame, over a disk that holds pages of zeros. -/
structure Pinned (pool : BufferPool) : Prop where
  isOpen : pool.disk.isOpen = true
  freeListHead : pool.disk.freeListHead = kInvalidPageId
  holds : ∃ header, Holds pool.disk.bytes header 4294967295 (fun _ => Page.reset.body)
  pinned : ∀ f ∈ pool.frames, f.pinCount ≠ 0
  uncached : pool.pageTable 0 = none ∧ pool.pageTable 1 = none

/-! A new pool with a first frame. -/

theorem frame_ofSize (n : Nat) (disk : Disk) : (ofSize (n + 1) disk).frame 0 = {} := rfl

theorem victimLocked_ofSize (n : Nat) (disk : Disk) : (ofSize (n + 1) disk).victimLocked = some 0 := by
  have hOldest : (ofSize (n + 1) disk).oldestFrame = none := by
    rw [oldestFrame, foldl_olderFrame_empty]
    intro entry hEntry
    have hFrame := List.mem_of_getElem? (List.mem_zipIdx_iff_getElem?.mp hEntry)
    rw [(List.mem_replicate.mp hFrame).2]
    rfl
  rw [victimLocked, hOldest]
  rfl

theorem evict_ofSize (n : Nat) (disk : Disk) : (ofSize (n + 1) disk).evict 0 = (.ok, ofSize (n + 1) disk) := by
  rw [evict, frame_ofSize, if_neg (fun h => h rfl)]
  rfl

theorem fetchPage_ofSize (n : Nat) {disk : Disk} {id : UInt32} {found : Page} (writable : Bool)
    (hRead : disk.readPage id (some .reset) = (.ok, some found)) : (ofSize (n + 1) disk).fetchPage id writable =
      (.ok ⟨id, 0, writable⟩, ⟨disk, ⟨⟨id, found.data, found.size⟩, 1, false, 1⟩ :: List.replicate n {},
        Function.update (fun _ => none) id (some 0), 1⟩) := by
  have hNone : (ofSize (n + 1) disk).pageTable id = none := rfl
  have hLoad : (ofSize (n + 1) disk).load 0 id writable = (.ok ⟨id, 0, writable⟩,
      ⟨disk, ⟨⟨id, found.data, found.size⟩, 1, false, 1⟩ :: List.replicate n {},
        Function.update (fun _ => none) id (some 0), 1⟩) := by
    have hDisk : (ofSize (n + 1) disk).disk.readPage id (some (Frame.page {})) = (.ok, some found) := hRead
    rw [load, frame_ofSize, hDisk]
    rfl
  simp only [fetchPage, hNone, victimLocked_ofSize, evict_ofSize, hLoad]

/-- Page 2 of a disk with no room is pinned in the only frame. -/
theorem pinned_of_full {disk : Disk} (hStores : disk.Stores filledStore) (hCount : disk.pageCount = kInvalidPageId) :
    Pinned ((start 1 disk filledStore).call (.fetchPage 2 false)).pool ∧
      ((start 1 disk filledStore).call (.fetchPage 2 false)).pool.disk.pageCount = kInvalidPageId ∧
        ((start 1 disk filledStore).call (.fetchPage 2 false)).pages 1 = some Page.reset.body := by
  obtain ⟨found, hRead, -⟩ := hStores.readPage (by decide : (0 : UInt32) < 2) (by rw [hCount]; decide) Page.reset
  have hFetch := fetchPage_ofSize 0 false hRead
  have hHolds := hStores.holds
  rw [hCount] at hHolds
  have hHead : disk.freeListHead = kInvalidPageId := hStores.chain.head_eq
  have hBody : disk.inUse filledStore 1 = some Page.reset.body :=
    Disk.inUse_eq_some.mpr ⟨⟨by decide, by rw [hCount]; decide, List.not_mem_nil⟩, rfl⟩
  have hFetched : (start 1 disk filledStore).call (.fetchPage 2 false) =
      ⟨⟨disk, [⟨⟨2, found.data, found.size⟩, 1, false, 1⟩], Function.update (fun _ => none) 2 (some 0), 1⟩,
        [some ⟨2, 0, false⟩], disk.inUse filledStore⟩ := by
    rw [call, start, hFetch]
    rfl
  rw [hFetched]
  refine ⟨⟨hStores.isOpen, hHead, ⟨_, hHolds⟩, fun f hMem => ?_, rfl, rfl⟩, hCount, hBody⟩
  rw [List.mem_singleton.mp hMem]
  exact Nat.one_ne_zero

theorem call_newPage_refused {pool pool' : BufferPool} {status : Status} (h : pool.newPage = (.error status, pool'))
    (guards : List (Option PageGuard)) (pages : UInt32 → Option PageBody) :
    call ⟨pool, guards, pages⟩ .newPage = ⟨pool', guards, pages⟩ := by
  rw [call, h]

variable {pool : BufferPool}

/-- The first page is refused, and the counter is 0. -/
theorem Pinned.wrapped (h : Pinned pool) (hCount : pool.disk.pageCount = kInvalidPageId) :
    ∃ status pool', pool.newPage = (.error status, pool') ∧ Pinned pool' ∧ pool'.disk.pageCount = 0 := by
  have hCall := Disk.allocatePage_wraps h.isOpen h.freeListHead hCount
  refine ⟨.outOfRange (ascii "page id is out of range"), { pool with disk := { pool.disk with pageCount := 0 } }, ?_,
    ⟨h.isOpen, h.freeListHead, h.holds, h.pinned, h.uncached⟩, rfl⟩
  simp only [newPage, hCall]

theorem writePageLocked_header {disk : Disk} (hOpen : disk.isOpen = true) (hLt : 0 < disk.pageCount) (page : Page) :
    disk.writePageLocked 0 page = (.ok, disk.withFile (writeAt 0 disk.bytes 0 page.data)) := by
  have hOffset : pageOffset 0 = 0 := rfl
  simp only [Disk.writePageLocked, Disk.ensurePageLocked_of_lt hLt, hOffset, Disk.write, if_pos hOpen]
  rfl

/-- The second page is the header, which is written over and put back. -/
theorem Pinned.headerAllocated (h : Pinned pool) (hCount : pool.disk.pageCount = 0) :
    ∃ pool', pool.newPage = (.error (.outOfMemory (ascii "all buffer pages are pinned")), pool') ∧ Pinned pool' ∧
      pool'.disk.pageCount = 1 := by
  obtain ⟨header, hHolds⟩ := h.holds
  generalize hCounted : ({ pool.disk with pageCount := 1 } : Disk) = counted
  have hOpen : counted.isOpen = true := hCounted ▸ h.isOpen
  have hBytes : counted.bytes = pool.disk.bytes := hCounted ▸ rfl
  have hOne : counted.pageCount = 1 := hCounted ▸ rfl
  have hHead : counted.freeListHead = kInvalidPageId := hCounted ▸ h.freeListHead
  have hTake : pool.disk.takePage = (.ok 0, counted) := by
    rw [Disk.takePage_empty h.freeListHead, hCount, ← hCounted]
    rfl
  have hPage := writePageLocked_header hOpen (by rw [hOne]; decide) (.free 0 kInvalidPageId)
  generalize hWritten : counted.withFile (writeAt 0 counted.bytes 0 (Page.free 0 kInvalidPageId).data) = written at hPage
  have hWrittenOpen : written.isOpen = true := hWritten ▸ hOpen
  have hHeader := Disk.writeHeaderLocked_of_open hWrittenOpen
  generalize hPut : written.withFile (writeAt 0 written.bytes 0 written.header) = put at hHeader
  have hAllocate : pool.disk.allocatePage = (.ok 0, put) := by
    rw [Disk.allocatePage, if_pos h.isOpen]
    simp only [hTake, hPage, hHeader]
  have hPutOne : put.pageCount = 1 := by rw [← hPut, ← hWritten, Disk.toDiskManager_withFile, Disk.toDiskManager_withFile, hOne]
  have hRange : (0 : UInt32) < put.pageCount := by
    rw [hPutOne]
    decide
  have hFree : put.freePage 0 = (.invalidArgument (ascii "cannot free header page"), put) := by
    simp only [Disk.freePage, Disk.ensurePageLocked_of_lt hRange]
    rfl
  have hPutHolds : Holds put.bytes written.header 4294967295 (fun _ => Page.reset.body) := by
    have hFirst := hHolds.write_header (by decide) (Page.free 0 kInvalidPageId).size
    have hSecond := hFirst.write_header (by decide) written.length_header
    rw [← hBytes] at hSecond
    rw [← hPut, Disk.bytes_withFile, ← hWritten, Disk.bytes_withFile]
    exact hWritten ▸ hSecond
  refine ⟨{ pool with disk := put }, newPage_all_pinned h.pinned h.uncached.1 hAllocate hFree,
    ⟨?_, ?_, ⟨_, hPutHolds⟩, h.pinned, h.uncached⟩, hPutOne⟩
  · rw [← hPut]
    exact hWrittenOpen
  · rw [← hPut, Disk.toDiskManager_withFile, ← hWritten]
    exact hHead

/-- The third page is page 1, which is in use: it is written over and put on the free list. -/
theorem Pinned.pageLost (h : Pinned pool) (hCount : pool.disk.pageCount = 1) :
    ∃ pool', pool.newPage = (.error (.outOfMemory (ascii "all buffer pages are pinned")), pool') ∧
      readAt pool.disk.bytes (pageOffset 1) kPageSize = some Page.reset.body.image ∧
        readAt pool'.disk.bytes (pageOffset 1) kPageSize = some (Page.free 1 kInvalidPageId).body.image := by
  obtain ⟨header, hHolds⟩ := h.holds
  have hPos : (0 : UInt32) < 1 := by decide
  generalize hCounted : ({ pool.disk with pageCount := 2 } : Disk) = counted
  have hOpen : counted.isOpen = true := hCounted ▸ h.isOpen
  have hCountedHolds : Holds counted.bytes header 4294967295 (fun _ => Page.reset.body) := hCounted ▸ hHolds
  have hTwo : (1 : UInt32) < counted.pageCount := hCounted ▸ (by decide : (1 : UInt32) < 2)
  have hTake : pool.disk.takePage = (.ok 1, counted) := by
    rw [Disk.takePage_empty h.freeListHead, hCount, ← hCounted]
    rfl
  have hAllocate := Disk.allocatePage_of_take h.isOpen hTake hOpen hPos hTwo
  have hTaken := Disk.holds_rewritten hCountedHolds hPos (by decide) (by decide) (Page.free 1 kInvalidPageId).body
  generalize hTakenDisk : counted.rewritten 1 _ = taken at hAllocate hTaken
  have hTakenOpen : taken.isOpen = true := hTakenDisk ▸ hOpen
  have hTakenTwo : 1 < taken.pageCount := hTakenDisk ▸ hTwo
  have hTakenHead : taken.freeListHead = kInvalidPageId := by
    rw [← hTakenDisk, ← hCounted]
    exact h.freeListHead
  have hFree := Disk.freePage_of_lt hTakenOpen hPos hTakenTwo
  have hFreed := Disk.holds_rewritten (s := { taken with freeListHead := 1 }) hTaken hPos (by decide) (by decide)
    (Page.free 1 taken.freeListHead).body
  generalize ({ taken with freeListHead := 1 } : Disk).rewritten 1 _ = freed at hFree hFreed
  refine ⟨{ pool with disk := freed }, newPage_all_pinned h.pinned h.uncached.2 hAllocate hFree,
    hHolds.page_read hPos (by decide), ?_⟩
  have hRead := hFreed.page_read hPos (by decide)
  rw [Function.update_self, hTakenHead] at hRead
  exact hRead

/-- Page 2 is pinned in the only frame, and two new pages are refused. -/
def exhausted (disk : Disk) : PoolUse :=
  (((start 1 disk filledStore).call (.fetchPage 2 false)).call .newPage).call .newPage

theorem exhausted_pinned {disk : Disk} (hStores : disk.Stores filledStore) (hCount : disk.pageCount = kInvalidPageId) :
    Pinned (exhausted disk).pool ∧ (exhausted disk).pool.disk.pageCount = 1 ∧
      (exhausted disk).pages 1 = some Page.reset.body := by
  obtain ⟨hPinned, hFull, hBody⟩ := pinned_of_full hStores hCount
  rw [exhausted]
  generalize (start 1 disk filledStore).call (.fetchPage 2 false) = fetched at hPinned hFull hBody
  obtain ⟨pool, guards, pages⟩ := fetched
  obtain ⟨status, wrapped, hFirst, hWrapped, hZero⟩ := hPinned.wrapped hFull
  obtain ⟨put, hSecond, hPut, hOne⟩ := hWrapped.headerAllocated hZero
  rw [call_newPage_refused hFirst, call_newPage_refused hSecond]
  exact ⟨hPut, hOne, hBody⟩

theorem reset_ne_free : Page.reset.body ≠ (Page.free 1 kInvalidPageId).body := by
  intro hSame
  have hNext : Page.reset.body.next = kInvalidPageId := by rw [hSame, Page.next_free]
  have hZeros : (Page.reset.body.bytes.drop 12).take 4 = List.replicate 4 0 := by
    rw [Page.bytes_body, Page.reset, List.drop_replicate, List.drop_replicate, List.take_replicate]
    rfl
  rw [PageBody.next, loadU32LE, hZeros] at hNext
  exact absurd hNext (by decide)

def largestDisk : Disk := filledDisk 4294967294

/-- On the largest disk a third new page is refused because every frame is pinned, and page 1, which is in use, is lost. -/
theorem refused_page_overwrites :
    (start 1 largestDisk filledStore).Permitted (.fetchPage 2 false) ∧
    (exhausted largestDisk).pages 1 = some Page.reset.body ∧
    (exhausted largestDisk).pool.newPage.1 = .error (.outOfMemory (ascii "all buffer pages are pinned")) ∧
    readAt (exhausted largestDisk).pool.disk.bytes (pageOffset 1) kPageSize = some Page.reset.body.image ∧
    readAt (exhausted largestDisk).pool.newPage.2.disk.bytes (pageOffset 1) kPageSize =
      some (Page.free 1 kInvalidPageId).body.image ∧
    Page.reset.body ≠ (Page.free 1 kInvalidPageId).body := by
  have hStores : largestDisk.Stores filledStore := filledDisk_stores (by decide)
  have hCount : largestDisk.pageCount = kInvalidPageId := rfl
  have hUse : largestDisk.inUse filledStore 2 = some Page.reset.body :=
    filled_inUse (by decide : 4294967294 + 1 < 2 ^ 32) (by decide) (by decide)
  generalize largestDisk = disk at hStores hCount hUse
  obtain ⟨hPinned, hOne, hBody⟩ := exhausted_pinned hStores hCount
  obtain ⟨pool', hNew, hBefore, hAfter⟩ := hPinned.pageLost hOne
  rw [hNew]
  exact ⟨fun hNone => Option.some_ne_none _ (hUse.symm.trans hNone), hBody, rfl, hBefore, hAfter, reset_ne_free⟩

end PoolUse

end TupleStone
