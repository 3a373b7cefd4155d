import TupleStone.Buffer.PoolSteps

/-! # Transparency of the buffer pool

Over whole runs the pool behaves as the flat map of its pages. Only the page counter of the disk is not guarded: where
it wraps, a new page may be one that is in use.
-/

set_option autoImplicit false

namespace TupleStone

open BufferPool RandomAccess

namespace PoolUse

variable {u : PoolUse}

theorem sound_start (poolSize : Nat) {disk : Disk} {store : PageStore} (h : disk.Stores store) :
    (start poolSize disk store).Sound := by
  have hEmpty (i : Nat) : (start poolSize disk store).pool.frame i = {} := by
    obtain hLt | hLe := Nat.lt_or_ge i poolSize
    · exact frame_eq_of_getElem? (List.getElem?_replicate_of_lt hLt)
    · exact frame_of_length_le (Nat.le_trans (Nat.le_of_eq List.length_replicate) hLe)
  constructor
  case stored =>
    refine ⟨store, h, fun id => ?_, fun id body hBody _ => (Disk.inUse_eq_some.mp hBody).2⟩
    exact (not_congr Disk.inUse_eq_none).trans not_not
  case table =>
    intro id i
    rw [hEmpty]
    exact iff_of_false (fun hSome => Option.some_ne_none _ hSome.symm) fun hValid => hValid.1 hValid.2.symm
  case cached =>
    intro i hValid
    rw [hEmpty] at hValid
    exact absurd rfl hValid
  case pinned =>
    intro i
    rw [hEmpty]
    rfl
  case guarded => exact fun guard hGuard => absurd hGuard List.not_mem_nil

theorem Sound.flushPage (h : u.Sound) (id : UInt32) : Sound ⟨(u.pool.flushPage id).2, u.guards, u.pages⟩ := by
  cases hTable : u.pool.pageTable id with
  | none =>
    rw [BufferPool.flushPage, hTable]
    exact h
  | some i =>
    obtain ⟨pool', hWrite, hSound, -⟩ := Sound.writeBack h hTable
    rw [BufferPool.flushPage, hTable]
    simp only [hWrite]
    exact hSound

/-- One call. -/
theorem Sound.call (h : u.Sound) {c : PoolCall} (hPermitted : u.Permitted c) (hRoom : u.HasRoom c) : (u.call c).Sound := by
  cases c with
  | fetchPage id writable =>
    obtain ⟨i, pool', hFetch, hSound⟩ | ⟨-, hFetch⟩ := Sound.fetchPage h hPermitted writable
    · rw [PoolUse.call, hFetch]
      exact hSound.perm (List.perm_append_singleton _ _).symm
    · rw [PoolUse.call, hFetch]
      exact h
  | newPage =>
    obtain ⟨id, i, pool', hNew, -, hSound⟩ | ⟨-, -, disk, -, -, hNew, hSound⟩ := Sound.newPage h hRoom
    · rw [PoolUse.call, hNew]
      exact hSound.perm (List.perm_append_singleton _ _).symm
    · rw [PoolUse.call, hNew]
      exact hSound
  | modify slot body => exact h.modify slot body
  | declare => exact (Sound.cons_none h).perm (List.perm_append_singleton _ _).symm
  | drop slot => exact h.drop slot
  | move source target => exact h.move source target
  | flushPage id => exact h.flushPage id
  | flushAllPages =>
    obtain ⟨pool', hFlush, hSound, -⟩ := Sound.flushAllPages h
    rw [PoolUse.call, hFlush]
    exact hSound
  | deletePage id =>
    obtain ⟨pool', hDelete, hSound⟩ | ⟨status, hStatus, hDelete⟩ := Sound.deletePage h hPermitted
    · rw [PoolUse.call, hDelete]
      exact hSound
    · rw [PoolUse.call, hDelete]
      cases status with
      | ok => exact absurd rfl hStatus
      | error => exact h

theorem Reached.sound (h : Reached u) : u.Sound := by
  induction h with
  | start poolSize hStores => exact sound_start poolSize hStores
  | call _ c hPermitted hRoom ih => exact ih.call hPermitted hRoom

/-- The disk has the same pages allocated and the same contents in them. -/
def SamePages (disk disk' : Disk) : Prop :=
  ∃ store store', disk.Stores store ∧ disk'.Stores store' ∧ disk'.inUse store' = disk.inUse store

/-- All guards are dropped and no frame is dirty: the disk holds every page. -/
theorem Sound.flushed (h : u.Sound) (hGuards : ∀ guard, some guard ∉ u.guards) {pool : BufferPool}
    (hFlush : u.pool.flushAllPages = (.ok, pool)) {id : UInt32} {body : PageBody} (hBody : u.pages id = some body) (page : Page) :
    ∃ found : Page, pool.disk.readPage id (some page) = (.ok, some found) ∧ found.body = body := by
  obtain ⟨pool', hCall, hSound, hClean⟩ := Sound.flushAllPages h
  obtain rfl : pool' = pool := (Prod.mk.inj (hCall.symm.trans hFlush)).2
  obtain ⟨store, hStores, hPages, hBacked⟩ := hSound.stored
  obtain ⟨hPos, hLt, -⟩ := (hPages id).mp fun hNone => Option.some_ne_none _ (hBody.symm.trans hNone)
  obtain ⟨found, hRead, -, hFound⟩ := hStores.readPage hPos hLt page
  refine ⟨found, hRead, ?_⟩
  rw [hFound]
  refine hBacked id body hBody fun i hI => ⟨hClean i ?_, fun guard hGuard => absurd hGuard (hGuards guard)⟩
  obtain ⟨hValid, hSame⟩ := (hSound.table id i).mp hI
  exact hSame ▸ hValid

/-- A page allocated and freed again leaves the pages as they were. -/
theorem samePages_of_refused {disk disk' : Disk} {store : PageStore} (h : disk.Stores store) {id : UInt32}
    (hCall : disk.allocatePage = (.ok id, disk')) : ∃ freed, disk'.freePage id = (.ok, freed) ∧ SamePages disk freed := by
  obtain hRoom | ⟨hFree, hFull⟩ := h.room_or_full
  · obtain ⟨id', t, free, hAllocate, hTaken, hFresh, hUse⟩ := h.allocatePage hRoom
    obtain ⟨hId, rfl⟩ := Prod.mk.inj (hAllocate.symm.trans hCall)
    obtain rfl : id' = id := Except.ok.inj hId
    obtain ⟨hPos, hLt, hUsed⟩ := (hUse id').mpr (Or.inl rfl)
    obtain ⟨freed, hFreeCall, hCount, hFreed⟩ := hTaken.freePage hPos hLt hUsed
    refine ⟨freed, hFreeCall, store, _, h, hFreed, ?_⟩
    funext other
    obtain rfl | hNe := eq_or_ne other id'
    · rw [Disk.inUse_eq_none.mpr hFresh]
      exact Disk.inUse_eq_none.mpr fun hAgain => hAgain.2.2 List.mem_cons_self
    · have hSame : freed.InUse ((store.set id' (Page.free id' kInvalidPageId).body free).set id'
          (Page.free id' t.freeListHead).body (id' :: free)) other ↔ disk.InUse store other := by
        refine Iff.trans ?_ ((hUse other).trans (or_iff_right hNe))
        rw [Disk.InUse, Disk.InUse, hCount, PageStore.free_set, PageStore.free_set, List.mem_cons, or_iff_right hNe]
      rw [Disk.inUse, Disk.inUse]
      refine if_congr hSame ?_ rfl
      rw [PageStore.free_set, PageStore.contents_set_of_ne _ _ _ _ hNe, PageStore.contents_set_of_ne _ _ _ _ hNe]
  · rw [h.allocatePage_full hFree hFull] at hCall
    cases hCall

theorem Sound.fetchPage_refused (h : u.Sound) {id : UInt32} (hPage : u.pages id ≠ none) {writable : Bool} {status : Status}
    {pool : BufferPool} (hCall : u.pool.fetchPage id writable = (.error status, pool)) : pool = u.pool := by
  obtain ⟨i, pool', hFetch, -⟩ | ⟨-, hFetch⟩ := Sound.fetchPage h hPage writable
  · rw [hFetch] at hCall
    cases hCall
  · exact (Prod.mk.inj (hCall.symm.trans hFetch)).2

theorem Sound.newPage_refused (h : u.Sound) {pool : BufferPool}
    (hCall : u.pool.newPage = (.error (.outOfMemory (ascii "all buffer pages are pinned")), pool)) :
    pool.frames = u.pool.frames ∧ pool.pageTable = u.pool.pageTable ∧ SamePages u.pool.disk pool.disk := by
  obtain ⟨store, hStores, -⟩ := h.stored
  obtain hRoom | ⟨hFree, hFull⟩ := hStores.room_or_full
  · obtain ⟨id, i, pool', hNew, -⟩ | ⟨id, allocated, disk, hAllocate, hFreed, hNew, -⟩ := Sound.newPage h hRoom
    · rw [hNew] at hCall
      cases hCall
    · obtain rfl := (Prod.mk.inj (hNew.symm.trans hCall)).2
      obtain ⟨freed, hFreeCall, hSame⟩ := samePages_of_refused hStores hAllocate
      obtain rfl := (Prod.mk.inj (hFreed.symm.trans hFreeCall)).2
      exact ⟨rfl, rfl, hSame⟩
  · rw [BufferPool.newPage, hStores.allocatePage_full hFree hFull] at hCall
    cases hCall

/-- In a run whose new pages have a number, a guard sees what was last written to its page and keeps it in its frame,
the table is that of the frames, flushing with no guard left brings every page to the disk, and a refused call changes
no page. -/
theorem pool_transparent (h : Reached u) :
    (∀ guard, some guard ∈ u.guards → u.pages guard.pageId = some (u.pool.frame guard.frame).page.body ∧
      u.pool.pageTable guard.pageId = some guard.frame ∧ (u.pool.frame guard.frame).page.id = guard.pageId) ∧
    (∀ id i, u.pool.pageTable id = some i ↔
      id ≠ kInvalidPageId ∧ i < u.pool.frames.length ∧ (u.pool.frame i).page.id = id) ∧
    ((∀ guard, some guard ∉ u.guards) → ∀ pool, u.pool.flushAllPages = (.ok, pool) → ∀ id body page, u.pages id = some body →
      ∃ found : Page, pool.disk.readPage id (some page) = (.ok, some found) ∧ found.body = body) ∧
    (∀ id writable pool, u.pages id ≠ none →
      u.pool.fetchPage id writable = (.error (.outOfMemory (ascii "all buffer pages are pinned")), pool) → pool = u.pool) ∧
    (∀ pool, u.pool.newPage = (.error (.outOfMemory (ascii "all buffer pages are pinned")), pool) →
      pool.frames = u.pool.frames ∧ pool.pageTable = u.pool.pageTable ∧ SamePages u.pool.disk pool.disk) := by
  have hSound := h.sound
  refine ⟨fun guard hGuard => ?_, fun id i => ?_, fun hGuards pool hFlush id body page hBody =>
    hSound.flushed hGuards hFlush hBody page, fun id writable pool hPage hCall => hSound.fetchPage_refused hPage hCall,
    fun pool hCall => hSound.newPage_refused hCall⟩
  · have hTable := hSound.guarded guard hGuard
    exact ⟨(Sound.cached_page hSound hTable).2, hTable, (Sound.guarded_frame hSound hGuard).2⟩
  · refine (hSound.table id i).trans ⟨fun hFrame => ⟨hFrame.1, lt_length_of_id ?_, hFrame.2⟩, fun hFrame => ⟨hFrame.1, hFrame.2.2⟩⟩
    rw [hFrame.2]
    exact hFrame.1

end PoolUse

end TupleStone
