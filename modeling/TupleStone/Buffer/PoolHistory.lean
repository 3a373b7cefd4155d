import TupleStone.Buffer.PoolUse

/-! # The fetches of a pool

Beside the pool, a run keeps the list of the pages fetched, the last fetch first. Nothing is asked of the callers or of
the disk: pages are released, changed and deleted at any time, and the disk changes in any way between two calls.
-/

set_option autoImplicit false

namespace TupleStone

open BufferPool

structure PoolHistory where
  pool : BufferPool
  fetches : List UInt32

inductive PoolAction where
  | fetchPage (pageId : UInt32) (writable : Bool)
  | newPage
  | release (pageId : UInt32) (dirty : Bool)
  | modify (i : Nat) (body : PageBody)
  | flushPage (pageId : UInt32)
  | flushAllPages
  | deletePage (pageId : UInt32)
  | disk (disk : Disk)

namespace PoolHistory

def step (s : PoolHistory) : PoolAction → PoolHistory
  | .fetchPage pageId writable =>
    match s.pool.fetchPage pageId writable with
    | (.ok _, pool) => ⟨pool, pageId :: s.fetches⟩
    | (.error _, pool) => ⟨pool, s.fetches⟩
  | .newPage =>
    match s.pool.newPage with
    | (.ok (_, pageId), pool) => ⟨pool, pageId :: s.fetches⟩
    | (.error _, pool) => ⟨pool, s.fetches⟩
  | .release pageId dirty => ⟨s.pool.release pageId dirty, s.fetches⟩
  | .modify i body => ⟨s.pool.setFrame i { s.pool.frame i with page := (s.pool.frame i).page.setBody body }, s.fetches⟩
  | .flushPage pageId => ⟨(s.pool.flushPage pageId).2, s.fetches⟩
  | .flushAllPages => ⟨s.pool.flushAllPages.2, s.fetches⟩
  | .deletePage pageId => ⟨(s.pool.deletePage pageId).2, s.fetches⟩
  | .disk disk => ⟨{ s.pool with disk := disk }, s.fetches⟩

/-- What a pool of so many frames and its fetches may have become. -/
inductive Reached (poolSize : Nat) : PoolHistory → Prop where
  | start (disk : Disk) : Reached poolSize ⟨.ofSize poolSize disk, []⟩
  | step {s : PoolHistory} (h : Reached poolSize s) (action : PoolAction) : Reached poolSize (s.step action)

/-- The number of the last fetch of a page, from one on. -/
def lastFetch (fetches : List UInt32) (id : UInt32) : Nat := fetches.length - fetches.idxOf id

@[simp] theorem lastFetch_cons_self (fetches : List UInt32) (id : UInt32) : lastFetch (id :: fetches) id = fetches.length + 1 := by
  rw [lastFetch, List.idxOf_cons_self, List.length_cons, Nat.sub_zero]

theorem lastFetch_cons_of_ne (fetches : List UInt32) {id other : UInt32} (h : other ≠ id) :
    lastFetch (id :: fetches) other = lastFetch fetches other := by
  rw [lastFetch, List.idxOf_cons_ne _ h.symm, List.length_cons, Nat.succ_sub_succ, lastFetch]

theorem lastFetch_le (fetches : List UInt32) (id : UInt32) : lastFetch fetches id ≤ fetches.length := Nat.sub_le _ _

/-- Different pages were last fetched at different times. -/
theorem lastFetch_injective {fetches : List UInt32} {id other : UInt32} (h : id ∈ fetches) (hOther : other ∈ fetches)
    (hSame : lastFetch fetches id = lastFetch fetches other) : id = other := by
  have hId := List.idxOf_lt_length_of_mem h
  have hOtherIndex := List.idxOf_lt_length_of_mem hOther
  have hIndex : fetches.idxOf id = fetches.idxOf other := by
    rw [lastFetch, lastFetch] at hSame
    omega
  exact (List.idxOf_inj h).mp hIndex

/-- The table says which frame holds a page, and the age of the frame when the page was last fetched. -/
structure Consistent (poolSize : Nat) (s : PoolHistory) : Prop where
  size : s.pool.frames.length = poolSize
  table : ∀ id i, s.pool.pageTable id = some i ↔ id ≠ kInvalidPageId ∧ (s.pool.frame i).page.id = id
  clock : s.pool.clock = UInt64.ofNat s.fetches.length
  fetched : ∀ i, (s.pool.frame i).page.id ≠ kInvalidPageId → (s.pool.frame i).page.id ∈ s.fetches
  age : ∀ i, (s.pool.frame i).page.id ≠ kInvalidPageId →
    (s.pool.frame i).age = UInt64.ofNat (lastFetch s.fetches (s.pool.frame i).page.id)

variable {poolSize : Nat} {pool pool' : BufferPool} {fetches : List UInt32} {i : Nat} {f : Frame} {id : UInt32}

theorem consistent_start (poolSize : Nat) (disk : Disk) : Consistent poolSize ⟨.ofSize poolSize disk, []⟩ := by
  have hFrame (i : Nat) : (BufferPool.ofSize poolSize disk).frame i = {} := by
    simp only [frame, ofSize, List.getD_eq_getElem?_getD, List.getElem?_replicate]
    split <;> rfl
  constructor
  case size => exact List.length_replicate
  case table =>
    intro id i
    rw [hFrame]
    exact ⟨(by intro h; cases h), fun h => absurd h.2.symm h.1⟩
  case clock => rfl
  case fetched => exact fun i h => absurd (congrArg (fun f => f.page.id) (hFrame i)) h
  case age => exact fun i h => absurd (congrArg (fun f => f.page.id) (hFrame i)) h

namespace Consistent

theorem lt_size (h : Consistent poolSize ⟨pool, fetches⟩) (hTable : pool.pageTable id = some i) : i < pool.frames.length := by
  obtain ⟨hId, hSame⟩ := (h.table id i).mp hTable
  exact lt_length_of_id (hSame ▸ hId)

/-- A frame changes but keeps its page and its age. -/
theorem keep (h : Consistent poolSize ⟨pool, fetches⟩) (hFrames : pool'.frames = pool.frames.set i f)
    (hTable : pool'.pageTable = pool.pageTable) (hClock : pool'.clock = pool.clock) (hId : f.page.id = (pool.frame i).page.id)
    (hAge : f.age = (pool.frame i).age) : Consistent poolSize ⟨pool', fetches⟩ := by
  have hSame (j : Nat) : (pool'.frame j).page.id = (pool.frame j).page.id ∧ (pool'.frame j).age = (pool.frame j).age := by
    have hFrame : pool'.frame j = (pool.setFrame i f).frame j := by
      rw [frame, hFrames]
      rfl
    rw [hFrame]
    obtain rfl | hNe := eq_or_ne j i
    · obtain hLt | hLe := Nat.lt_or_ge j pool.frames.length
      · rw [frame_setFrame_self hLt]
        exact ⟨hId, hAge⟩
      · rw [setFrame, List.set_eq_of_length_le hLe]
        exact ⟨rfl, rfl⟩
    · rw [frame_setFrame_of_ne hNe]
      exact ⟨rfl, rfl⟩
  constructor
  case size => exact (congrArg List.length hFrames).trans ((List.length_set ..).trans h.size)
  case table =>
    intro id j
    rw [hTable, (hSame j).1]
    exact h.table id j
  case clock => exact hClock.trans h.clock
  case fetched =>
    intro j hValid
    rw [(hSame j).1] at hValid ⊢
    exact h.fetched j hValid
  case age =>
    intro j hValid
    rw [(hSame j).1] at hValid ⊢
    exact (hSame j).2.trans (h.age j hValid)

/-- The disk does not matter. -/
theorem withDisk (h : Consistent poolSize ⟨pool, fetches⟩) (disk : Disk) : Consistent poolSize ⟨{ pool with disk := disk }, fetches⟩ :=
  ⟨h.size, h.table, h.clock, h.fetched, h.age⟩

/-- The frame of a page becomes empty. -/
theorem emptied (h : Consistent poolSize ⟨pool, fetches⟩) (hTable : pool.pageTable id = some i)
    (hFrames : pool'.frames = pool.frames.set i f) (hUpdate : pool'.pageTable = Function.update pool.pageTable id none)
    (hClock : pool'.clock = pool.clock) (hEmpty : f.page.id = kInvalidPageId) : Consistent poolSize ⟨pool', fetches⟩ := by
  obtain ⟨hId, hFrameId⟩ := (h.table id i).mp hTable
  have hSelf : pool'.frame i = f := by
    rw [frame, hFrames]
    exact frame_setFrame_self (h.lt_size hTable)
  have hOther (j : Nat) (hNe : j ≠ i) : pool'.frame j = pool.frame j := by
    rw [frame, hFrames]
    exact frame_setFrame_of_ne hNe
  constructor
  case size => exact (congrArg List.length hFrames).trans ((List.length_set ..).trans h.size)
  case table =>
    intro other j
    rw [hUpdate]
    obtain rfl | hNe := eq_or_ne j i
    · rw [hSelf, hEmpty]
      refine iff_of_false (fun hSome => ?_) fun hSame => hSame.1 hSame.2.symm
      obtain rfl | hNeId := eq_or_ne other id
      · rw [Function.update_self] at hSome
        cases hSome
      · rw [Function.update_of_ne hNeId] at hSome
        exact hNeId (((h.table other j).mp hSome).2.symm.trans hFrameId)
    · rw [hOther j hNe]
      obtain rfl | hNeId := eq_or_ne other id
      · rw [Function.update_self]
        refine iff_of_false (fun h => by cases h) fun hSame => ?_
        exact hNe (Option.some.inj (((h.table other j).mpr hSame).symm.trans hTable))
      · rw [Function.update_of_ne hNeId]
        exact h.table other j
  case clock => exact hClock.trans h.clock
  case fetched =>
    intro j hValid
    obtain rfl | hNe := eq_or_ne j i
    · rw [hSelf] at hValid
      exact absurd hEmpty hValid
    · rw [hOther j hNe] at hValid ⊢
      exact h.fetched j hValid
  case age =>
    intro j hValid
    obtain rfl | hNe := eq_or_ne j i
    · rw [hSelf] at hValid
      exact absurd hEmpty hValid
    · rw [hOther j hNe] at hValid ⊢
      exact h.age j hValid

/-- The page fetched is in a frame, now or before, whose age is the new time. -/
theorem fetch (h : Consistent poolSize ⟨pool, fetches⟩) (hLt : i < pool.frames.length) (hId : id ≠ kInvalidPageId)
    (hFrames : pool'.frames = pool.frames.set i f) (hUpdate : pool'.pageTable = Function.update pool.pageTable id (some i))
    (hClock : pool'.clock = pool.clock + 1) (hFrameId : f.page.id = id) (hAge : f.age = pool.clock + 1)
    (hHere : pool.pageTable id = some i ∨ pool.pageTable id = none ∧ (pool.frame i).page.id = kInvalidPageId) :
    Consistent poolSize ⟨pool', id :: fetches⟩ := by
  have hSelf : pool'.frame i = f := by
    rw [frame, hFrames]
    exact frame_setFrame_self hLt
  have hOther (j : Nat) (hNe : j ≠ i) : pool'.frame j = pool.frame j := by
    rw [frame, hFrames]
    exact frame_setFrame_of_ne hNe
  have hTime : pool.clock + 1 = UInt64.ofNat (fetches.length + 1) := by
    rw [h.clock, UInt64.ofNat_add]
    rfl
  -- no other frame holds the page
  have hOtherId (j : Nat) (hNe : j ≠ i) : (pool.frame j).page.id ≠ id := by
    intro hSame
    have hThere := (h.table id j).mpr ⟨hId, hSame⟩
    obtain hTable | ⟨hNone, -⟩ := hHere
    · exact hNe (Option.some.inj (hThere.symm.trans hTable))
    · exact Option.some_ne_none _ (hThere.symm.trans hNone)
  constructor
  case size => exact (congrArg List.length hFrames).trans ((List.length_set ..).trans h.size)
  case table =>
    intro other j
    rw [hUpdate]
    obtain rfl | hNeId := eq_or_ne other id
    · rw [Function.update_self]
      obtain rfl | hNe := eq_or_ne j i
      · exact iff_of_true rfl ⟨hId, hSelf ▸ hFrameId⟩
      · refine iff_of_false (fun hSome => hNe (Option.some.inj hSome).symm) fun hSame => ?_
        exact hOtherId j hNe ((hOther j hNe) ▸ hSame.2)
    · rw [Function.update_of_ne hNeId]
      obtain rfl | hNe := eq_or_ne j i
      · rw [hSelf, hFrameId]
        refine iff_of_false (fun hSome => ?_) fun hSame => hNeId hSame.2.symm
        obtain ⟨hValid, hSame⟩ := (h.table other j).mp hSome
        obtain hTable | ⟨-, hEmpty⟩ := hHere
        · exact hNeId (hSame.symm.trans ((h.table id j).mp hTable).2)
        · exact hValid (hSame.symm.trans hEmpty)
      · rw [hOther j hNe]
        exact h.table other j
  case clock => exact hClock.trans hTime
  case fetched =>
    intro j hValid
    obtain rfl | hNe := eq_or_ne j i
    · rw [hSelf, hFrameId]
      exact List.mem_cons_self
    · rw [hOther j hNe] at hValid ⊢
      exact List.mem_cons_of_mem _ (h.fetched j hValid)
  case age =>
    intro j hValid
    obtain rfl | hNe := eq_or_ne j i
    · rw [hSelf, hFrameId, lastFetch_cons_self, hAge, hTime]
    · rw [hOther j hNe] at hValid ⊢
      rw [lastFetch_cons_of_ne _ (hOtherId j hNe)]
      exact h.age j hValid

/-! ## The calls -/

theorem release (h : Consistent poolSize ⟨pool, fetches⟩) (id : UInt32) (dirty : Bool) :
    Consistent poolSize ⟨pool.release id dirty, fetches⟩ := by
  rw [BufferPool.release]
  split
  · exact h
  · exact h.keep rfl rfl rfl rfl rfl

theorem writeBack (h : Consistent poolSize ⟨pool, fetches⟩) (i : Nat) (id : UInt32) :
    Consistent poolSize ⟨(pool.writeBack i id).2, fetches⟩ := by
  rw [BufferPool.writeBack]
  split
  · exact (h.withDisk _).keep rfl rfl rfl rfl rfl
  · exact h.withDisk _

theorem flushPage (h : Consistent poolSize ⟨pool, fetches⟩) (id : UInt32) :
    Consistent poolSize ⟨(pool.flushPage id).2, fetches⟩ := by
  rw [BufferPool.flushPage]
  split
  · exact h
  · exact h.writeBack _ _

theorem flushFrames (h : Consistent poolSize ⟨pool, fetches⟩) (indexes : List Nat) :
    Consistent poolSize ⟨(pool.flushFrames indexes).2, fetches⟩ := by
  induction indexes generalizing pool with
  | nil => exact h
  | cons i rest ih =>
    rw [BufferPool.flushFrames]
    split
    · have hBack := h.writeBack i (pool.frame i).page.id
      split
      · rename_i hWritten
        rw [hWritten] at hBack
        exact ih hBack
      · rename_i hFailed
        rw [hFailed] at hBack
        exact hBack
    · exact ih h

theorem deletePage (h : Consistent poolSize ⟨pool, fetches⟩) (id : UInt32) :
    Consistent poolSize ⟨(pool.deletePage id).2, fetches⟩ := by
  rw [BufferPool.deletePage]
  split
  · exact h.withDisk _
  · rename_i i hTable
    split
    · exact h
    · have hEmptied : Consistent poolSize
          ⟨(pool.setFrame i { pool.frame i with page := .reset, dirty := false }).setTable id none, fetches⟩ :=
        h.emptied hTable rfl rfl rfl rfl
      exact hEmptied.withDisk _

/-- A victim is emptied, unless it is a page that cannot be written back. -/
theorem evict (h : Consistent poolSize ⟨pool, fetches⟩) (hLt : i < pool.frames.length) {status : Status}
    (hEvict : pool.evict i = (status, pool')) : Consistent poolSize ⟨pool', fetches⟩ ∧
      (status = .ok → (pool'.frame i).page.id = kInvalidPageId) := by
  rw [BufferPool.evict] at hEvict
  split at hEvict
  · rename_i hValid
    have hTable := (h.table _ i).mpr ⟨hValid, rfl⟩
    split at hEvict
    · split at hEvict
      · cases hEvict
        refine ⟨(h.withDisk _).emptied (f := { pool.frame i with page := .reset }) hTable rfl rfl rfl rfl, fun _ => ?_⟩
        exact congrArg (fun f => f.page.id) (frame_setFrame_self (f := { pool.frame i with page := .reset }) hLt)
      · rename_i hFailed _
        cases hEvict
        exact ⟨h.withDisk _, fun hOk => absurd hOk hFailed⟩
    · cases hEvict
      refine ⟨h.emptied (f := { pool.frame i with page := .reset }) hTable rfl rfl rfl rfl, fun _ => ?_⟩
      exact congrArg (fun f => f.page.id) (frame_setFrame_self (f := { pool.frame i with page := .reset }) hLt)
  · rename_i hEmpty
    cases hEvict
    refine ⟨h.keep (f := { pool.frame i with page := .reset }) rfl rfl rfl (not_not.mp hEmpty).symm rfl, fun _ => ?_⟩
    exact congrArg (fun f => f.page.id) (frame_setFrame_self (f := { pool.frame i with page := .reset }) hLt)

/-- Eviction adds nothing to the table. -/
theorem evict_table {status : Status} (hEvict : pool.evict i = (status, pool')) (hNone : pool.pageTable id = none) :
    pool'.pageTable id = none := by
  have hUpdate (other : UInt32) : Function.update pool.pageTable other none id = none := by
    obtain rfl | hNe := eq_or_ne id other
    · exact Function.update_self ..
    · rw [Function.update_of_ne hNe, hNone]
  rw [BufferPool.evict] at hEvict
  split at hEvict
  · split at hEvict
    · split at hEvict
      · cases hEvict
        exact hUpdate _
      · cases hEvict
        exact hNone
    · cases hEvict
      exact hUpdate _
  · cases hEvict
    exact hNone

theorem load (h : Consistent poolSize ⟨pool, fetches⟩) (hLt : i < pool.frames.length)
    (hEmpty : (pool.frame i).page.id = kInvalidPageId) (hNone : pool.pageTable id = none) (writable : Bool) :
    (∃ guard pool', pool.load i id writable = (.ok guard, pool') ∧ Consistent poolSize ⟨pool', id :: fetches⟩ ∧
      pool'.pageTable = Function.update pool.pageTable id (some i)) ∨
    ∃ status, pool.load i id writable = (.error status, pool) := by
  cases hRead : pool.disk.readPage id (some (pool.frame i).page) with
  | mk status found =>
    by_cases hOk : status = .ok
    · subst hOk
      have hId : id ≠ kInvalidPageId := by
        rintro rfl
        rw [Disk.readPage, Disk.ensurePageLocked, if_pos (.inl rfl)] at hRead
        cases hRead
      have hFetch : Consistent poolSize ⟨({ pool with clock := pool.clock + 1 }.setFrame i
          ⟨{ found.getD .reset with id := id }, 1, false, pool.clock + 1⟩).setTable id (some i), id :: fetches⟩ :=
        h.fetch hLt hId rfl rfl rfl rfl rfl (.inr ⟨hNone, hEmpty⟩)
      refine .inl ⟨⟨id, i, writable⟩, _, ?_, hFetch, rfl⟩
      rw [BufferPool.load, hRead]
    · refine .inr ⟨status, ?_⟩
      rw [BufferPool.load, hRead]
      split
      · rename_i hSame
        cases hSame
        exact absurd rfl hOk
      · rename_i hSame
        cases hSame
        rfl

/-- A fetch of a page that is in no frame. -/
theorem fetchPage_uncached (hNone : pool.pageTable id = none) (writable : Bool) :
    (pool.victimLocked = none ∧
      pool.fetchPage id writable = (.error (.outOfMemory (ascii "all buffer pages are pinned")), pool)) ∨
    ∃ i status evicted, pool.victimLocked = some i ∧ pool.evict i = (status, evicted) ∧
      (status = .ok ∧ pool.fetchPage id writable = evicted.load i id writable ∨
        status ≠ .ok ∧ pool.fetchPage id writable = (.error status, evicted)) := by
  cases hVictim : pool.victimLocked with
  | none =>
    refine .inl ⟨rfl, ?_⟩
    rw [BufferPool.fetchPage, hNone]
    simp only [hVictim]
  | some i =>
    cases hEvict : pool.evict i with
    | mk status evicted =>
      refine .inr ⟨i, status, evicted, rfl, hEvict, ?_⟩
      by_cases hOk : status = .ok
      · subst hOk
        refine .inl ⟨rfl, ?_⟩
        rw [BufferPool.fetchPage, hNone]
        simp only [hVictim, hEvict]
      · refine .inr ⟨hOk, ?_⟩
        rw [BufferPool.fetchPage, hNone]
        simp only [hVictim, hEvict]

theorem fetchPage (h : Consistent poolSize ⟨pool, fetches⟩) (id : UInt32) (writable : Bool) :
    (∃ guard pool', pool.fetchPage id writable = (.ok guard, pool') ∧ Consistent poolSize ⟨pool', id :: fetches⟩) ∨
      ∃ status pool', pool.fetchPage id writable = (.error status, pool') ∧ Consistent poolSize ⟨pool', fetches⟩ := by
  cases hTable : pool.pageTable id with
  | some i =>
    obtain ⟨hId, hFrameId⟩ := (h.table id i).mp hTable
    have hSame : Function.update pool.pageTable id (some i) = pool.pageTable := by rw [← hTable, Function.update_eq_self]
    have hFetch : Consistent poolSize ⟨{ pool with clock := pool.clock + 1 }.setFrame i
        { pool.frame i with pinCount := (pool.frame i).pinCount + 1, age := pool.clock + 1 }, id :: fetches⟩ :=
      h.fetch (h.lt_size hTable) hId rfl hSame.symm rfl hFrameId rfl (.inl hTable)
    refine .inl ⟨⟨id, i, writable⟩, _, ?_, hFetch⟩
    rw [BufferPool.fetchPage, hTable]
  | none =>
    obtain ⟨-, hFetch⟩ | ⟨i, status, evicted, hVictim, hEvict, hLoaded⟩ := fetchPage_uncached hTable writable
    · exact .inr ⟨_, _, hFetch, h⟩
    · obtain ⟨hLt, -⟩ := victim_unpinned hVictim
      obtain ⟨hEvicted, hEmpty⟩ := h.evict hLt hEvict
      obtain ⟨hOk, hFetch⟩ | ⟨-, hFetch⟩ := hLoaded
      · have hSizes := hEvicted.size.trans h.size.symm
        obtain ⟨guard, pool', hLoad, hConsistent, -⟩ | ⟨status, hLoad⟩ :=
          hEvicted.load (hSizes ▸ hLt) (hEmpty hOk) (evict_table hEvict hTable) writable
        · exact .inl ⟨guard, pool', hFetch.trans hLoad, hConsistent⟩
        · exact .inr ⟨status, evicted, hFetch.trans hLoad, hEvicted⟩
      · exact .inr ⟨status, evicted, hFetch, hEvicted⟩

theorem step {s : PoolHistory} (h : Consistent poolSize s) (action : PoolAction) : Consistent poolSize (s.step action) := by
  cases action with
  | fetchPage id writable =>
    obtain ⟨guard, pool', hFetch, hNext⟩ | ⟨status, pool', hFetch, hNext⟩ := h.fetchPage id writable
    · simp only [PoolHistory.step, hFetch]
      exact hNext
    · simp only [PoolHistory.step, hFetch]
      exact hNext
  | newPage =>
    simp only [PoolHistory.step, BufferPool.newPage]
    cases hAllocate : s.pool.disk.allocatePage with
    | mk allocated disk =>
      cases allocated with
      | error status => exact h.withDisk disk
      | ok id =>
        obtain ⟨guard, pool', hFetch, hNext⟩ | ⟨status, pool', hFetch, hNext⟩ := (h.withDisk disk).fetchPage id true
        · simp only [hFetch]
          exact hNext
        · simp only [hFetch]
          exact hNext.withDisk _
  | release id dirty => exact h.release id dirty
  | modify i body => exact h.keep rfl rfl rfl rfl rfl
  | flushPage id => exact h.flushPage id
  | flushAllPages => exact h.flushFrames _
  | deletePage id => exact h.deletePage id
  | disk disk => exact h.withDisk disk

end Consistent

theorem Reached.consistent {s : PoolHistory} (h : Reached poolSize s) : Consistent poolSize s := by
  induction h with
  | start disk => exact consistent_start poolSize disk
  | step _ action ih => exact ih.step action

end PoolHistory

end TupleStone
