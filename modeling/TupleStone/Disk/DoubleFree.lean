import TupleStone.Disk.PageRuns

/-! # Freeing any page

`FreePage` checks the number of the page and not whether the page is free already. A page that is put on the list twice
makes the list endless, and the page is handed out again while it is in use.
-/

set_option autoImplicit false

namespace TupleStone

open RandomAccess LinkedChain Disk

/-- An element of a list with one more at the end is the new one or stands before it. -/
theorem split_concat {α : Type} {xs before after : List α} {new x : α} (h : xs ++ [new] = before ++ x :: after) :
    (before = xs ∧ x = new ∧ after = []) ∨ ∃ rest, after = rest ++ [new] ∧ xs = before ++ x :: rest := by
  obtain rfl | ⟨rest, last, rfl⟩ := List.eq_nil_or_concat after
  · obtain ⟨hFront, hLast⟩ := List.append_inj' h rfl
    exact Or.inl ⟨hFront.symm, (List.singleton_inj.mp hLast).symm, rfl⟩
  · rw [List.concat_eq_append] at h ⊢
    have hSplit : xs ++ [new] = (before ++ x :: rest) ++ [last] := by
      rw [h, List.append_assoc, List.cons_append]
    obtain ⟨hFront, hLast⟩ := List.append_inj' hSplit rfl
    exact Or.inr ⟨rest, by rw [List.singleton_inj.mp hLast], hFront⟩

/-- What a call was and returned. -/
inductive PageEvent where
  | allocated (result : Except Status UInt32)
  | freed (pageId : UInt32) (result : Status)

inductive FreeCall where
  | allocatePage
  | freePage (pageId : UInt32)

structure FreeRun where
  disk : Disk
  events : List PageEvent

namespace FreeRun

def call (r : FreeRun) : FreeCall → FreeRun
  | .allocatePage => ⟨r.disk.allocatePage.2, r.events ++ [.allocated r.disk.allocatePage.1]⟩
  | .freePage pageId => ⟨(r.disk.freePage pageId).2, r.events ++ [.freed pageId (r.disk.freePage pageId).1]⟩

/-- The list from the head ends. -/
def ListEnds (r : FreeRun) : Prop := ∃ nodes, Chain r.disk.nextFree kInvalidPageId r.disk.freeListHead nodes

/-- Between two returns of a page it was freed. -/
def HandedOnce (r : FreeRun) : Prop :=
  ∀ id before between after, r.events = before ++ .allocated (.ok id) :: (between ++ .allocated (.ok id) :: after) →
    .freed id .ok ∈ between

/-- A page that is freed is not on the list, and a page is added only while there is a number for it. -/
def Careful (r : FreeRun) : FreeCall → Prop
  | .allocatePage => r.disk.freeListHead = kInvalidPageId → r.disk.pageCount < kInvalidPageId
  | .freePage id => 0 < id → id < r.disk.pageCount →
      ∀ nodes, Chain r.disk.nextFree kInvalidPageId r.disk.freeListHead nodes → id ∉ nodes

/-- Runs on a file whose list is that of its free pages, such as a new file. -/
inductive Reached : FreeRun → Prop where
  | start {s : Disk} {store : PageStore} (h : s.Stores store) : Reached ⟨s, []⟩
  | call {r : FreeRun} (h : Reached r) (c : FreeCall) (hCareful : r.Careful c) : Reached (r.call c)

/-- The disk holds a store, and a page returned and not freed since is in use. -/
structure Sound (r : FreeRun) : Prop where
  stores : ∃ store, r.disk.Stores store ∧
    ∀ id before after, r.events = before ++ .allocated (.ok id) :: after → .freed id .ok ∉ after → r.disk.InUse store id
  once : r.HandedOnce

variable {r : FreeRun}

/-- An event that returns no page. -/
theorem HandedOnce.concat (h : r.HandedOnce) {s : Disk} {event : PageEvent} (hEvent : ∀ id, event ≠ .allocated (.ok id)) :
    HandedOnce ⟨s, r.events ++ [event]⟩ := by
  intro id before between after hEvents
  obtain ⟨-, -, hNil⟩ | ⟨rest, hRest, hOld⟩ := split_concat hEvents
  · exact absurd hNil (by simp)
  · obtain ⟨-, hNew, -⟩ | ⟨last, rfl, hBetween⟩ := split_concat hRest.symm
    · exact absurd hNew.symm (hEvent id)
    · exact h id before between last (by rw [hOld, hBetween])

theorem Sound.allocatePage (h : r.Sound) (hCareful : r.Careful .allocatePage) : (r.call .allocatePage).Sound := by
  obtain ⟨⟨store, hStores, hHeld⟩, hOnce⟩ := h
  obtain ⟨id, t, free, hCall, hTaken, hFresh, hUse⟩ := hStores.allocatePage hCareful
  have hRun : r.call .allocatePage = ⟨t, r.events ++ [.allocated (.ok id)]⟩ := by rw [call, hCall]
  rw [hRun]
  constructor
  · refine ⟨_, hTaken, fun other before after hEvents hKept => (hUse other).mpr ?_⟩
    obtain ⟨-, hNew, -⟩ | ⟨rest, rfl, hOld⟩ := split_concat hEvents
    · cases hNew
      exact Or.inl rfl
    · refine Or.inr (hHeld other before rest hOld fun hFreed => hKept ?_)
      exact List.mem_append_left _ hFreed
  · intro other before between after hEvents
    obtain ⟨-, -, hNil⟩ | ⟨rest, hRest, hOld⟩ := split_concat hEvents
    · exact absurd hNil (by simp)
    · obtain ⟨rfl, hNew, -⟩ | ⟨last, rfl, hBetween⟩ := split_concat hRest.symm
      · cases hNew
        by_contra hKept
        exact hFresh (hHeld id before between hOld hKept)
      · exact hOnce other before between last (by rw [hOld, hBetween])

theorem Sound.freePage (h : r.Sound) {id : UInt32} (hCareful : r.Careful (.freePage id)) : (r.call (.freePage id)).Sound := by
  obtain ⟨⟨store, hStores, hHeld⟩, hOnce⟩ := h
  have hEvent : ∀ status other, PageEvent.freed id status ≠ .allocated (.ok other) := fun _ _ hSame => (by cases hSame)
  by_cases hRange : 0 < id ∧ id < r.disk.pageCount
  · have hUsed := hCareful hRange.1 hRange.2 _ hStores.chain_nextFree
    obtain ⟨t, hCall, hCount, hFreed⟩ := hStores.freePage hRange.1 hRange.2 hUsed
    have hRun : r.call (.freePage id) = ⟨t, r.events ++ [.freed id .ok]⟩ := by rw [call, hCall]
    rw [hRun]
    refine ⟨⟨_, hFreed, fun other before after hEvents hKept => ?_⟩, hOnce.concat (hEvent _)⟩
    obtain ⟨-, hNew, -⟩ | ⟨rest, rfl, hOld⟩ := split_concat hEvents
    · exact absurd hNew.symm (hEvent _ _)
    · obtain ⟨hPos, hLt, hOff⟩ := hHeld other before rest hOld fun hFreed => hKept (List.mem_append_left _ hFreed)
      refine ⟨hPos, hCount ▸ hLt, fun hOn => ?_⟩
      obtain rfl | hOn := List.mem_cons.mp hOn
      · exact hKept (List.mem_append_right _ (List.mem_singleton.mpr rfl))
      · exact hOff hOn
  · obtain ⟨status, hStatus, hCall⟩ := freePage_refused hRange
    have hRun : r.call (.freePage id) = ⟨r.disk, r.events ++ [.freed id status]⟩ := by rw [call, hCall]
    rw [hRun]
    refine ⟨⟨store, hStores, fun other before after hEvents hKept => ?_⟩, hOnce.concat (hEvent _)⟩
    obtain ⟨-, hNew, -⟩ | ⟨rest, rfl, hOld⟩ := split_concat hEvents
    · exact absurd hNew.symm (hEvent _ _)
    · exact hHeld other before rest hOld fun hFreed => hKept (List.mem_append_left _ hFreed)

theorem Reached.sound (h : Reached r) : r.Sound := by
  induction h with
  | start hStores =>
    refine ⟨⟨_, hStores, fun id before after hEvents => ?_⟩, fun id before between after hEvents => ?_⟩
    · exact absurd hEvents.symm (by simp)
    · exact absurd hEvents.symm (by simp)
  | call _ c hCareful ih =>
    cases c with
    | allocatePage => exact ih.allocatePage hCareful
    | freePage id => exact ih.freePage hCareful

/-- In a run whose calls meet the condition a page is returned again only after it was freed, and the list ends. -/
theorem free_list_robust (h : Reached r) : r.HandedOnce ∧ r.ListEnds := by
  obtain ⟨⟨store, hStores, -⟩, hOnce⟩ := h.sound
  exact ⟨hOnce, store.free, hStores.chain_nextFree⟩

/-- Freeing a page of the list makes the list endless. -/
theorem not_listEnds_of_free_twice {store : PageStore} (hStores : r.disk.Stores store) {id : UInt32} (hMem : id ∈ store.free) :
    ¬ (r.call (.freePage id)).ListEnds := by
  obtain ⟨hPos, hLt⟩ := hStores.inRange id hMem
  have hCall := freePage_of_lt hStores.isOpen hPos hLt
  rintro ⟨nodes, hChain⟩
  rw [call, hCall] at hChain
  have hHolds := holds_rewritten (s := { r.disk with freeListHead := id }) hStores.holds hPos
    (Nat.le_of_lt (UInt32.lt_iff_toNat_lt.mp hLt)) r.disk.pageCount.toNat_lt (Page.free id r.disk.freeListHead).body
  rw [Nat.max_eq_left (UInt32.lt_iff_toNat_lt.mp hLt)] at hHolds
  refine hStores.chain.endless hMem (fun other hOther hNe => ?_) ?_ nodes hChain
  · obtain ⟨hOtherPos, hOtherLt⟩ := hStores.inRange other hOther
    rw [nextFree_of_holds hHolds hOtherPos (UInt32.lt_iff_toNat_lt.mp hOtherLt), Function.update_of_ne hNe]
  · rw [nextFree_of_holds hHolds hPos (UInt32.lt_iff_toNat_lt.mp hLt), Function.update_self, Page.next_free]

/-! ## A page freed twice -/

def newFile : FreeRun := ⟨(({} : Disk).openPath [] true).2, []⟩

def freedOnce : FreeRun := (newFile.call .allocatePage).call (.freePage 1)

theorem newFile_stores : newFile.disk.pageCount = 1 ∧ ∀ contents, newFile.disk.Stores ⟨contents, []⟩ := by
  obtain ⟨t, hCall, hCount, hStores⟩ := stores_openPath_empty (s := {}) [] true rfl rfl rfl
  have hDisk : newFile.disk = t := by rw [newFile, hCall]
  rw [hDisk]
  exact ⟨hCount, hStores⟩

theorem allocated_stores : ∃ t, newFile.call .allocatePage = ⟨t, [.allocated (.ok 1)]⟩ ∧ t.pageCount = 2 ∧
    ∃ store, t.Stores store ∧ store.free = [] := by
  obtain ⟨hCount, hStores⟩ := newFile_stores
  obtain ⟨t, hCall, hAdded, hTaken⟩ := (hStores fun _ => Page.reset.body).allocatePage_added rfl (by rw [hCount]; decide)
  rw [hCount] at hCall hAdded hTaken
  refine ⟨t, ?_, hAdded, _, hTaken, rfl⟩
  rw [call, hCall]
  rfl

theorem freedOnce_stores : freedOnce.events = [.allocated (.ok 1), .freed 1 .ok] ∧ freedOnce.disk.pageCount = 2 ∧
    ∃ store, freedOnce.disk.Stores store ∧ store.free = [1] := by
  obtain ⟨t, hFirst, hCount, store, hStores, hEmpty⟩ := allocated_stores
  obtain ⟨t', hFree, hSame, hFreed⟩ := hStores.freePage (by decide : (0 : UInt32) < 1) (by rw [hCount]; decide)
    (by rw [hEmpty]; exact List.not_mem_nil)
  have hRun : freedOnce = ⟨t', [.allocated (.ok 1), .freed 1 .ok]⟩ := by
    rw [freedOnce, hFirst, call, hFree]
    rfl
  rw [hRun]
  exact ⟨rfl, hSame.trans hCount, _, hFreed, by rw [PageStore.free_set, hEmpty]⟩

theorem reached_freedOnce : Reached freedOnce := by
  obtain ⟨hCount, hStores⟩ := newFile_stores
  obtain ⟨t, hFirst, -, store, hAllocated, hEmpty⟩ := allocated_stores
  have hStart : Reached newFile := .start (hStores fun _ => Page.reset.body)
  refine (hStart.call .allocatePage fun _ => ?_).call (.freePage 1) fun _ _ nodes hChain => ?_
  · rw [hCount]
    decide
  · rw [hFirst] at hChain
    rw [hChain.unique hAllocated.chain_nextFree, hEmpty]
    exact List.not_mem_nil

theorem freedOnce_robust : freedOnce.HandedOnce ∧ freedOnce.ListEnds := free_list_robust reached_freedOnce

/-- The page is allocated, freed twice and allocated twice. -/
def freedTwice : FreeRun := ((freedOnce.call (.freePage 1)).call .allocatePage).call .allocatePage

/-- What is left of a list of one page that is freed again: the head stays, and so does the page after an allocation. -/
theorem freedTwice_events : freedTwice.events =
    [.allocated (.ok 1), .freed 1 .ok, .freed 1 .ok, .allocated (.ok 1), .allocated (.ok 1)] := by
  obtain ⟨hEvents, hCount, store, hStores, hFree⟩ := freedOnce_stores
  have hPos : (0 : UInt32) < 1 := by decide
  have hLt : 1 < freedOnce.disk.pageCount := by
    rw [hCount]
    decide
  have hNat := UInt32.lt_iff_toNat_lt.mp hLt
  have hChain := hStores.chain
  rw [hFree] at hChain
  have hHead : freedOnce.disk.freeListHead = 1 := hChain.head_eq
  have hAgain := freePage_of_lt hStores.isOpen hPos hLt
  have hHolds := holds_rewritten (s := { freedOnce.disk with freeListHead := 1 }) hStores.holds hPos (Nat.le_of_lt hNat)
    freedOnce.disk.pageCount.toNat_lt (Page.free 1 freedOnce.disk.freeListHead).body
  rw [Nat.max_eq_left hNat] at hHolds
  generalize hThird : ({ freedOnce.disk with freeListHead := 1 } : Disk).rewritten 1 _ = third at hAgain hHolds
  have hThirdOpen : third.isOpen = true := hThird ▸ hStores.isOpen
  have hThirdCount : third.pageCount = freedOnce.disk.pageCount := hThird ▸ rfl
  have hThirdHead : third.freeListHead = 1 := hThird ▸ rfl
  have hFourth := allocatePage_of_head hThirdOpen (hThirdCount ▸ hHolds) hThirdHead hPos (hThirdCount ▸ hLt)
  rw [Function.update_self, Page.next_free, hHead] at hFourth
  have hFourthHolds := holds_rewritten (s := { third with freeListHead := 1 }) hHolds hPos (Nat.le_of_lt hNat)
    freedOnce.disk.pageCount.toNat_lt (Page.free 1 kInvalidPageId).body
  rw [Nat.max_eq_left hNat] at hFourthHolds
  generalize hFourthDisk : ({ third with freeListHead := 1 } : Disk).rewritten 1 _ = fourth at hFourth hFourthHolds
  have hFourthOpen : fourth.isOpen = true := hFourthDisk ▸ hThirdOpen
  have hFourthCount : fourth.pageCount = freedOnce.disk.pageCount := hFourthDisk ▸ hThirdCount
  have hFourthHead : fourth.freeListHead = 1 := hFourthDisk ▸ rfl
  have hFifth := allocatePage_of_head hFourthOpen (hFourthCount ▸ hFourthHolds) hFourthHead hPos (hFourthCount ▸ hLt)
  rw [freedTwice, call, call, call, hAgain, hFourth, hFifth, hEvents]
  rfl

theorem double_free_hands_out_twice :
    ¬ (freedOnce.call (.freePage 1)).ListEnds ∧ ¬ freedTwice.HandedOnce := by
  obtain ⟨-, -, store, hStores, hFree⟩ := freedOnce_stores
  constructor
  · exact not_listEnds_of_free_twice hStores (by rw [hFree]; exact List.mem_singleton.mpr rfl)
  · intro hOnce
    exact absurd (hOnce 1 [.allocated (.ok 1), .freed 1 .ok, .freed 1 .ok] [] [] freedTwice_events) List.not_mem_nil

end FreeRun

end TupleStone
