import TupleStone.Disk.PageStore

/-! # Runs of the disk manager on one file

A run allocates, frees, writes and reads pages, closes and opens the file, and replaces the manager. Beside the disk it
keeps the pages in use with what was last written to them.
-/

set_option autoImplicit false

namespace TupleStone

open RandomAccess LinkedChain

inductive DiskCall where
  | allocatePage
  | freePage (pageId : UInt32)
  | writePage (pageId : UInt32) (page : Page)
  | readPage (pageId : UInt32)
  | openPath (createIfMissing : Bool)
  | close
  | restart

/-- A disk, and the contents of the pages that were allocated and not freed since. -/
structure PageUse where
  disk : Disk
  pages : UInt32 → Option PageBody

namespace PageUse

def start (file : Option Bytes) : PageUse := ⟨{ file := file }, fun _ => none⟩

def call (path : Bytes) (u : PageUse) : DiskCall → PageUse
  | .allocatePage =>
    match u.disk.allocatePage with
    | (.ok pageId, disk) => ⟨disk, Function.update u.pages pageId (some (Page.free pageId kInvalidPageId).body)⟩
    | (.error _, disk) => ⟨disk, u.pages⟩
  | .freePage pageId =>
    match u.disk.freePage pageId with
    | (.ok, disk) => ⟨disk, Function.update u.pages pageId none⟩
    | (_, disk) => ⟨disk, u.pages⟩
  | .writePage pageId page =>
    match u.disk.writePage pageId page with
    | (.ok, disk) => ⟨disk, Function.update u.pages pageId (some page.body)⟩
    | (_, disk) => ⟨disk, u.pages⟩
  | .readPage _ => u
  | .openPath createIfMissing => ⟨(u.disk.openPath path createIfMissing).2, u.pages⟩
  | .close => ⟨u.disk.close.2, u.pages⟩
  | .restart => ⟨u.disk.restarted, u.pages⟩

/-- Pages freed, written and read are in use, and a page is added only while there is a number for it. -/
def Allowed (u : PageUse) : DiskCall → Prop
  | .allocatePage => u.disk.freeListHead = kInvalidPageId → u.disk.pageCount < kInvalidPageId
  | .freePage pageId => u.pages pageId ≠ none
  | .writePage pageId _ => u.pages pageId ≠ none
  | .readPage pageId => u.pages pageId ≠ none
  | _ => True

inductive Reached (path : Bytes) (file : Option Bytes) : PageUse → Prop where
  | start : Reached path file (start file)
  | call {u : PageUse} (h : Reached path file u) (c : DiskCall) (hAllowed : u.Allowed c) : Reached path file (u.call path c)

end PageUse

/-- The pages of the store that are not on its free list. -/
def Disk.inUse (s : Disk) (store : PageStore) (id : UInt32) : Option PageBody :=
  if s.InUse store id then some (store.contents id) else none

namespace PageUse

/-- Nothing was stored yet, or the file holds a store and the manager, when it is open, is the one that wrote it. -/
inductive Sound (u : PageUse) : Prop where
  | empty (hClosed : u.disk.isOpen = false) (hBytes : u.disk.bytes = []) (hPages : u.pages = fun _ => none)
  | stored {s : Disk} {store : PageStore} (h : s.Stores store) (hFile : u.disk.file = s.file)
      (hOpen : u.disk.isOpen = true → u.disk = s) (hPages : u.pages = s.inUse store)

end PageUse

namespace Disk

variable {s : Disk} {store : PageStore}

/-! ## Closed managers -/

theorem allocatePage_closed (h : s.isOpen = false) :
    s.allocatePage = (.error (.ioError (ascii "database is not open")), s) := by
  rw [allocatePage, h, if_neg Bool.false_ne_true]

theorem writePage_closed (h : s.isOpen = false) (id : UInt32) (page : Page) :
    ∃ status, status ≠ .ok ∧ s.writePage id page = (status, s) := by
  by_cases hLt : id < s.pageCount
  · refine ⟨ioFailure "write page" s.path, Status.noConfusion, ?_⟩
    simp only [writePage, writePageLocked, ensurePageLocked_of_lt hLt, write, h, if_neg Bool.false_ne_true]
  · exact ⟨_, Status.noConfusion, writePageLocked_of_not_lt hLt page⟩

theorem freePage_closed (h : s.isOpen = false) (id : UInt32) : ∃ status, status ≠ .ok ∧ s.freePage id = (status, s) := by
  by_cases hRange : 0 < id ∧ id < s.pageCount
  · have hHeader : id ≠ kHeaderPageId := (UInt32.ne_of_lt hRange.1).symm
    refine ⟨ioFailure "write page" s.path, Status.noConfusion, ?_⟩
    simp only [freePage, ensurePageLocked_of_lt hRange.2, if_neg hHeader, writePageLocked, write, h,
      if_neg Bool.false_ne_true]
    rfl
  · exact freePage_refused hRange

theorem readPage_closed (h : s.isOpen = false) (id : UInt32) (page : Page) :
    ∃ status, status ≠ .ok ∧ status ≠ .corruption (ascii "page checksum mismatch") ∧
      s.readPage id (some page) = (status, some page) := by
  have hRead (offset : Nat) : s.read offset kPageSize = none := by
    rw [read, h, if_neg Bool.false_ne_true]
  by_cases hLt : id < s.pageCount
  · refine ⟨ioFailure "read page" s.path, Status.noConfusion, fun hSame => (by cases hSame), ?_⟩
    simp only [readPage, ensurePageLocked_of_lt hLt]
    split
    · rfl
    · rename_i hSome
      exact absurd ((hRead _).symm.trans hSome) (Option.some_ne_none _).symm
  · refine ⟨.outOfRange (ascii "page id is out of range"), Status.noConfusion, fun hSame => (by cases hSame), ?_⟩
    simp only [readPage, ensurePageLocked_of_not_lt hLt]
    rfl

/-! ## The pages in use -/

variable {id : UInt32}

theorem inUse_eq_some {body : PageBody} : s.inUse store id = some body ↔ s.InUse store id ∧ store.contents id = body := by
  rw [inUse, Option.ite_none_right_eq_some, Option.some_inj]

theorem inUse_eq_none : s.inUse store id = none ↔ ¬ s.InUse store id := by
  rw [inUse, ite_eq_right_iff]
  exact ⟨fun h hUse => absurd (h hUse) (Option.some_ne_none _), fun h hUse => absurd hUse h⟩

/-- A page that is not in use before or is not afterwards. -/
theorem inUse_set {t : Disk} {free : List UInt32} {body : PageBody} {found : Option PageBody}
    (hId : t.inUse (store.set id body free) id = found)
    (hOther : ∀ other, other ≠ id → (t.InUse (store.set id body free) other ↔ s.InUse store other)) :
    Function.update (s.inUse store) id found = t.inUse (store.set id body free) := by
  funext other
  obtain rfl | hNe := eq_or_ne other id
  · rw [Function.update_self, hId]
  · rw [Function.update_of_ne hNe, inUse, inUse, PageStore.contents_set_of_ne _ _ _ _ hNe]
    exact if_congr (hOther other hNe).symm rfl rfl

end Disk

namespace PageUse

open Disk

variable {path : Bytes} {file : Option Bytes} {u : PageUse}

/-- When the manager is open, it and the pages in use are those of the store. -/
theorem Sound.of_open (h : u.Sound) (hOpen : u.disk.isOpen = true) :
    ∃ store, u.disk.Stores store ∧ u.pages = u.disk.inUse store := by
  cases h with
  | empty hClosed => exact absurd hOpen (by rw [hClosed]; exact Bool.false_ne_true)
  | stored hStores _ hSame hPages =>
    obtain rfl := hSame hOpen
    exact ⟨_, hStores, hPages⟩

theorem sound_of_stores {s : Disk} {store : PageStore} {pages : UInt32 → Option PageBody} (h : s.Stores store)
    (hPages : pages = s.inUse store) : Sound ⟨s, pages⟩ :=
  .stored h rfl (fun _ => rfl) hPages

theorem Sound.allocatePage (h : u.Sound) (hAllowed : u.Allowed .allocatePage) : (u.call path .allocatePage).Sound := by
  cases hOpen : u.disk.isOpen with
  | true =>
    obtain ⟨store, hStores, hPages⟩ := h.of_open hOpen
    obtain ⟨id, t, free, hCall, hTaken, -, hUse⟩ := hStores.allocatePage hAllowed
    rw [call, hCall]
    apply sound_of_stores hTaken
    rw [hPages]
    refine inUse_set (inUse_eq_some.mpr ⟨(hUse id).mpr (Or.inl rfl), PageStore.contents_set_self _ _ _ _⟩) fun other hNe => ?_
    rw [hUse, or_iff_right hNe]
  | false =>
    rw [call, allocatePage_closed hOpen]
    exact h

theorem Sound.freePage (h : u.Sound) {id : UInt32} (hAllowed : u.Allowed (.freePage id)) :
    (u.call path (.freePage id)).Sound := by
  cases hOpen : u.disk.isOpen with
  | true =>
    obtain ⟨store, hStores, hPages⟩ := h.of_open hOpen
    have hId : u.disk.InUse store id := by
      rw [Allowed, hPages, ne_eq, inUse_eq_none, not_not] at hAllowed
      exact hAllowed
    obtain ⟨hPos, hLt, hUsed⟩ := hId
    obtain ⟨t, hCall, hCount, hFreed⟩ := hStores.freePage hPos hLt hUsed
    rw [call, hCall]
    apply sound_of_stores hFreed
    rw [hPages]
    refine inUse_set (inUse_eq_none.mpr fun hUse => hUse.2.2 List.mem_cons_self) fun other hNe => ?_
    rw [InUse, InUse, hCount, PageStore.free_set, List.mem_cons, or_iff_right hNe]
  | false =>
    obtain ⟨status, hStatus, hCall⟩ := freePage_closed hOpen id
    rw [call, hCall]
    cases status with
    | ok => exact absurd rfl hStatus
    | error => exact h

theorem Sound.writePage (h : u.Sound) {id : UInt32} {page : Page} (hAllowed : u.Allowed (.writePage id page)) :
    (u.call path (.writePage id page)).Sound := by
  cases hOpen : u.disk.isOpen with
  | true =>
    obtain ⟨store, hStores, hPages⟩ := h.of_open hOpen
    have hId : u.disk.InUse store id := by
      rw [Allowed, hPages, ne_eq, inUse_eq_none, not_not] at hAllowed
      exact hAllowed
    obtain ⟨t, hCall, hFields, hWritten⟩ := hStores.writePage hId.1 hId.2.1 hId.2.2 page
    have hSame (other : UInt32) : t.InUse (store.set id page.body store.free) other ↔ u.disk.InUse store other := by
      rw [InUse, InUse, hFields, PageStore.free_set]
    rw [call, hCall]
    apply sound_of_stores hWritten
    rw [hPages]
    exact inUse_set (inUse_eq_some.mpr ⟨(hSame id).mpr hId, PageStore.contents_set_self _ _ _ _⟩) fun other _ => hSame other
  | false =>
    obtain ⟨status, hStatus, hCall⟩ := writePage_closed hOpen id page
    rw [call, hCall]
    cases status with
    | ok => exact absurd rfl hStatus
    | error => exact h

theorem Sound.close (h : u.Sound) : Sound ⟨u.disk.close.2, u.pages⟩ := by
  cases hOpen : u.disk.isOpen with
  | true =>
    obtain ⟨store, hStores, hPages⟩ := h.of_open hOpen
    rw [hStores.close]
    exact .stored hStores rfl (fun hOpen => (by cases hOpen)) hPages
  | false =>
    rw [Disk.close, hOpen, if_neg Bool.false_ne_true]
    exact h

theorem Sound.restart (h : u.Sound) : (u.call path .restart).Sound := by
  cases h.close with
  | empty hClosed hBytes hPages => exact .empty rfl hBytes hPages
  | stored hStores hFile _ hPages => exact .stored hStores hFile (fun hOpen => (by cases hOpen)) hPages

theorem Sound.openPath (h : u.Sound) (create : Bool) : (u.call path (.openPath create)).Sound := by
  cases hOpen : u.disk.isOpen with
  | true =>
    rw [call, Disk.openPath, if_pos hOpen]
    exact h
  | false =>
    cases h with
    | empty hClosed hBytes hPages =>
      by_cases hFile : (u.disk.file.isSome || create) = true
      · obtain ⟨t, hCall, hCount, hStores⟩ := stores_openPath_empty path create hClosed hBytes hFile
        rw [call, hCall]
        apply sound_of_stores (hStores fun _ => Page.reset.body)
        rw [hPages]
        funext id
        refine (inUse_eq_none.mpr fun hUse => ?_).symm
        have hPos := UInt32.lt_iff_toNat_lt.mp hUse.1
        have hLt := UInt32.lt_iff_toNat_lt.mp (hCount ▸ hUse.2.1)
        exact absurd hPos (Nat.not_lt.mpr (Nat.le_of_lt_succ hLt))
      · rw [call, Disk.openPath, hOpen, if_neg Bool.false_ne_true, if_neg hFile]
        exact .empty rfl hBytes hPages
    | stored hStores hFile _ hPages =>
      rw [call, hStores.openPath hOpen hFile]
      exact sound_of_stores (hStores.withPath path) hPages

/-- One call. -/
theorem Sound.call (h : u.Sound) {c : DiskCall} (hAllowed : u.Allowed c) : (u.call path c).Sound := by
  cases c with
  | allocatePage => exact h.allocatePage hAllowed
  | freePage pageId => exact h.freePage hAllowed
  | writePage pageId page => exact h.writePage hAllowed
  | readPage pageId => exact h
  | openPath create => exact h.openPath create
  | close => exact h.close
  | restart => exact h.restart

theorem Reached.sound (hFile : file = none ∨ file = some []) (h : Reached path file u) : u.Sound := by
  induction h with
  | start =>
    apply Sound.empty rfl _ rfl
    obtain rfl | rfl := hFile <;> rfl
  | call _ c hAllowed ih => exact ih.call hAllowed

theorem Sound.allocated (h : u.Sound) {id : UInt32} {disk : Disk} (hCall : u.disk.allocatePage = (.ok id, disk)) :
    id ≠ kHeaderPageId ∧ u.pages id = none := by
  cases hOpen : u.disk.isOpen with
  | true =>
    obtain ⟨store, hStores, hPages⟩ := h.of_open hOpen
    obtain hRoom | ⟨hFree, hFull⟩ := hStores.room_or_full
    · obtain ⟨id', t, free, hCall', -, hFresh, hUse⟩ := hStores.allocatePage hRoom
      rw [hCall'] at hCall
      cases hCall
      have hPos := ((hUse id).mpr (Or.inl rfl)).1
      refine ⟨(UInt32.ne_of_lt hPos).symm, ?_⟩
      rw [hPages, inUse_eq_none]
      exact hFresh
    · rw [hStores.allocatePage_full hFree hFull] at hCall
      cases hCall
  | false =>
    rw [allocatePage_closed hOpen] at hCall
    cases hCall

theorem Sound.list (h : u.Sound) (hOpen : u.disk.isOpen = true) :
    ∃ free, Chain u.disk.nextFree kInvalidPageId u.disk.freeListHead free ∧ free.Nodup ∧
      ∀ id, id ∈ free ↔ 0 < id ∧ id < u.disk.pageCount ∧ u.pages id = none := by
  obtain ⟨store, hStores, hPages⟩ := h.of_open hOpen
  refine ⟨store.free, hStores.chain_nextFree, hStores.chain.nodup, fun id => ?_⟩
  rw [hPages, inUse_eq_none, InUse]
  constructor
  · intro hId
    exact ⟨(hStores.inRange id hId).1, (hStores.inRange id hId).2, fun hUse => hUse.2.2 hId⟩
  · rintro ⟨hPos, hLt, hUse⟩
    by_contra hId
    exact hUse ⟨hPos, hLt, hId⟩

theorem Sound.read (h : u.Sound) {id : UInt32} {body : PageBody} (hBody : u.pages id = some body) (page : Page) :
    (u.disk.readPage id (some page)).1 ≠ .corruption (ascii "page checksum mismatch") ∧
      (u.disk.isOpen = true → ∃ found : Page, u.disk.readPage id (some page) = (.ok, some found) ∧ found.body = body) := by
  cases hOpen : u.disk.isOpen with
  | true =>
    obtain ⟨store, hStores, hPages⟩ := h.of_open hOpen
    rw [hPages, inUse_eq_some] at hBody
    obtain ⟨⟨hPos, hLt, -⟩, rfl⟩ := hBody
    obtain ⟨found, hCall, -, hFound⟩ := hStores.readPage hPos hLt page
    rw [hCall]
    exact ⟨Status.noConfusion, fun _ => ⟨found, rfl, hFound⟩⟩
  | false =>
    obtain ⟨status, -, hMismatch, hCall⟩ := readPage_closed hOpen id page
    rw [hCall]
    exact ⟨hMismatch, fun hTrue => (by cases hTrue)⟩

theorem Sound.reopened (h : u.Sound) (hOpen : u.disk.isOpen = true) (path : Bytes) :
    u.disk.close.1 = .ok ∧ u.disk.close.2.file = u.disk.file ∧
      ∀ create closed, closed = u.disk.close.2 ∨ closed = u.disk.restarted → ∃ opened,
        closed.openPath path create = (.ok, opened) ∧ opened.pageCount = u.disk.pageCount ∧
          opened.freeListHead = u.disk.freeListHead ∧ opened.file = u.disk.file := by
  obtain ⟨store, hStores, -⟩ := h.of_open hOpen
  rw [restarted, hStores.close]
  refine ⟨rfl, rfl, fun create closed hClosed => ⟨u.disk.withPath path, ?_, rfl, rfl, rfl⟩⟩
  have hLeft : closed.isOpen = false ∧ closed.file = u.disk.file := by
    obtain rfl | rfl := hClosed <;> exact ⟨rfl, rfl⟩
  exact hStores.openPath hLeft.1 hLeft.2 path create

/-- The run of calls keeps the pages: those allocated are new, the list visits the free ones once each and ends, pages
read hold what was last written, and closing and opening restores the count and the list. -/
theorem page_store_sound (hFile : file = none ∨ file = some []) (h : Reached path file u) :
    (∀ id disk, u.disk.allocatePage = (.ok id, disk) → id ≠ kHeaderPageId ∧ u.pages id = none) ∧
    (u.disk.isOpen = true → ∃ free, Chain u.disk.nextFree kInvalidPageId u.disk.freeListHead free ∧ free.Nodup ∧
      ∀ id, id ∈ free ↔ 0 < id ∧ id < u.disk.pageCount ∧ u.pages id = none) ∧
    (∀ id body page, u.pages id = some body →
      (u.disk.readPage id (some page)).1 ≠ .corruption (ascii "page checksum mismatch") ∧
      (u.disk.isOpen = true → ∃ found : Page, u.disk.readPage id (some page) = (.ok, some found) ∧ found.body = body)) ∧
    (u.disk.isOpen = true → u.disk.close.1 = .ok ∧ u.disk.close.2.file = u.disk.file ∧
      ∀ create closed, closed = u.disk.close.2 ∨ closed = u.disk.restarted → ∃ opened,
        closed.openPath path create = (.ok, opened) ∧ opened.pageCount = u.disk.pageCount ∧
          opened.freeListHead = u.disk.freeListHead ∧ opened.file = u.disk.file) := by
  have hSound := h.sound hFile
  exact ⟨fun _ _ hCall => hSound.allocated hCall, hSound.list, fun _ _ page hBody => hSound.read hBody page,
    fun hOpen => hSound.reopened hOpen path⟩

def allocatedOnce : PageUse := ((start none).call [] (.openPath true)).call [] .allocatePage

theorem reached_allocatedOnce : Reached [] none allocatedOnce := by
  obtain ⟨t, hCall, hCount, -⟩ := stores_openPath_empty (s := (start none).disk) [] true rfl rfl rfl
  have hOpened : (start none).call [] (.openPath true) = ⟨t, fun _ => none⟩ := by
    rw [call, hCall]
    rfl
  refine (Reached.start.call (.openPath true) trivial).call .allocatePage ?_
  rw [hOpened]
  intro _
  rw [hCount]
  decide

theorem allocatedOnce_sound :
    (∀ id disk, allocatedOnce.disk.allocatePage = (.ok id, disk) → id ≠ kHeaderPageId ∧ allocatedOnce.pages id = none) ∧
    (allocatedOnce.disk.isOpen = true →
      ∃ free, Chain allocatedOnce.disk.nextFree kInvalidPageId allocatedOnce.disk.freeListHead free ∧ free.Nodup ∧
        ∀ id, id ∈ free ↔ 0 < id ∧ id < allocatedOnce.disk.pageCount ∧ allocatedOnce.pages id = none) :=
  have hSound := page_store_sound (Or.inl rfl) reached_allocatedOnce
  ⟨hSound.1, hSound.2.1⟩

end PageUse

end TupleStone
