import TupleStone.Disk.Header
import TupleStone.Lib.LinkedChain

/-! # What the disk manager stores

The pages behind the header have contents, and the free ones among them form a list that is threaded through the
contents. Each operation of the manager on its file is an operation on contents and list.
-/

set_option autoImplicit false

namespace TupleStone

open RandomAccess LinkedChain

/-- The contents of the pages, and the free pages in the order of their list. -/
structure PageStore where
  contents : UInt32 → PageBody
  free : List UInt32

namespace PageStore

/-- Sets the contents of a page, and the list. -/
def set (store : PageStore) (id : UInt32) (body : PageBody) (free : List UInt32) : PageStore :=
  ⟨Function.update store.contents id body, free⟩

variable (store : PageStore) (id : UInt32) (body : PageBody) (free : List UInt32)

@[simp] theorem free_set : (store.set id body free).free = free := rfl

@[simp] theorem contents_set_self : (store.set id body free).contents id = body := Function.update_self _ _ _

theorem contents_set_of_ne {other : UInt32} (h : other ≠ id) : (store.set id body free).contents other = store.contents other :=
  Function.update_of_ne h _ _

end PageStore

/-- The images of the pages, the header in front. -/
def images (header : Bytes) (contents : UInt32 → PageBody) (i : Nat) : Bytes :=
  if i = 0 then header else (contents (UInt32.ofNat i)).image

def Holds (bytes header : Bytes) (count : Nat) (contents : UInt32 → PageBody) : Prop :=
  Blocks bytes kPageSize count (images header contents)

section

variable {bytes header header' : Bytes} {count : Nat} {contents : UInt32 → PageBody} {id : UInt32}

theorem images_zero : images header contents 0 = header := if_pos rfl

theorem images_toNat (hPos : 0 < id) : images header contents id.toNat = (contents id).image := by
  have hNe : id.toNat ≠ 0 := Nat.ne_of_gt (UInt32.lt_iff_toNat_lt.mp hPos)
  rw [images, if_neg hNe, UInt32.ofNat_toNat]

theorem Holds.header_read (h : Holds bytes header count contents) (hPos : 0 < count) :
    readAt bytes 0 kPageSize = some header := by
  have hRead := h.read 0 hPos
  rwa [Nat.zero_mul, images_zero] at hRead

theorem Holds.page_read (h : Holds bytes header count contents) (hPos : 0 < id) (hLt : id.toNat < count) :
    readAt bytes (pageOffset id) kPageSize = some (contents id).image := by
  rw [pageOffset, h.read _ hLt, images_toNat hPos]

theorem Holds.write_page (h : Holds bytes header count contents) (hPos : 0 < id) (hLe : id.toNat ≤ count)
    (hCount : count < 2 ^ 32) (body : PageBody) :
    Holds (writeAt 0 bytes (pageOffset id) body.image) header (max count (id.toNat + 1)) (Function.update contents id body) := by
  refine (Blocks.write 0 h hLe body.length_image).congr fun i hLt => ?_
  obtain rfl | hNe := eq_or_ne i id.toNat
  · rw [Function.update_self, images_toNat hPos, Function.update_self]
  · rw [Function.update_of_ne hNe, images, images]
    have hOther : UInt32.ofNat i ≠ id := by
      intro hSame
      apply hNe
      rw [← hSame, UInt32.toNat_ofNat']
      omega
    rw [Function.update_of_ne hOther]

theorem Holds.write_header (h : Holds bytes header count contents) (hPos : 0 < count) (hSize : header'.length = kPageSize) :
    Holds (writeAt 0 bytes 0 header') header' count contents := by
  have hBlocks := Blocks.write 0 h (Nat.zero_le count) hSize
  rw [Nat.zero_mul, Nat.max_eq_left hPos] at hBlocks
  refine hBlocks.congr fun i _ => ?_
  obtain rfl | hNe := eq_or_ne i 0
  · rw [Function.update_self, images_zero]
  · rw [Function.update_of_ne hNe, images, images, if_neg hNe, if_neg hNe]

end

namespace Disk

/-- The file of an open manager holds the store under the manager's header. -/
structure Stores (s : Disk) (store : PageStore) : Prop where
  isOpen : s.isOpen = true
  file : s.file = some s.bytes
  positive : 0 < s.pageCount
  holds : Holds s.bytes s.header s.pageCount.toNat store.contents
  chain : Chain (fun page => (store.contents page).next) kInvalidPageId s.freeListHead store.free
  inRange : ∀ page ∈ store.free, 0 < page ∧ page < s.pageCount

/-- The page is neither the header nor free. -/
def InUse (s : Disk) (store : PageStore) (id : UInt32) : Prop := 0 < id ∧ id < s.pageCount ∧ id ∉ store.free

instance (s : Disk) (store : PageStore) (id : UInt32) : Decidable (s.InUse store id) :=
  inferInstanceAs (Decidable (0 < id ∧ id < s.pageCount ∧ id ∉ store.free))

variable {s : Disk} {store : PageStore} {id : UInt32}

theorem ne_kInvalidPageId_of_lt {count : UInt32} (h : id < count) : id ≠ kInvalidPageId := by
  rintro rfl
  exact absurd (UInt32.lt_iff_toNat_lt.mp h) (Nat.not_lt.mpr (Nat.le_of_lt_succ count.toNat_lt))

theorem ensurePageLocked_of_lt (h : id < s.pageCount) : s.ensurePageLocked id = .ok := by
  have hLast : id ≠ kInvalidPageId := ne_kInvalidPageId_of_lt h
  rw [ensurePageLocked, if_neg]
  rintro (hNe | hLe)
  · exact hLast hNe
  · exact absurd h (UInt32.not_lt.mpr hLe)

theorem ensurePageLocked_of_not_lt (h : ¬ id < s.pageCount) :
    s.ensurePageLocked id = .outOfRange (ascii "page id is out of range") := by
  rw [ensurePageLocked, if_pos (Or.inr (UInt32.not_lt.mp h))]

theorem writePageLocked_of_lt (hOpen : s.isOpen = true) (hPos : 0 < id) (hLt : id < s.pageCount) (page : Page) :
    s.writePageLocked id page = (.ok, s.withFile (writeAt 0 s.bytes (pageOffset id) page.body.image)) := by
  have hHeader : id ≠ kHeaderPageId := (UInt32.ne_of_lt hPos).symm
  simp only [writePageLocked, ensurePageLocked_of_lt hLt, if_neg hHeader, write, if_pos hOpen]
  rfl

theorem writePageLocked_of_not_lt (h : ¬ id < s.pageCount) (page : Page) :
    s.writePageLocked id page = (.outOfRange (ascii "page id is out of range"), s) := by
  simp only [writePageLocked, ensurePageLocked_of_not_lt h]
  rfl

/-- The page number at offset 16 of a page of the file. -/
def nextFree (s : Disk) (id : UInt32) : UInt32 := loadU32LE ((s.bytes.drop (pageOffset id)).drop 16)

theorem nextFree_of_holds {header : Bytes} {count : Nat} {contents : UInt32 → PageBody}
    (h : Holds s.bytes header count contents) (hPos : 0 < id) (hLt : id.toNat < count) :
    s.nextFree id = (contents id).next := by
  obtain ⟨before, after, hBytes, hBefore, -⟩ := readAt_eq_some.mp (h.page_read hPos hLt)
  have hSize := (contents id).length_image
  have hDrop : (s.bytes.drop (pageOffset id)).drop 16 = (contents id).image.drop 16 ++ after := by
    rw [hBytes, ← hBefore, List.drop_left, List.drop_append_of_le_length (by rw [hSize]; decide)]
  have hTake : ((contents id).image.drop 16 ++ after).take 4 = ((contents id).image.drop 16).take 4 := by
    rw [List.take_append_of_le_length (by rw [List.length_drop, hSize]; decide)]
  rw [nextFree, hDrop, ← PageBody.next_image, loadU32LE, hTake, loadU32LE]

theorem Stores.nextFree (h : s.Stores store) (hPos : 0 < id) (hLt : id < s.pageCount) :
    s.nextFree id = (store.contents id).next :=
  nextFree_of_holds h.holds hPos (UInt32.lt_iff_toNat_lt.mp hLt)

theorem Stores.chain_nextFree (h : s.Stores store) : Chain s.nextFree kInvalidPageId s.freeListHead store.free :=
  h.chain.congr fun page hPage => h.nextFree (h.inRange page hPage).1 (h.inRange page hPage).2

/-- A page is written, and then the header. -/
def rewritten (s : Disk) (id : UInt32) (body : PageBody) : Disk :=
  s.withFile (writeAt 0 (writeAt 0 s.bytes (pageOffset id) body.image) 0 s.header)

theorem holds_rewritten {header : Bytes} {count : Nat} {contents : UInt32 → PageBody}
    (h : Holds s.bytes header count contents) (hPos : 0 < id) (hLe : id.toNat ≤ count) (hCount : count < 2 ^ 32)
    (body : PageBody) :
    Holds (s.rewritten id body).bytes s.header (max count (id.toNat + 1)) (Function.update contents id body) := by
  have hPage := h.write_page hPos hLe hCount body
  exact hPage.write_header (Nat.lt_of_lt_of_le (Nat.succ_pos _) (Nat.le_max_right _ _)) s.length_header

theorem Stores.rewritten (h : s.Stores store) (hPos : 0 < id) (hLe : id ≤ s.pageCount) (body : PageBody)
    {free : List UInt32} {t : Disk} (hOpen : t.isOpen = true) (hBytes : t.bytes = s.bytes)
    (hCount : t.pageCount.toNat = max s.pageCount.toNat (id.toNat + 1))
    (hChain : Chain (fun page => ((store.set id body free).contents page).next) kInvalidPageId t.freeListHead free)
    (hFree : ∀ page ∈ free, 0 < page ∧ page < t.pageCount) :
    (t.rewritten id body).Stores (store.set id body free) := by
  have hOld : Holds t.bytes s.header s.pageCount.toNat store.contents := hBytes ▸ h.holds
  have hHolds := holds_rewritten hOld hPos (UInt32.le_iff_toNat_le.mp hLe) s.pageCount.toNat_lt body
  have hPositive : 0 < t.pageCount := by
    rw [UInt32.lt_iff_toNat_lt, hCount]
    exact Nat.lt_of_lt_of_le (Nat.succ_pos _) (Nat.le_max_right _ _)
  rw [← hCount] at hHolds
  exact ⟨hOpen, rfl, hPositive, hHolds, hChain, hFree⟩

theorem allocatePage_of_take {t : Disk} (hOpen : s.isOpen = true) (hTake : s.takePage = (.ok id, t)) (hTaken : t.isOpen = true)
    (hPos : 0 < id) (hLt : id < t.pageCount) :
    s.allocatePage = (.ok id, t.rewritten id (Page.free id kInvalidPageId).body) := by
  have hPage := writePageLocked_of_lt hTaken hPos hLt (Page.free id kInvalidPageId)
  have hHeader := writeHeaderLocked_of_open
    (s := t.withFile (writeAt 0 t.bytes (pageOffset id) (Page.free id kInvalidPageId).body.image)) hTaken
  rw [allocatePage, if_pos hOpen]
  simp only [hTake, hPage, hHeader]
  rfl

/-- The head of the list becomes the page that the old head names. -/
theorem allocatePage_of_head {header : Bytes} {contents : UInt32 → PageBody} (hOpen : s.isOpen = true)
    (hHolds : Holds s.bytes header s.pageCount.toNat contents) (hHead : s.freeListHead = id) (hPos : 0 < id)
    (hLt : id < s.pageCount) : s.allocatePage =
      (.ok id, ({ s with freeListHead := (contents id).next } : Disk).rewritten id (Page.free id kInvalidPageId).body) := by
  have hNode : id ≠ kInvalidPageId := ne_kInvalidPageId_of_lt hLt
  have hRead : s.read (pageOffset id) kPageSize = some (contents id).image := by
    rw [read, if_pos hOpen]
    exact hHolds.page_read hPos (UInt32.lt_iff_toNat_lt.mp hLt)
  have hTake : s.takePage = (.ok id, { s with freeListHead := (contents id).next }) := by
    rw [takePage, hHead, if_pos hNode, hRead]
    simp only [PageBody.next_image]
  exact allocatePage_of_take hOpen hTake hOpen hPos hLt

/-- The page at the head of the list is taken off it. -/
theorem Stores.allocatePage_taken (h : s.Stores store) {rest : List UInt32} (hFree : store.free = id :: rest) :
    ∃ t, s.allocatePage = (.ok id, t) ∧ t.pageCount = s.pageCount ∧
      t.Stores (store.set id (Page.free id kInvalidPageId).body rest) := by
  have hChain := h.chain
  rw [hFree] at hChain
  have hHead : s.freeListHead = id := hChain.head_eq
  obtain ⟨hPos, hLt⟩ := h.inRange id (hFree ▸ List.mem_cons_self)
  have hFresh := (List.nodup_cons.mp hChain.nodup).1
  rw [hHead] at hChain
  cases hChain with
  | cons hNode hRest =>
    refine ⟨_, allocatePage_of_head h.isOpen h.holds hHead hPos hLt, rfl, ?_⟩
    refine h.rewritten hPos (UInt32.le_of_lt hLt) _ h.isOpen rfl ?_ ?_ ?_
    · exact (Nat.max_eq_left (UInt32.lt_iff_toNat_lt.mp hLt)).symm
    · refine hRest.congr fun page hPage => ?_
      have hNe : page ≠ id := fun hSame => hFresh (hSame ▸ hPage)
      rw [PageStore.contents_set_of_ne _ _ _ _ hNe]
    · exact fun page hPage => h.inRange page (hFree ▸ List.mem_cons_of_mem id hPage)

theorem toNat_succ_of_lt (h : id < kInvalidPageId) : (id + 1).toNat = id.toNat + 1 := by
  have hBound : id.toNat < 4294967295 := UInt32.lt_iff_toNat_lt.mp h
  rw [UInt32.toNat_add, UInt32.toNat_one]
  omega

theorem takePage_empty (hHead : s.freeListHead = kInvalidPageId) :
    s.takePage = (.ok s.pageCount, { s with pageCount := s.pageCount + 1 }) := by
  rw [takePage, if_neg (not_not.mpr hHead)]

/-- With no free page the count grows. -/
theorem Stores.allocatePage_added (h : s.Stores store) (hFree : store.free = []) (hLt : s.pageCount < kInvalidPageId) :
    ∃ t, s.allocatePage = (.ok s.pageCount, t) ∧ t.pageCount = s.pageCount + 1 ∧
      t.Stores (store.set s.pageCount (Page.free s.pageCount kInvalidPageId).body []) := by
  have hCount := toNat_succ_of_lt hLt
  have hChain := h.chain
  rw [hFree] at hChain
  have hHead : s.freeListHead = kInvalidPageId := hChain.head_eq
  have hTake := takePage_empty hHead
  have hNew : s.pageCount < s.pageCount + 1 := by
    rw [UInt32.lt_iff_toNat_lt, hCount]
    exact Nat.lt_succ_self _
  refine ⟨_, allocatePage_of_take h.isOpen hTake h.isOpen h.positive hNew, rfl, ?_⟩
  refine h.rewritten h.positive (UInt32.le_refl _) _ h.isOpen rfl ?_ ?_ ?_
  · rw [Nat.max_eq_right (Nat.le_succ _)]
    exact hCount
  · show Chain _ _ s.freeListHead []
    rw [hHead]
    exact .nil
  · exact fun page hPage => absurd hPage List.not_mem_nil

/-- The page allocated was not in use, and is the only one that is in use now and was not. -/
theorem Stores.allocatePage (h : s.Stores store) (hRoom : s.freeListHead = kInvalidPageId → s.pageCount < kInvalidPageId) :
    ∃ id t free, s.allocatePage = (.ok id, t) ∧ t.Stores (store.set id (Page.free id kInvalidPageId).body free) ∧
      ¬ s.InUse store id ∧ ∀ other, t.InUse (store.set id (Page.free id kInvalidPageId).body free) other ↔
        (other = id ∨ s.InUse store other) := by
  cases hFree : store.free with
  | cons id rest =>
    obtain ⟨t, hCall, hCount, hTaken⟩ := h.allocatePage_taken hFree
    obtain ⟨hPos, hLt⟩ := h.inRange id (hFree ▸ List.mem_cons_self)
    have hNodup := h.chain.nodup
    rw [hFree] at hNodup
    have hFresh := (List.nodup_cons.mp hNodup).1
    refine ⟨id, t, rest, hCall, hTaken, fun hUse => hUse.2.2 (hFree ▸ List.mem_cons_self), fun other => ?_⟩
    rw [InUse, InUse, hCount, hFree, PageStore.free_set, List.mem_cons]
    obtain rfl | hNe := eq_or_ne other id
    · exact iff_of_true ⟨hPos, hLt, hFresh⟩ (Or.inl rfl)
    · rw [or_iff_right hNe, or_iff_right hNe]
  | nil =>
    have hChain := h.chain
    rw [hFree] at hChain
    have hLast := hRoom hChain.head_eq
    obtain ⟨t, hCall, hCount, hAdded⟩ := h.allocatePage_added hFree hLast
    refine ⟨s.pageCount, t, [], hCall, hAdded, fun hUse => absurd hUse.2.1 (UInt32.lt_irrefl _), fun other => ?_⟩
    have hSucc := toNat_succ_of_lt hLast
    rw [InUse, InUse, hCount, hFree, PageStore.free_set]
    obtain rfl | hNe := eq_or_ne other s.pageCount
    · have hLt : s.pageCount < s.pageCount + 1 := by
        rw [UInt32.lt_iff_toNat_lt, hSucc]
        exact Nat.lt_succ_self _
      exact iff_of_true ⟨h.positive, hLt, List.not_mem_nil⟩ (Or.inl rfl)
    · have hLt : other < s.pageCount + 1 ↔ other < s.pageCount := by
        have hNat : other.toNat ≠ s.pageCount.toNat := fun hSame => hNe (UInt32.toNat_inj.mp hSame)
        rw [UInt32.lt_iff_toNat_lt, UInt32.lt_iff_toNat_lt, hSucc]
        omega
      rw [or_iff_right hNe, hLt]

/-- At the last page number the counter wraps, and the page is refused. -/
theorem allocatePage_wraps (hOpen : s.isOpen = true) (hHead : s.freeListHead = kInvalidPageId)
    (hFull : s.pageCount = kInvalidPageId) :
    s.allocatePage = (.error (.outOfRange (ascii "page id is out of range")), { s with pageCount := 0 }) := by
  have hTake : s.takePage = (.ok kInvalidPageId, { s with pageCount := 0 }) := by
    rw [takePage_empty hHead, hFull]
    rfl
  have hRange : ¬ kInvalidPageId < (0 : UInt32) := by decide
  have hPage := writePageLocked_of_not_lt (s := { s with pageCount := 0 }) hRange (Page.free kInvalidPageId kInvalidPageId)
  rw [Disk.allocatePage, if_pos hOpen]
  simp only [hTake, hPage]
  rfl

theorem Stores.allocatePage_full (h : s.Stores store) (hFree : store.free = []) (hFull : s.pageCount = kInvalidPageId) :
    s.allocatePage = (.error (.outOfRange (ascii "page id is out of range")), { s with pageCount := 0 }) := by
  have hChain := h.chain
  rw [hFree] at hChain
  exact allocatePage_wraps h.isOpen hChain.head_eq hFull

/-- Either there is a number for the next page, or the list is empty and the counter is at its end. -/
theorem Stores.room_or_full (h : s.Stores store) :
    (s.freeListHead = kInvalidPageId → s.pageCount < kInvalidPageId) ∨ (store.free = [] ∧ s.pageCount = kInvalidPageId) := by
  by_cases hLt : s.pageCount < kInvalidPageId
  · exact Or.inl fun _ => hLt
  · have hLast : s.pageCount = kInvalidPageId := by
      apply UInt32.toNat_inj.mp
      have hBound := s.pageCount.toNat_lt
      have hNot : ¬ s.pageCount.toNat < 4294967295 := fun hNat => hLt (UInt32.lt_iff_toNat_lt.mpr hNat)
      show s.pageCount.toNat = 4294967295
      omega
    cases hFree : store.free with
    | nil => exact Or.inr ⟨rfl, hLast⟩
    | cons id rest =>
      refine Or.inl fun hHead => ?_
      have hChain := h.chain
      rw [hFree, hHead] at hChain
      cases hChain with
      | cons hNode => exact absurd rfl hNode

theorem freePage_of_lt (hOpen : s.isOpen = true) (hPos : 0 < id) (hLt : id < s.pageCount) : s.freePage id =
    (.ok, ({ s with freeListHead := id } : Disk).rewritten id (Page.free id s.freeListHead).body) := by
  have hHeader : id ≠ kHeaderPageId := (UInt32.ne_of_lt hPos).symm
  have hPage := writePageLocked_of_lt hOpen hPos hLt (Page.free id s.freeListHead)
  have hWritten := writeHeaderLocked_of_open
    (s := ({ s with freeListHead := id } : Disk).withFile
      (writeAt 0 s.bytes (pageOffset id) (Page.free id s.freeListHead).body.image)) hOpen
  simp only [freePage, ensurePageLocked_of_lt hLt, if_neg hHeader, hPage]
  exact hWritten

/-- The page becomes the head of the list. -/
theorem Stores.freePage (h : s.Stores store) (hPos : 0 < id) (hLt : id < s.pageCount) (hUsed : id ∉ store.free) :
    ∃ t, s.freePage id = (.ok, t) ∧ t.pageCount = s.pageCount ∧
      t.Stores (store.set id (Page.free id s.freeListHead).body (id :: store.free)) := by
  have hNode : id ≠ kInvalidPageId := ne_kInvalidPageId_of_lt hLt
  refine ⟨_, freePage_of_lt h.isOpen hPos hLt, rfl, ?_⟩
  refine h.rewritten hPos (UInt32.le_of_lt hLt) _ h.isOpen rfl ?_ ?_ ?_
  · exact (Nat.max_eq_left (UInt32.lt_iff_toNat_lt.mp hLt)).symm
  · refine .cons hNode ?_
    rw [PageStore.contents_set_self, Page.next_free]
    refine h.chain.congr fun page hPage => ?_
    have hNe : page ≠ id := fun hSame => hUsed (hSame ▸ hPage)
    rw [PageStore.contents_set_of_ne _ _ _ _ hNe]
  · exact List.forall_mem_cons.mpr ⟨⟨hPos, hLt⟩, h.inRange⟩

/-- Page 0 and pages out of range are refused. -/
theorem freePage_refused (h : ¬ (0 < id ∧ id < s.pageCount)) : ∃ status, status ≠ .ok ∧ s.freePage id = (status, s) := by
  by_cases hLt : id < s.pageCount
  · have hZero : id = kHeaderPageId := by
      by_contra hNe
      exact h ⟨UInt32.pos_iff_ne_zero.mpr hNe, hLt⟩
    refine ⟨.invalidArgument (ascii "cannot free header page"), Status.noConfusion, ?_⟩
    simp only [Disk.freePage, ensurePageLocked_of_lt hLt, if_pos hZero]
  · refine ⟨.outOfRange (ascii "page id is out of range"), Status.noConfusion, ?_⟩
    simp only [Disk.freePage, ensurePageLocked_of_not_lt hLt]
    rfl

theorem Stores.writePage (h : s.Stores store) (hPos : 0 < id) (hLt : id < s.pageCount) (hUsed : id ∉ store.free) (page : Page) :
    ∃ t, s.writePage id page = (.ok, t) ∧ t.toDiskManager = s.toDiskManager ∧
      t.Stores (store.set id page.body store.free) := by
  refine ⟨_, writePageLocked_of_lt h.isOpen hPos hLt page, rfl, h.isOpen, rfl, h.positive, ?_, ?_, h.inRange⟩
  · have hPage := h.holds.write_page hPos (Nat.le_of_lt (UInt32.lt_iff_toNat_lt.mp hLt)) s.pageCount.toNat_lt page.body
    rw [Nat.max_eq_left (UInt32.lt_iff_toNat_lt.mp hLt)] at hPage
    exact hPage
  · refine h.chain.congr fun other hOther => ?_
    have hNe : other ≠ id := fun hSame => hUsed (hSame ▸ hOther)
    rw [PageStore.contents_set_of_ne _ _ _ _ hNe]

/-- The checksum read is that of the contents. -/
theorem readPage_of_image {body : PageBody} (hPos : 0 < id) (hLt : id < s.pageCount)
    (hRead : s.read (pageOffset id) kPageSize = some body.image) (page : Page) :
    ∃ found : Page, s.readPage id (some page) = (.ok, some found) ∧ found.id = id ∧ found.body = body := by
  have hChecksum : ¬ (id ≠ kHeaderPageId ∧ loadU32LE body.image ≠ crc32c (body.image.drop 4)) := by
    rintro ⟨-, hNe⟩
    rw [PageBody.loadU32LE_image, PageBody.drop_four_image] at hNe
    exact hNe rfl
  refine ⟨⟨id, body.image, body.length_image⟩, ?_, rfl, ?_⟩
  · simp only [Disk.readPage, ensurePageLocked_of_lt hLt]
    split
    · rename_i hNone
      exact absurd (hRead.symm.trans hNone) (Option.some_ne_none _)
    · rename_i bytes hSome
      obtain rfl := Option.some.inj (hRead.symm.trans hSome)
      rw [if_neg hChecksum]
  · exact PageBody.ext (PageBody.drop_four_image _)

theorem Stores.readPage (h : s.Stores store) (hPos : 0 < id) (hLt : id < s.pageCount) (page : Page) :
    ∃ found : Page, s.readPage id (some page) = (.ok, some found) ∧ found.id = id ∧ found.body = store.contents id := by
  apply readPage_of_image hPos hLt
  rw [read, if_pos h.isOpen]
  exact h.holds.page_read hPos (UInt32.lt_iff_toNat_lt.mp hLt)

/-! ## Closing and opening -/

/-- The header is there already, so closing leaves the file as it is. -/
theorem Stores.close (h : s.Stores store) : s.close = (.ok, { s with isOpen := false }) := by
  have hHeader := h.holds.header_read (UInt32.lt_iff_toNat_lt.mp h.positive)
  have hSame : s.withFile s.bytes = s := by
    rw [withFile, ← h.file]
  rw [Disk.close, if_pos h.isOpen, writeHeaderLocked_of_open h.isOpen, writeAt_self hHeader, hSame]

/-- The manager with another path. -/
def withPath (s : Disk) (path : Bytes) : Disk := { s with path := path }

theorem Stores.withPath (h : s.Stores store) (path : Bytes) : (s.withPath path).Stores store :=
  ⟨h.isOpen, h.file, h.positive, h.holds, h.chain, h.inRange⟩

/-- Any closed manager that opens the file becomes the one that closed it. -/
theorem Stores.openPath (h : s.Stores store) {t : Disk} (hClosed : t.isOpen = false) (hFile : t.file = s.file) (path : Bytes)
    (create : Bool) : t.openPath path create = (.ok, s.withPath path) := by
  have hBytes : t.bytes = s.bytes := by rw [bytes, bytes, hFile]
  have hSome : (t.file.isSome || create) = true := by rw [hFile, h.file, Option.isSome_some, Bool.true_or]
  have hPos : 0 < s.pageCount.toNat := UInt32.lt_iff_toNat_lt.mp h.positive
  have hLength : t.bytes.length = s.pageCount.toNat * kPageSize := hBytes ▸ h.holds.length
  have hSize : kPageSize ≤ s.pageCount.toNat * kPageSize := Nat.le_mul_of_pos_left kPageSize hPos
  have hWhole : s.pageCount.toNat * kPageSize % kPageSize = 0 := Nat.mul_mod_left _ _
  have hPage : 0 < kPageSize := by decide
  generalize hOpened : ({ t with path := path, isOpen := true, file := some t.bytes } : Disk) = opened
  have hSame : opened.bytes = t.bytes := hOpened ▸ rfl
  have hRead : opened.read 0 kPageSize = some s.header := by
    have hOpen : opened.isOpen = true := hOpened ▸ rfl
    rw [read, if_pos hOpen, hSame, hBytes]
    exact h.holds.header_read hPos
  rw [Disk.openPath, hClosed, if_neg Bool.false_ne_true, if_pos hSome, hOpened, openStream, hSame, hLength,
    if_neg (by omega), if_neg (by omega), readHeaderLocked_of_isHeader hRead s.isHeader_header, ← hOpened, hBytes, ← h.file]
  have hOpen := h.isOpen
  obtain ⟨⟨isOpen, _⟩, _⟩ := s
  cases hOpen
  rfl

/-- A file of no pages is opened with the header alone. -/
theorem stores_openPath_empty (path : Bytes) (create : Bool) (hClosed : s.isOpen = false) (hEmpty : s.bytes = [])
    (hFile : (s.file.isSome || create) = true) : ∃ t, s.openPath path create = (.ok, t) ∧ t.pageCount = 1 ∧
      ∀ contents, t.Stores ⟨contents, []⟩ := by
  generalize hOpened : ({ s with path := path, isOpen := true, file := some s.bytes } : Disk) = opened
  have hBytes : opened.bytes = [] := hOpened ▸ hEmpty
  generalize hFields : ({ opened with
      pageCount := 1
      freeListHead := kInvalidPageId
      nextTxnId := 1
      nextTableId := 1
      nextIndexId := 1 } : Disk) = started
  have hOpen : started.isOpen = true := by
    rw [← hFields, ← hOpened]
  have hStarted : started.bytes = [] := by
    rw [← hBytes, ← hFields]
    rfl
  have hCount : started.pageCount = 1 := hFields ▸ rfl
  have hHead : started.freeListHead = kInvalidPageId := hFields ▸ rfl
  have hHeader := writeHeaderLocked_of_open hOpen
  have hLength : opened.bytes.length = 0 := by rw [hBytes, List.length_nil]
  refine ⟨started.withFile (writeAt 0 started.bytes 0 started.header), ?_, hCount, fun contents => ?_⟩
  · rw [Disk.openPath, hClosed, if_neg Bool.false_ne_true, if_pos hFile, hOpened, openStream, if_pos hLength, hFields, hHeader]
    rfl
  · refine ⟨hOpen, rfl, ?_, ?_, ?_, fun page hPage => absurd hPage List.not_mem_nil⟩
    · show 0 < started.pageCount
      rw [hCount]
      decide
    · have hNone : Holds ([] : Bytes) started.header 0 contents :=
        ⟨(Nat.zero_mul _).symm, fun i hLt => absurd hLt (Nat.not_lt_zero i)⟩
      have hBlocks := Blocks.write 0 hNone (Nat.le_refl 0) started.length_header
      rw [Nat.zero_mul] at hBlocks
      rw [bytes_withFile, toDiskManager_withFile, hStarted, hCount]
      refine hBlocks.congr fun i hLt => ?_
      obtain rfl : i = 0 := Nat.lt_one_iff.mp hLt
      rw [Function.update_self, images_zero]
    · show Chain _ _ started.freeListHead []
      rw [hHead]
      exact .nil

end Disk

end TupleStone
