import Mathlib.Data.List.Perm.Basic
import TupleStone.Buffer.PoolUse

/-! # The steps of the buffer pool

Each step keeps the flat map of the pages: a page is found in its frame when it is cached, and on the disk when no
change of it is outstanding.
-/

set_option autoImplicit false

namespace TupleStone

open BufferPool

namespace PoolUse

variable {pool : BufferPool} {guards rest : List (Option PageGuard)} {pages : UInt32 → Option PageBody} {guard : PageGuard}

/-! ## Guards -/

theorem pins_cons (found : Option PageGuard) (i : Nat) :
    pins (found :: rest) i = pins rest i + if found.any (·.frame = i) then 1 else 0 := by
  rw [pins, List.countP_cons, pins]

theorem pins_cons_none (i : Nat) : pins (none :: rest) i = pins rest i := by
  rw [pins_cons, Option.any_none, if_neg Bool.false_ne_true, Nat.add_zero]

theorem pins_cons_self : pins (some guard :: rest) guard.frame = pins rest guard.frame + 1 := by
  rw [pins_cons, Option.any_some, if_pos (decide_eq_true rfl)]

theorem pins_cons_of_ne {i : Nat} (h : i ≠ guard.frame) : pins (some guard :: rest) i = pins rest i := by
  have hNe : ¬ decide (guard.frame = i) = true := fun hSame => h (of_decide_eq_true hSame).symm
  rw [pins_cons, Option.any_some, if_neg hNe, Nat.add_zero]

theorem pins_ne_zero (h : some guard ∈ guards) : pins guards guard.frame ≠ 0 := by
  have hPos : 0 < pins guards guard.frame :=
    List.countP_pos_iff.mpr ⟨some guard, h, by rw [Option.any_some]; exact decide_eq_true rfl⟩
  exact Nat.ne_of_gt hPos

/-- Which variable holds a guard does not matter. -/
theorem Sound.perm {guards' : List (Option PageGuard)} (h : Sound ⟨pool, guards, pages⟩) (hPerm : guards.Perm guards') :
    Sound ⟨pool, guards', pages⟩ := by
  obtain ⟨⟨store, hStores, hPages, hBacked⟩, hTable, hCached, hPinned, hGuarded⟩ := h
  refine ⟨⟨store, hStores, hPages, fun id body hBody hWritten => hBacked id body hBody fun i hI => ?_⟩, hTable, hCached,
    fun i => (hPinned i).trans (hPerm.countP_eq _), fun guard hGuard => hGuarded guard (hPerm.mem_iff.mpr hGuard)⟩
  exact ⟨(hWritten i hI).1, fun guard hGuard => (hWritten i hI).2 guard (hPerm.mem_iff.mp hGuard)⟩

theorem Sound.cons_none (h : Sound ⟨pool, guards, pages⟩) : Sound ⟨pool, none :: guards, pages⟩ := by
  obtain ⟨⟨store, hStores, hPages, hBacked⟩, hTable, hCached, hPinned, hGuarded⟩ := h
  have hMem (guard : PageGuard) (h : some guard ∈ none :: guards) : some guard ∈ guards :=
    (List.mem_cons.mp h).resolve_left (Option.some_ne_none guard)
  refine ⟨⟨store, hStores, hPages, fun id body hBody hWritten => hBacked id body hBody fun i hI => ?_⟩, hTable, hCached,
    fun i => (hPinned i).trans (pins_cons_none i).symm, fun guard hGuard => hGuarded guard (hMem guard hGuard)⟩
  exact ⟨(hWritten i hI).1, fun guard hGuard => (hWritten i hI).2 guard (List.mem_cons_of_mem _ hGuard)⟩

theorem Sound.guarded_frame (h : Sound ⟨pool, guards, pages⟩) (hGuard : some guard ∈ guards) :
    guard.pageId ≠ kInvalidPageId ∧ (pool.frame guard.frame).page.id = guard.pageId :=
  (h.table _ _).mp (h.guarded guard hGuard)

/-! ## Frames that keep their page -/

/-- A frame is replaced, and the pages, guards and disk with it; the frame still holds the same page. -/
theorem Sound.set_frame (h : Sound ⟨pool, guards, pages⟩) {pool' : BufferPool} {guards' : List (Option PageGuard)}
    {pages' : UInt32 → Option PageBody} {i : Nat} {f : Frame} (hLt : i < pool.frames.length)
    (hFrames : pool'.frames = pool.frames.set i f) (hSameTable : pool'.pageTable = pool.pageTable)
    (hId : f.page.id = (pool.frame i).page.id)
    (hStored : ∃ store, pool'.disk.Stores store ∧ Backed ⟨pool', guards', pages'⟩ store)
    (hCached : f.page.id ≠ kInvalidPageId → pages' f.page.id = some f.page.body)
    (hPages : ∀ id, id ≠ f.page.id → pages' id = pages id)
    (hPinned : f.pinCount = pins guards' i) (hPins : ∀ j, j ≠ i → pins guards' j = pins guards j)
    (hGuarded : ∀ guard, some guard ∈ guards' → some guard ∈ guards ∨ pool.pageTable guard.pageId = some guard.frame) :
    Sound ⟨pool', guards', pages'⟩ := by
  have hSelf : pool'.frame i = f := by
    rw [frame, hFrames]
    exact frame_setFrame_self hLt
  have hOther (j : Nat) (hNe : j ≠ i) : pool'.frame j = pool.frame j := by
    rw [frame, hFrames]
    exact frame_setFrame_of_ne hNe
  have hIds (j : Nat) : (pool'.frame j).page.id = (pool.frame j).page.id := by
    obtain rfl | hNe := eq_or_ne j i
    · rw [hSelf, hId]
    · rw [hOther j hNe]
  constructor
  case stored => exact hStored
  case table =>
    intro id j
    rw [hSameTable, hIds]
    exact h.table id j
  case cached =>
    intro j hValid
    obtain rfl | hNe := eq_or_ne j i
    · rw [hSelf] at hValid ⊢
      exact hCached hValid
    · rw [hOther j hNe] at hValid ⊢
      refine (hPages _ fun hSame => ?_).trans (h.cached j hValid)
      have hHere := (h.table _ j).mpr ⟨hValid, rfl⟩
      have hThere := (h.table _ i).mpr ⟨hSame ▸ hValid, hId.symm⟩
      rw [hSame] at hHere
      exact hNe (Option.some.inj (hHere.symm.trans hThere))
  case pinned =>
    intro j
    obtain rfl | hNe := eq_or_ne j i
    · rw [hSelf, hPinned]
    · rw [hOther j hNe, hPins j hNe]
      exact h.pinned j
  case guarded =>
    intro guard hGuard
    rw [hSameTable]
    exact (hGuarded guard hGuard).elim (h.guarded guard) id

/-- Dropping a guard counts one pin less, and a page that the guard may have changed is dirty. -/
theorem Sound.drop_head (h : Sound ⟨pool, some guard :: rest, pages⟩) : Sound ⟨guard.drop pool, none :: rest, pages⟩ := by
  obtain ⟨hId, hFrame⟩ := h.guarded_frame List.mem_cons_self
  have hTable := h.guarded guard List.mem_cons_self
  have hLt : guard.frame < pool.frames.length := lt_length_of_id (hFrame ▸ hId)
  generalize hReleased : ({ pool.frame guard.frame with
      pinCount := (pool.frame guard.frame).pinCount - 1
      dirty := (pool.frame guard.frame).dirty || guard.writable } : Frame) = released
  have hDrop : guard.drop pool = pool.setFrame guard.frame released := by
    rw [PageGuard.drop, release, hTable, ← hReleased]
  have hPage : released.page = (pool.frame guard.frame).page := hReleased ▸ rfl
  have hDirty : released.dirty = ((pool.frame guard.frame).dirty || guard.writable) := hReleased ▸ rfl
  have hPins : released.pinCount = pins rest guard.frame := by
    have hOld : (pool.frame guard.frame).pinCount = pins rest guard.frame + 1 := by
      rw [← pins_cons_self]
      exact h.pinned guard.frame
    rw [← hReleased, hOld, Nat.add_sub_cancel]
  rw [hDrop]
  obtain ⟨store, hStores, hPages, hBacked⟩ := h.stored
  refine h.set_frame hLt rfl rfl (congrArg Page.id hPage) ?_ ?_ (fun _ _ => rfl) ?_ ?_ ?_
  · refine ⟨store, hStores, hPages, fun id body hBody hWritten => hBacked id body hBody fun i hI => ?_⟩
    obtain ⟨hClean, hReaders⟩ := hWritten i hI
    obtain rfl | hNe := eq_or_ne i guard.frame
    · rw [frame_setFrame_self hLt, hDirty, Bool.or_eq_false_iff] at hClean
      refine ⟨hClean.1, fun other hOther hSame => ?_⟩
      obtain hHead | hRest := List.mem_cons.mp hOther
      · rw [Option.some.inj hHead]
        exact hClean.2
      · exact hReaders other (List.mem_cons_of_mem _ hRest) hSame
    · rw [frame_setFrame_of_ne hNe] at hClean
      refine ⟨hClean, fun other hOther hSame => ?_⟩
      obtain hHead | hRest := List.mem_cons.mp hOther
      · rw [Option.some.inj hHead] at hSame
        exact absurd hSame.symm hNe
      · exact hReaders other (List.mem_cons_of_mem _ hRest) hSame
  · intro hValid
    rw [hPage] at hValid ⊢
    exact h.cached guard.frame hValid
  · rw [hPins, pins_cons_none]
  · intro j hNe
    rw [pins_cons_none, pins_cons_of_ne hNe]
  · intro other hOther
    exact Or.inl (List.mem_cons_of_mem _ ((List.mem_cons.mp hOther).resolve_left (Option.some_ne_none other)))

/-! ## Variables -/

theorem set_perm {found : Option PageGuard} {slot : Nat} (h : guards[slot]? = some found) (new : Option PageGuard) :
    ∃ rest, guards.Perm (found :: rest) ∧ (guards.set slot new).Perm (new :: rest) := by
  obtain ⟨hLt, rfl⟩ := List.getElem?_eq_some_iff.mp h
  exact ⟨guards.eraseIdx slot, (List.getElem_cons_eraseIdx_perm hLt).symm, List.set_perm_cons_eraseIdx hLt new⟩

theorem Sound.drop {u : PoolUse} (h : u.Sound) (slot : Nat) : (u.drop slot).Sound := by
  rw [PoolUse.drop]
  split
  · rename_i guard hSlot
    obtain ⟨rest, hOld, hNew⟩ := set_perm hSlot none
    exact (h.perm hOld).drop_head.perm hNew.symm
  · exact h

theorem drop_guards (u : PoolUse) (slot : Nat) :
    (u.drop slot).guards.length = u.guards.length ∧ (slot < u.guards.length → (u.drop slot).guards[slot]? = some none) := by
  rw [PoolUse.drop]
  split
  · exact ⟨List.length_set, fun hLt => List.getElem?_set_self hLt⟩
  · rename_i hNone
    refine ⟨rfl, fun hLt => ?_⟩
    have hSome := List.getElem?_eq_getElem hLt
    cases hGet : u.guards[slot] with
    | none => rw [hSome, hGet]
    | some guard => exact absurd (hSome.trans (congrArg some hGet)) (hNone guard)

theorem Sound.move {u : PoolUse} (h : u.Sound) (source target : Nat) : (u.move source target).Sound := by
  rw [PoolUse.move]
  split_ifs with hSkip
  · exact h
  · obtain ⟨hNe, hLt⟩ := not_or.mp hSkip
    obtain ⟨hLength, hTarget⟩ := drop_guards u target
    have hDropped := h.drop target
    generalize u.drop target = dropped at hLength hTarget hDropped
    cases hSource : dropped.guards[source]? with
    | none =>
      simp only [hSource]
      exact hDropped
    | some guard =>
      simp only [hSource]
      obtain ⟨rest, hOld, hNew⟩ := set_perm (hTarget (Nat.not_le.mp hLt)) guard
      have hMoved : (dropped.guards.set target guard)[source]? = some guard := by
        rw [List.getElem?_set_ne (Ne.symm hNe), hSource]
      obtain ⟨rest', hOld', hNew'⟩ := set_perm hMoved none
      have hRest : rest.Perm rest' := (hNew.symm.trans hOld').cons_inv
      exact hDropped.perm (hOld.trans ((hRest.cons none).trans hNew'.symm))

/-! ## Changes and flushes -/

theorem Sound.frame_unique (h : Sound ⟨pool, guards, pages⟩) {id id' : UInt32} {i : Nat} (hId : pool.pageTable id = some i)
    (hId' : pool.pageTable id' = some i) : id = id' :=
  ((h.table id i).mp hId).2.symm.trans ((h.table id' i).mp hId').2

/-- A cached page is allocated, and its frame has what was last written to it. -/
theorem Sound.cached_page (h : Sound ⟨pool, guards, pages⟩) {id : UInt32} {i : Nat} (hTable : pool.pageTable id = some i) :
    i < pool.frames.length ∧ pages id = some (pool.frame i).page.body := by
  obtain ⟨hId, rfl⟩ := (h.table id i).mp hTable
  exact ⟨lt_length_of_id hId, h.cached i hId⟩

theorem Sound.modify {u : PoolUse} (h : u.Sound) (slot : Nat) (body : PageBody) : (u.modify slot body).Sound := by
  rw [PoolUse.modify]
  split
  · rename_i guard hSlot
    have hGuard : some guard ∈ u.guards := List.mem_of_getElem? hSlot
    have hTable := h.guarded guard hGuard
    obtain ⟨hLt, hCached⟩ := h.cached_page hTable
    have hFrame : (u.pool.frame guard.frame).page.id = guard.pageId := (h.guarded_frame hGuard).2
    split
    · rename_i hWritable
      obtain ⟨store, hStores, hPages, hBacked⟩ := h.stored
      refine h.set_frame hLt rfl rfl rfl ⟨store, hStores, fun id => ?_, fun id found hBody hWritten => ?_⟩
        (fun _ => ?_) (fun id hNe => ?_) (h.pinned guard.frame) (fun _ _ => rfl) (fun _ hOther => Or.inl hOther)
      · refine Iff.trans ?_ (hPages id)
        show Function.update u.pages guard.pageId (some body) id ≠ none ↔ _
        obtain rfl | hNe := eq_or_ne id guard.pageId
        · rw [Function.update_self, hCached]
          exact iff_of_true (Option.some_ne_none _) (Option.some_ne_none _)
        · rw [Function.update_of_ne hNe]
      · have hNe : id ≠ guard.pageId := by
          rintro rfl
          exact absurd ((hWritten guard.frame hTable).2 guard hGuard rfl) (by rw [hWritable]; exact Bool.noConfusion)
        have hOld : u.pages id = some found := (Function.update_of_ne hNe _ _).symm.trans hBody
        refine hBacked id found hOld fun i hI => ?_
        have hOther : i ≠ guard.frame := by
          rintro rfl
          exact hNe (h.frame_unique hI hTable)
        obtain ⟨hClean, hReaders⟩ := hWritten i hI
        rw [frame_setFrame_of_ne hOther] at hClean
        exact ⟨hClean, hReaders⟩
      · rw [Page.id_setBody, hFrame, Function.update_self, Page.body_setBody]
      · rw [Page.id_setBody, hFrame] at hNe
        exact Function.update_of_ne hNe _ _
    · exact h
  · exact h

/-- Writing a page back changes nothing but the disk and that the frame is clean. -/
theorem Sound.writeBack (h : Sound ⟨pool, guards, pages⟩) {id : UInt32} {i : Nat} (hTable : pool.pageTable id = some i) :
    ∃ pool', pool.writeBack i id = (.ok, pool') ∧ Sound ⟨pool', guards, pages⟩ ∧
      (pool'.frame i).page = (pool.frame i).page ∧ (pool'.frame i).dirty = false ∧ ∀ j, j ≠ i → pool'.frame j = pool.frame j := by
  obtain ⟨store, hStores, hPages, hBacked⟩ := h.stored
  obtain ⟨hLt, hCached⟩ := h.cached_page hTable
  have hUse : pool.disk.InUse store id := (hPages id).mp fun hNone => Option.some_ne_none _ (hCached.symm.trans hNone)
  obtain ⟨disk, hWrite, hFields, hWritten⟩ := hStores.writePage hUse.1 hUse.2.1 hUse.2.2 (pool.frame i).page
  generalize hClean : ({ pool.frame i with dirty := false } : Frame) = clean
  have hPage : clean.page = (pool.frame i).page := hClean ▸ rfl
  have hDirty : clean.dirty = false := hClean ▸ rfl
  have hPins : clean.pinCount = (pool.frame i).pinCount := hClean ▸ rfl
  generalize hPool : (⟨disk, pool.frames.set i clean, pool.pageTable, pool.clock⟩ : BufferPool) = pool'
  have hSelf : pool'.frame i = clean := by
    rw [← hPool]
    exact frame_setFrame_self hLt
  have hOther (j : Nat) (hNe : j ≠ i) : pool'.frame j = pool.frame j := by
    rw [← hPool]
    exact frame_setFrame_of_ne hNe
  have hDisk : pool'.disk = disk := hPool ▸ rfl
  have hSameTable : pool'.pageTable = pool.pageTable := hPool ▸ rfl
  refine ⟨pool', ?_, ?_, by rw [hSelf, hPage], by rw [hSelf, hDirty], hOther⟩
  · rw [BufferPool.writeBack, hWrite, hClean]
    exact congrArg (Prod.mk Status.ok) hPool
  · refine h.set_frame hLt (hPool ▸ rfl) hSameTable (by rw [hPage])
      ⟨store.set id (pool.frame i).page.body store.free, hDisk ▸ hWritten, fun other => ?_, fun other body hBody hNone => ?_⟩
      (hPage ▸ h.cached i) (fun _ _ => rfl) (hPins.trans (h.pinned i)) (fun _ _ => rfl) (fun _ hMem => Or.inl hMem)
    · refine (hPages other).trans ?_
      show pool.disk.InUse store other ↔ pool'.disk.InUse _ other
      rw [Disk.InUse, Disk.InUse, hDisk, hFields, PageStore.free_set]
    · obtain rfl | hNe := eq_or_ne other id
      · rw [PageStore.contents_set_self]
        exact Option.some.inj (hCached.symm.trans hBody)
      · rw [PageStore.contents_set_of_ne _ _ _ _ hNe]
        refine hBacked other body hBody fun j hJ => ?_
        have hOtherFrame : j ≠ i := by
          rintro rfl
          exact hNe (h.frame_unique hJ hTable)
        obtain ⟨hCleanFrame, hReaders⟩ := hNone j (hSameTable ▸ hJ)
        exact ⟨hOther j hOtherFrame ▸ hCleanFrame, hReaders⟩

theorem Sound.flushFrames (h : Sound ⟨pool, guards, pages⟩) (indexes : List Nat) :
    ∃ pool', pool.flushFrames indexes = (.ok, pool') ∧ Sound ⟨pool', guards, pages⟩ ∧
      ∀ i, (pool'.frame i).page = (pool.frame i).page ∧
        ((pool'.frame i).dirty = true → (pool.frame i).dirty = true ∧ (i ∈ indexes → (pool.frame i).page.id = kInvalidPageId)) := by
  induction indexes generalizing pool with
  | nil => exact ⟨pool, rfl, h, fun i => ⟨rfl, fun hDirty => ⟨hDirty, fun hMem => absurd hMem List.not_mem_nil⟩⟩⟩
  | cons first indexes ih =>
    rw [BufferPool.flushFrames]
    split_ifs with hDirty
    · obtain ⟨written, hWrite, hWritten, hPage, hClean, hOther⟩ := h.writeBack ((h.table _ first).mpr ⟨hDirty.1, rfl⟩)
      obtain ⟨pool', hFlush, hSound, hFrames⟩ := ih hWritten
      refine ⟨pool', by simp only [hWrite, hFlush], hSound, fun i => ?_⟩
      obtain ⟨hSame, hStill⟩ := hFrames i
      obtain rfl | hNe := eq_or_ne i first
      · exact ⟨hSame.trans hPage, fun hSet => absurd ((hStill hSet).1.symm.trans hClean) Bool.noConfusion⟩
      · rw [hOther i hNe] at hSame hStill
        refine ⟨hSame, fun hSet => ⟨(hStill hSet).1, fun hMem => (hStill hSet).2 ?_⟩⟩
        exact (List.mem_cons.mp hMem).resolve_left hNe
    · obtain ⟨pool', hFlush, hSound, hFrames⟩ := ih h
      refine ⟨pool', hFlush, hSound, fun i => ?_⟩
      obtain ⟨hPage, hStill⟩ := hFrames i
      refine ⟨hPage, fun hSet => ⟨(hStill hSet).1, fun hMem => ?_⟩⟩
      obtain rfl | hRest := List.mem_cons.mp hMem
      · by_contra hValid
        exact hDirty ⟨hValid, (hStill hSet).1⟩
      · exact (hStill hSet).2 hRest

/-- After all frames are flushed none that holds a page is dirty. -/
theorem Sound.flushAllPages (h : Sound ⟨pool, guards, pages⟩) :
    ∃ pool', pool.flushAllPages = (.ok, pool') ∧ Sound ⟨pool', guards, pages⟩ ∧
      ∀ i, (pool'.frame i).page.id ≠ kInvalidPageId → (pool'.frame i).dirty = false := by
  obtain ⟨pool', hFlush, hSound, hFrames⟩ := h.flushFrames (List.range pool.frames.length)
  refine ⟨pool', hFlush, hSound, fun i hValid => ?_⟩
  rw [(hFrames i).1] at hValid
  by_contra hDirty
  have hStill := (hFrames i).2 (Bool.not_eq_false _ ▸ hDirty)
  exact hValid (hStill.2 (List.mem_range.mpr (lt_length_of_id hValid)))

/-! ## Fetching -/

/-- A page that is cached is pinned once more. -/
theorem Sound.fetch_cached (h : Sound ⟨pool, guards, pages⟩) {id : UInt32} {i : Nat} (hTable : pool.pageTable id = some i)
    (writable : Bool) : ∃ pool', pool.fetchPage id writable = (.ok ⟨id, i, writable⟩, pool') ∧
      Sound ⟨pool', some ⟨id, i, writable⟩ :: guards, pages⟩ := by
  obtain ⟨store, hStores, hPages, hBacked⟩ := h.stored
  obtain ⟨hLt, hCached⟩ := h.cached_page hTable
  generalize hPinned : ({ pool.frame i with pinCount := (pool.frame i).pinCount + 1, age := pool.clock + 1 } : Frame) = pinned
  have hPage : pinned.page = (pool.frame i).page := hPinned ▸ rfl
  have hDirty : pinned.dirty = (pool.frame i).dirty := hPinned ▸ rfl
  have hPins : pinned.pinCount = (pool.frame i).pinCount + 1 := hPinned ▸ rfl
  generalize hPool : (⟨pool.disk, pool.frames.set i pinned, pool.pageTable, pool.clock + 1⟩ : BufferPool) = pool'
  have hSelf : pool'.frame i = pinned := by
    rw [← hPool]
    exact frame_setFrame_self hLt
  have hOther (j : Nat) (hNe : j ≠ i) : pool'.frame j = pool.frame j := by
    rw [← hPool]
    exact frame_setFrame_of_ne hNe
  have hDisk : pool'.disk = pool.disk := hPool ▸ rfl
  have hSameTable : pool'.pageTable = pool.pageTable := hPool ▸ rfl
  refine ⟨pool', ?_, ?_⟩
  · rw [fetchPage, hTable]
    simp only [hPinned]
    exact congrArg (Prod.mk _) hPool
  · refine h.set_frame hLt (hPool ▸ rfl) hSameTable (by rw [hPage])
      ⟨store, hDisk ▸ hStores, fun other => ?_, fun other body hBody hNone => ?_⟩
      (hPage ▸ h.cached i) (fun _ _ => rfl) ?_ (fun j hNe => pins_cons_of_ne hNe) fun guard hMem => ?_
    · exact hDisk ▸ hPages other
    · refine hBacked other body hBody fun j hJ => ?_
      obtain ⟨hClean, hReaders⟩ := hNone j (hSameTable ▸ hJ)
      refine ⟨?_, fun guard hGuard => hReaders guard (List.mem_cons_of_mem _ hGuard)⟩
      obtain rfl | hNe := eq_or_ne j i
      · rw [← hDirty, ← hSelf]
        exact hClean
      · rw [← hOther j hNe]
        exact hClean
    · rw [hPins, pins_cons_self]
      exact congrArg Nat.succ (h.pinned i)
    · obtain hHead | hRest := List.mem_cons.mp hMem
      · rw [Option.some.inj hHead]
        exact Or.inr hTable
      · exact Or.inl hRest

/-- The frame of a page is emptied, and the page is taken out of the table. -/
theorem Sound.emptied (h : Sound ⟨pool, guards, pages⟩) {id : UInt32} {i : Nat} (hTable : pool.pageTable id = some i)
    (hPins : (pool.frame i).pinCount = 0) {f : Frame} (hInvalid : f.page.id = kInvalidPageId)
    (hFramePins : f.pinCount = (pool.frame i).pinCount) {pool' : BufferPool} {pages' : UInt32 → Option PageBody}
    (hPages : ∀ other, other ≠ id → pages' other = pages other) (hFrames : pool'.frames = pool.frames.set i f)
    (hTables : pool'.pageTable = Function.update pool.pageTable id none)
    (hStored : (∀ other, other ≠ id → Written ⟨pool', guards, pages'⟩ other → Written ⟨pool, guards, pages⟩ other) →
      ∃ store, pool'.disk.Stores store ∧ Backed ⟨pool', guards, pages'⟩ store) : Sound ⟨pool', guards, pages'⟩ := by
  obtain ⟨hLt, -⟩ := h.cached_page hTable
  have hSelf : pool'.frame i = f := by
    rw [frame, hFrames]
    exact frame_setFrame_self hLt
  have hOther (j : Nat) (hNe : j ≠ i) : pool'.frame j = pool.frame j := by
    rw [frame, hFrames]
    exact frame_setFrame_of_ne hNe
  have hEmpty : (pool'.frame i).page.id = kInvalidPageId := by rw [hSelf, hInvalid]
  have hOtherTable (other : UInt32) (hNe : other ≠ id) : pool'.pageTable other = pool.pageTable other := by
    rw [hTables, Function.update_of_ne hNe]
  have hFree : ∀ guard, some guard ∈ guards → guard.pageId ≠ id := by
    rintro guard hGuard rfl
    have hFrame : guard.frame = i := Option.some.inj ((h.guarded guard hGuard).symm.trans hTable)
    exact pins_ne_zero hGuard ((h.pinned guard.frame).symm.trans (hFrame ▸ hPins))
  constructor
  case stored =>
    apply hStored
    intro other hNe hClean j hJ
    have hOtherFrame : j ≠ i := by
      rintro rfl
      exact hNe (h.frame_unique hJ hTable)
    obtain ⟨hCleanFrame, hReaders⟩ := hClean j ((hOtherTable other hNe).trans hJ)
    exact ⟨hOther j hOtherFrame ▸ hCleanFrame, hReaders⟩
  case table =>
    intro other j
    obtain rfl | hNe := eq_or_ne j i
    · rw [hEmpty]
      refine iff_of_false (fun hSome => ?_) (fun hValid => hValid.1 hValid.2.symm)
      obtain rfl | hNe := eq_or_ne other id
      · rw [hTables, Function.update_self] at hSome
        exact Option.some_ne_none _ hSome.symm
      · exact hNe (h.frame_unique ((hOtherTable other hNe).symm.trans hSome) hTable)
    · rw [hOther j hNe]
      refine Iff.trans ?_ (h.table other j)
      obtain rfl | hNeId := eq_or_ne other id
      · rw [hTables, Function.update_self]
        refine iff_of_false (fun hSome => Option.some_ne_none _ hSome.symm) fun hSome => hNe ?_
        exact Option.some.inj (hSome.symm.trans hTable)
      · rw [hOtherTable other hNeId]
  case cached =>
    intro j hValid
    obtain rfl | hNe := eq_or_ne j i
    · exact absurd hEmpty hValid
    · rw [hOther j hNe] at hValid ⊢
      refine (hPages _ fun hSame => hNe ?_).trans (h.cached j hValid)
      have hHere := (h.table _ j).mpr ⟨hValid, rfl⟩
      rw [hSame] at hHere
      exact Option.some.inj (hHere.symm.trans hTable)
  case pinned =>
    intro j
    obtain rfl | hNe := eq_or_ne j i
    · rw [hSelf, hFramePins]
      exact h.pinned j
    · rw [hOther j hNe]
      exact h.pinned j
  case guarded =>
    intro guard hGuard
    rw [hOtherTable _ (hFree guard hGuard)]
    exact h.guarded guard hGuard

/-- A victim is written back if it has to be, and leaves an empty frame. -/
theorem Sound.evict (h : Sound ⟨pool, guards, pages⟩) {i : Nat} (hLt : i < pool.frames.length)
    (hPins : (pool.frame i).pinCount = 0) : ∃ pool', pool.evict i = (.ok, pool') ∧ Sound ⟨pool', guards, pages⟩ ∧
      pool'.frames.length = pool.frames.length ∧ (pool'.frame i).page.id = kInvalidPageId ∧
        ∀ id, pool.pageTable id = none → pool'.pageTable id = none := by
  obtain ⟨store, hStores, hBacked⟩ := h.stored
  have hEmpty (pool' : BufferPool) (hFrames : pool'.frames = pool.frames.set i { pool.frame i with page := .reset }) :
      pool'.frames.length = pool.frames.length ∧ (pool'.frame i).page.id = kInvalidPageId := by
    have hSelf : pool'.frame i = { pool.frame i with page := .reset } := by
      rw [frame, hFrames]
      exact frame_setFrame_self hLt
    rw [hSelf, hFrames, List.length_set]
    exact ⟨rfl, rfl⟩
  have hKept (id' : UInt32) (id : UInt32) (hNone : pool.pageTable id = none) :
      Function.update pool.pageTable id' none id = none := by
    obtain rfl | hNe := eq_or_ne id id'
    · exact Function.update_self _ _ _
    · rw [Function.update_of_ne hNe, hNone]
  by_cases hValid : (pool.frame i).page.id ≠ kInvalidPageId
  · have hTable := (h.table _ i).mpr ⟨hValid, rfl⟩
    have hCached := (h.cached_page hTable).2
    cases hDirty : (pool.frame i).dirty with
    | true =>
      have hUse := (hBacked.1 _).mp fun hNone => Option.some_ne_none _ (hCached.symm.trans hNone)
      obtain ⟨disk, hWrite, hFields, hWritten⟩ := hStores.writePage hUse.1 hUse.2.1 hUse.2.2 (pool.frame i).page
      refine ⟨⟨disk, pool.frames.set i { pool.frame i with page := .reset },
        Function.update pool.pageTable (pool.frame i).page.id none, pool.clock⟩, ?_, ?_, ?_⟩
      · simp only [BufferPool.evict, if_pos hValid, hDirty, hWrite]
        rfl
      · refine h.emptied (f := { pool.frame i with page := .reset }) hTable hPins rfl rfl (fun _ _ => rfl) rfl rfl
          fun hOther => ⟨_, hWritten, fun other => ?_, fun other body hBody hClean => ?_⟩
        · refine (hBacked.1 other).trans ?_
          show pool.disk.InUse store other ↔ disk.InUse _ other
          rw [Disk.InUse, Disk.InUse, hFields, PageStore.free_set]
        · obtain rfl | hNe := eq_or_ne other (pool.frame i).page.id
          · rw [PageStore.contents_set_self]
            exact Option.some.inj (hCached.symm.trans hBody)
          · rw [PageStore.contents_set_of_ne _ _ _ _ hNe]
            exact hBacked.2 other body hBody (hOther other hNe hClean)
      · exact ⟨(hEmpty _ rfl).1, (hEmpty _ rfl).2, hKept _⟩
    | false =>
      have hWritten : Written ⟨pool, guards, pages⟩ (pool.frame i).page.id := by
        intro j hJ
        obtain rfl : j = i := Option.some.inj (hJ.symm.trans hTable)
        refine ⟨hDirty, fun guard hGuard hSame => ?_⟩
        exact absurd ((h.pinned guard.frame).symm.trans (hSame ▸ hPins)) (pins_ne_zero hGuard)
      refine ⟨⟨pool.disk, pool.frames.set i { pool.frame i with page := .reset },
        Function.update pool.pageTable (pool.frame i).page.id none, pool.clock⟩, ?_, ?_, ?_⟩
      · simp only [BufferPool.evict, if_pos hValid, hDirty, if_neg Bool.false_ne_true]
        rfl
      · refine h.emptied (f := { pool.frame i with page := .reset }) hTable hPins rfl rfl (fun _ _ => rfl) rfl rfl
          fun hOther => ⟨store, hStores, hBacked.1, fun other body hBody hClean => ?_⟩
        obtain rfl | hNe := eq_or_ne other (pool.frame i).page.id
        · exact hBacked.2 _ body hBody hWritten
        · exact hBacked.2 other body hBody (hOther other hNe hClean)
      · exact ⟨(hEmpty _ rfl).1, (hEmpty _ rfl).2, hKept _⟩
  · have hInvalid : (pool.frame i).page.id = kInvalidPageId := not_not.mp hValid
    refine ⟨⟨pool.disk, pool.frames.set i { pool.frame i with page := .reset }, pool.pageTable, pool.clock⟩, ?_, ?_, ?_⟩
    · simp only [BufferPool.evict, if_neg hValid]
      rfl
    · refine h.set_frame hLt rfl rfl hInvalid.symm ⟨store, hStores, hBacked.1, fun id body hBody hClean => ?_⟩
        (fun hReset => absurd rfl hReset) (fun _ _ => rfl) (h.pinned i) (fun _ _ => rfl) (fun _ hMem => Or.inl hMem)
      refine hBacked.2 id body hBody fun j hJ => ?_
      have hNe : j ≠ i := by
        rintro rfl
        obtain ⟨hId, hSame⟩ := (h.table id j).mp hJ
        exact hId (hSame.symm.trans hInvalid)
      obtain ⟨hCleanFrame, hReaders⟩ := hClean j hJ
      have hSame : (pool.setFrame i { pool.frame i with page := .reset }).frame j = pool.frame j := frame_setFrame_of_ne hNe
      exact ⟨hSame ▸ hCleanFrame, hReaders⟩
    · exact ⟨(hEmpty _ rfl).1, (hEmpty _ rfl).2, fun _ hNone => hNone⟩

/-- The page read has the contents that were last written to it. -/
theorem Sound.load (h : Sound ⟨pool, guards, pages⟩) {id : UInt32} {i : Nat} (hLt : i < pool.frames.length)
    (hEmpty : (pool.frame i).page.id = kInvalidPageId) (hPins : (pool.frame i).pinCount = 0)
    (hNone : pool.pageTable id = none) (hPage : pages id ≠ none) (writable : Bool) :
    ∃ pool', pool.load i id writable = (.ok ⟨id, i, writable⟩, pool') ∧
      Sound ⟨pool', some ⟨id, i, writable⟩ :: guards, pages⟩ := by
  obtain ⟨store, hStores, hPages, hBacked⟩ := h.stored
  obtain ⟨body, hBody⟩ := Option.ne_none_iff_exists'.mp hPage
  obtain ⟨hPos, hRange, hUsed⟩ := (hPages id).mp hPage
  obtain ⟨found, hRead, hFoundId, hFound⟩ := hStores.readPage hPos hRange (pool.frame i).page
  have hContents : found.body = body := by
    rw [hFound]
    exact hBacked id body hBody fun j hJ => absurd (hJ.symm.trans hNone) (Option.some_ne_none _)
  have hId : id ≠ kInvalidPageId := Disk.ne_kInvalidPageId_of_lt hRange
  generalize hPool : (⟨pool.disk, pool.frames.set i ⟨⟨id, found.data, found.size⟩, 1, false, pool.clock + 1⟩,
    Function.update pool.pageTable id (some i), pool.clock + 1⟩ : BufferPool) = pool'
  have hSelf : pool'.frame i = ⟨⟨id, found.data, found.size⟩, 1, false, pool.clock + 1⟩ := by
    rw [← hPool]
    exact frame_setFrame_self hLt
  have hOther (j : Nat) (hNe : j ≠ i) : pool'.frame j = pool.frame j := by
    rw [← hPool]
    exact frame_setFrame_of_ne hNe
  have hTableSelf : pool'.pageTable id = some i := by
    rw [← hPool]
    exact Function.update_self _ _ _
  have hTableOther (other : UInt32) (hNe : other ≠ id) : pool'.pageTable other = pool.pageTable other := by
    rw [← hPool]
    exact Function.update_of_ne hNe _ _
  have hDisk : pool'.disk = pool.disk := hPool ▸ rfl
  refine ⟨pool', ?_, ?_⟩
  · rw [BufferPool.load, hRead]
    exact congrArg (Prod.mk _) hPool
  constructor
  case stored =>
    refine ⟨store, hDisk ▸ hStores, fun other => hDisk ▸ hPages other, fun other found' hFound' hClean => ?_⟩
    obtain rfl | hNe := eq_or_ne other id
    · exact hBacked other found' hFound' fun j hJ => absurd (hJ.symm.trans hNone) (Option.some_ne_none _)
    · refine hBacked other found' hFound' fun j hJ => ?_
      have hOtherFrame : j ≠ i := by
        rintro rfl
        obtain ⟨hValid, hSame⟩ := (h.table other j).mp hJ
        exact hValid (hSame.symm.trans hEmpty)
      obtain ⟨hCleanFrame, hReaders⟩ := hClean j ((hTableOther other hNe).trans hJ)
      exact ⟨hOther j hOtherFrame ▸ hCleanFrame, fun guard hGuard => hReaders guard (List.mem_cons_of_mem _ hGuard)⟩
  case table =>
    intro other j
    obtain rfl | hNe := eq_or_ne j i
    · rw [hSelf]
      obtain rfl | hNeId := eq_or_ne other id
      · exact iff_of_true hTableSelf ⟨hId, rfl⟩
      · rw [hTableOther other hNeId]
        refine iff_of_false (fun hSome => ?_) fun hSame => hNeId hSame.2.symm
        obtain ⟨hValid, hSame⟩ := (h.table other j).mp hSome
        exact hValid (hSame.symm.trans hEmpty)
    · rw [hOther j hNe]
      obtain rfl | hNeId := eq_or_ne other id
      · refine iff_of_false (fun hSome => hNe (Option.some.inj (hSome.symm.trans hTableSelf))) fun hSame => ?_
        exact Option.some_ne_none _ (((h.table other j).mpr hSame).symm.trans hNone)
      · rw [hTableOther other hNeId]
        exact h.table other j
  case cached =>
    intro j hValid
    obtain rfl | hNe := eq_or_ne j i
    · rw [hSelf]
      exact hBody.trans (congrArg some hContents.symm)
    · rw [hOther j hNe] at hValid ⊢
      exact h.cached j hValid
  case pinned =>
    intro j
    obtain rfl | hNe := eq_or_ne j i
    · rw [hSelf, pins_cons_self]
      exact congrArg Nat.succ (hPins.symm.trans (h.pinned j))
    · rw [hOther j hNe, pins_cons_of_ne hNe]
      exact h.pinned j
  case guarded =>
    intro guard hGuard
    obtain hHead | hRest := List.mem_cons.mp hGuard
    · rw [Option.some.inj hHead]
      exact hTableSelf
    · have hNe : guard.pageId ≠ id := by
        rintro rfl
        exact Option.some_ne_none _ ((h.guarded guard hRest).symm.trans hNone)
      rw [hTableOther _ hNe]
      exact h.guarded guard hRest

/-- A page in use is fetched, or every frame is pinned and nothing changes. -/
theorem Sound.fetchPage (h : Sound ⟨pool, guards, pages⟩) {id : UInt32} (hPage : pages id ≠ none) (writable : Bool) :
    (∃ i pool', pool.fetchPage id writable = (.ok ⟨id, i, writable⟩, pool') ∧
      Sound ⟨pool', some ⟨id, i, writable⟩ :: guards, pages⟩) ∨
    pool.pageTable id = none ∧
      pool.fetchPage id writable = (.error (.outOfMemory (ascii "all buffer pages are pinned")), pool) := by
  cases hTable : pool.pageTable id with
  | some i =>
    obtain ⟨pool', hFetch, hSound⟩ := h.fetch_cached hTable writable
    exact Or.inl ⟨i, pool', hFetch, hSound⟩
  | none =>
    cases hVictim : pool.victimLocked with
    | none =>
      refine Or.inr ⟨rfl, ?_⟩
      rw [BufferPool.fetchPage, hTable]
      simp only [hVictim]
    | some i =>
      obtain ⟨hLt, hPins⟩ := victim_unpinned hVictim
      obtain ⟨evicted, hEvict, hEvicted, hLength, hEmpty, hKept⟩ := h.evict hLt hPins
      have hStill : (evicted.frame i).pinCount = 0 := by
        have hSame := (hEvicted.pinned i).trans (h.pinned i).symm
        exact hSame.trans hPins
      obtain ⟨pool', hLoad, hLoaded⟩ := hEvicted.load (hLength ▸ hLt) hEmpty hStill (hKept id hTable) hPage writable
      refine Or.inl ⟨i, pool', ?_, hLoaded⟩
      rw [BufferPool.fetchPage, hTable]
      simp only [hVictim, hEvict, hLoad]

/-! ## Creating and deleting -/

/-- A page that the disk allocates is not cached. -/
theorem Sound.allocated (h : Sound ⟨pool, guards, pages⟩)
    (hRoom : pool.disk.freeListHead = kInvalidPageId → pool.disk.pageCount < kInvalidPageId) :
    ∃ id disk, pool.disk.allocatePage = (.ok id, disk) ∧ pages id = none ∧ pool.pageTable id = none ∧
      Sound ⟨{ pool with disk := disk }, guards, Function.update pages id (some (Page.free id kInvalidPageId).body)⟩ := by
  obtain ⟨store, hStores, hPages, hBacked⟩ := h.stored
  obtain ⟨id, disk, free, hCall, hTaken, hFresh, hUse⟩ := hStores.allocatePage hRoom
  have hNew : pages id = none := by
    by_contra hOld
    exact hFresh ((hPages id).mp hOld)
  have hNone : pool.pageTable id = none := by
    cases hTable : pool.pageTable id with
    | none => rfl
    | some i => exact absurd ((h.cached_page hTable).2.symm.trans hNew) (Option.some_ne_none _)
  refine ⟨id, disk, hCall, hNew, hNone, ?_⟩
  have hOther (other : UInt32) (hOld : pages other ≠ none) : other ≠ id := fun hSame => hOld (hSame ▸ hNew)
  constructor
  case stored =>
    refine ⟨_, hTaken, fun other => ?_, fun other body hBody hClean => ?_⟩
    · refine Iff.trans ?_ (hUse other).symm
      show Function.update pages id _ other ≠ none ↔ _
      obtain rfl | hNe := eq_or_ne other id
      · rw [Function.update_self]
        exact iff_of_true (Option.some_ne_none _) (Or.inl rfl)
      · rw [Function.update_of_ne hNe, or_iff_right hNe]
        exact hPages other
    · obtain rfl | hNe := eq_or_ne other id
      · rw [PageStore.contents_set_self]
        have hSelf : Function.update pages other (some (Page.free other kInvalidPageId).body) other = some body := hBody
        rw [Function.update_self] at hSelf
        exact Option.some.inj hSelf
      · rw [PageStore.contents_set_of_ne _ _ _ _ hNe]
        exact hBacked other body ((Function.update_of_ne hNe _ _).symm.trans hBody) hClean
  case table => exact h.table
  case cached =>
    intro i hValid
    have hCached := h.cached i hValid
    have hNe := hOther _ fun hNoPage => Option.some_ne_none _ (hCached.symm.trans hNoPage)
    exact (Function.update_of_ne hNe _ _).trans hCached
  case pinned => exact h.pinned
  case guarded => exact h.guarded

/-- What the disk holds after a page is freed that is taken out of the flat map. -/
theorem backed_freed {store : PageStore} (hStores : pool.disk.Stores store) (hBacked : Backed ⟨pool, guards, pages⟩ store)
    {id : UInt32} (hPage : pages id ≠ none) :
    ∃ disk store', pool.disk.freePage id = (.ok, disk) ∧ disk.Stores store' ∧
      (∀ other, Function.update pages id none other ≠ none ↔ disk.InUse store' other) ∧
      ∀ other, other ≠ id → store'.contents other = store.contents other := by
  obtain ⟨hPos, hLt, hUsed⟩ := (hBacked.1 id).mp hPage
  obtain ⟨disk, hFree, hCount, hFreed⟩ := hStores.freePage hPos hLt hUsed
  refine ⟨disk, _, hFree, hFreed, fun other => ?_, fun other hNe => PageStore.contents_set_of_ne _ _ _ _ hNe⟩
  obtain rfl | hNe := eq_or_ne other id
  · rw [Function.update_self]
    exact iff_of_false (fun hNone => hNone rfl) fun hUse => hUse.2.2 List.mem_cons_self
  · rw [Function.update_of_ne hNe]
    refine (hBacked.1 other).trans ?_
    show pool.disk.InUse store other ↔ _
    rw [Disk.InUse, Disk.InUse, hCount, PageStore.free_set, List.mem_cons, or_iff_right hNe]

/-- A page that is not cached is freed. -/
theorem Sound.freed (h : Sound ⟨pool, guards, pages⟩) {id : UInt32} (hPage : pages id ≠ none) (hNone : pool.pageTable id = none) :
    ∃ disk, pool.disk.freePage id = (.ok, disk) ∧
      Sound ⟨{ pool with disk := disk }, guards, Function.update pages id none⟩ := by
  obtain ⟨store, hStores, hBacked⟩ := h.stored
  obtain ⟨disk, store', hFree, hFreed, hUse, hContents⟩ := backed_freed hStores hBacked hPage
  refine ⟨disk, hFree, ?_⟩
  constructor
  case stored =>
    refine ⟨store', hFreed, hUse, fun other body hBody hClean => ?_⟩
    have hNe : other ≠ id := by
      rintro rfl
      exact Option.some_ne_none _ (hBody.symm.trans (Function.update_self _ _ _))
    rw [hContents other hNe]
    exact hBacked.2 other body ((Function.update_of_ne hNe _ _).symm.trans hBody) hClean
  case table => exact h.table
  case cached =>
    intro i hValid
    have hNe : (pool.frame i).page.id ≠ id := fun hSame =>
      Option.some_ne_none _ (((h.table id i).mpr ⟨hSame ▸ hValid, hSame⟩).symm.trans hNone)
    exact (Function.update_of_ne hNe _ _).trans (h.cached i hValid)
  case pinned => exact h.pinned
  case guarded => exact h.guarded

/-- A new page is pinned for writing, or every frame is pinned and the page is free again. -/
theorem Sound.newPage (h : Sound ⟨pool, guards, pages⟩)
    (hRoom : pool.disk.freeListHead = kInvalidPageId → pool.disk.pageCount < kInvalidPageId) :
    (∃ id i pool', pool.newPage = (.ok (⟨id, i, true⟩, id), pool') ∧ pages id = none ∧
      Sound ⟨pool', some ⟨id, i, true⟩ :: guards, Function.update pages id (some (Page.free id kInvalidPageId).body)⟩) ∨
    ∃ id allocated disk, pool.disk.allocatePage = (.ok id, allocated) ∧ allocated.freePage id = (.ok, disk) ∧
      pool.newPage = (.error (.outOfMemory (ascii "all buffer pages are pinned")), { pool with disk := disk }) ∧
        Sound ⟨{ pool with disk := disk }, guards, pages⟩ := by
  obtain ⟨id, disk, hCall, hNew, hNone, hAllocated⟩ := h.allocated hRoom
  have hPage : Function.update pages id (some (Page.free id kInvalidPageId).body) id ≠ none := by
    rw [Function.update_self]
    exact Option.some_ne_none _
  obtain ⟨i, pool', hFetch, hSound⟩ | ⟨-, hFetch⟩ := hAllocated.fetchPage hPage true
  · refine Or.inl ⟨id, i, pool', ?_, hNew, hSound⟩
    simp only [BufferPool.newPage, hCall, hFetch]
  · obtain ⟨disk', hFree, hSound⟩ := hAllocated.freed hPage hNone
    have hSame : Function.update (Function.update pages id (some (Page.free id kInvalidPageId).body)) id none = pages := by
      rw [Function.update_idem, ← hNew, Function.update_eq_self]
    rw [hSame] at hSound
    refine Or.inr ⟨id, disk, disk', hCall, hFree, ?_, hSound⟩
    simp only [BufferPool.newPage, hCall, hFetch, hFree]

/-- A page in use is taken out of its frame and freed, or it is pinned and nothing changes. -/
theorem Sound.deletePage (h : Sound ⟨pool, guards, pages⟩) {id : UInt32} (hPage : pages id ≠ none) :
    (∃ pool', pool.deletePage id = (.ok, pool') ∧ Sound ⟨pool', guards, Function.update pages id none⟩) ∨
      ∃ status, status ≠ .ok ∧ pool.deletePage id = (status, pool) := by
  cases hTable : pool.pageTable id with
  | none =>
    obtain ⟨disk, hFree, hSound⟩ := h.freed hPage hTable
    refine Or.inl ⟨_, ?_, hSound⟩
    rw [BufferPool.deletePage, hTable]
    simp only [hFree]
  | some i =>
    by_cases hPins : (pool.frame i).pinCount = 0
    · obtain ⟨store, hStores, hBacked⟩ := h.stored
      obtain ⟨disk, store', hFree, hFreed, hUse, hContents⟩ := backed_freed hStores hBacked hPage
      refine Or.inl ⟨⟨disk, pool.frames.set i { pool.frame i with page := .reset, dirty := false },
        Function.update pool.pageTable id none, pool.clock⟩, ?_, ?_⟩
      · have hFreePage : pool.disk.freePage id = (.ok, disk) := hFree
        rw [BufferPool.deletePage, hTable]
        simp only [if_neg (not_not.mpr hPins), disk_setTable, disk_setFrame, hFreePage]
        rfl
      · refine h.emptied (f := { pool.frame i with page := .reset, dirty := false }) hTable hPins rfl rfl
          (fun other hNe => Function.update_of_ne hNe _ _) rfl rfl
          fun hOther => ⟨store', hFreed, hUse, fun other body hBody hClean => ?_⟩
        have hNe : other ≠ id := by
          rintro rfl
          exact Option.some_ne_none _ (hBody.symm.trans (Function.update_self _ _ _))
        rw [hContents other hNe]
        exact hBacked.2 other body ((Function.update_of_ne hNe _ _).symm.trans hBody) (hOther other hNe hClean)
    · refine Or.inr ⟨.invalidArgument (ascii "cannot delete a pinned page"), Status.noConfusion, ?_⟩
      rw [BufferPool.deletePage, hTable]
      simp only [if_pos hPins]

end PoolUse

end TupleStone
