import TupleStone.Buffer.BufferPool
import TupleStone.Disk.PageRuns

/-! # Runs of the buffer pool

A run fetches, creates, changes, flushes and deletes pages and drops and moves guards. Beside the pool it keeps the
variables that hold guards, and a flat map of the pages in use with what was last written to them.
-/

set_option autoImplicit false

namespace TupleStone

structure PoolUse where
  pool : BufferPool
  guards : List (Option PageGuard)
  pages : UInt32 → Option PageBody

inductive PoolCall where
  | fetchPage (pageId : UInt32) (writable : Bool)
  | newPage
  | modify (slot : Nat) (body : PageBody)
  | declare
  | drop (slot : Nat)
  | move (source target : Nat)
  | flushPage (pageId : UInt32)
  | flushAllPages
  | deletePage (pageId : UInt32)

namespace PoolUse

def start (poolSize : Nat) (disk : Disk) (store : PageStore) : PoolUse := ⟨.ofSize poolSize disk, [], disk.inUse store⟩

/-- A variable is left without a guard. -/
def drop (u : PoolUse) (slot : Nat) : PoolUse :=
  match u.guards[slot]? with
  | some (some guard) => ⟨guard.drop u.pool, u.guards.set slot none, u.pages⟩
  | _ => u

/-- Moving a guard onto another drops the other one. -/
def move (u : PoolUse) (source target : Nat) : PoolUse :=
  if source = target ∨ u.guards.length ≤ target then u
  else
    let u := u.drop target
    match u.guards[source]? with
    | some guard => { u with guards := (u.guards.set target guard).set source none }
    | none => u

/-- Changes the page through a guard that was fetched for writing. -/
def modify (u : PoolUse) (slot : Nat) (body : PageBody) : PoolUse :=
  match u.guards[slot]? with
  | some (some guard) =>
    if guard.writable then
      let frame := u.pool.frame guard.frame
      ⟨u.pool.setFrame guard.frame { frame with page := frame.page.setBody body }, u.guards,
        Function.update u.pages guard.pageId (some body)⟩
    else u
  | _ => u

def call (u : PoolUse) : PoolCall → PoolUse
  | .fetchPage pageId writable =>
    match u.pool.fetchPage pageId writable with
    | (.ok guard, pool) => ⟨pool, u.guards ++ [some guard], u.pages⟩
    | (.error _, pool) => ⟨pool, u.guards, u.pages⟩
  | .newPage =>
    match u.pool.newPage with
    | (.ok (guard, pageId), pool) =>
      ⟨pool, u.guards ++ [some guard], Function.update u.pages pageId (some (Page.free pageId kInvalidPageId).body)⟩
    | (.error _, pool) => ⟨pool, u.guards, u.pages⟩
  | .modify slot body => u.modify slot body
  | .declare => { u with guards := u.guards ++ [none] }
  | .drop slot => u.drop slot
  | .move source target => u.move source target
  | .flushPage pageId => { u with pool := (u.pool.flushPage pageId).2 }
  | .flushAllPages => { u with pool := u.pool.flushAllPages.2 }
  | .deletePage pageId =>
    match u.pool.deletePage pageId with
    | (.ok, pool) => ⟨pool, u.guards, Function.update u.pages pageId none⟩
    | (_, pool) => ⟨pool, u.guards, u.pages⟩

/-- Pages fetched and deleted are allocated. -/
def Permitted (u : PoolUse) : PoolCall → Prop
  | .fetchPage pageId _ => u.pages pageId ≠ none
  | .deletePage pageId => u.pages pageId ≠ none
  | _ => True

/-- There is a number for a new page. -/
def HasRoom (u : PoolUse) : PoolCall → Prop
  | .newPage => u.pool.disk.freeListHead = kInvalidPageId → u.pool.disk.pageCount < kInvalidPageId
  | _ => True

inductive Reached : PoolUse → Prop where
  | start (poolSize : Nat) {disk : Disk} {store : PageStore} (h : disk.Stores store) : Reached (start poolSize disk store)
  | call {u : PoolUse} (h : Reached u) (c : PoolCall) (hPermitted : u.Permitted c) (hRoom : u.HasRoom c) : Reached (u.call c)

/-- The page is not changed in its frame, and no guard may change it. -/
def Written (u : PoolUse) (id : UInt32) : Prop :=
  ∀ i, u.pool.pageTable id = some i →
    (u.pool.frame i).dirty = false ∧ ∀ guard, some guard ∈ u.guards → guard.frame = i → guard.writable = false

/-- The disk holds the pages allocated, with the contents of those that are written. -/
def Backed (u : PoolUse) (store : PageStore) : Prop :=
  (∀ id, u.pages id ≠ none ↔ u.pool.disk.InUse store id) ∧
    ∀ id body, u.pages id = some body → u.Written id → store.contents id = body

/-- The guards on a frame. -/
def pins (guards : List (Option PageGuard)) (i : Nat) : Nat := guards.countP (·.any (·.frame = i))

structure Sound (u : PoolUse) : Prop where
  stored : ∃ store, u.pool.disk.Stores store ∧ u.Backed store
  table : ∀ id i, u.pool.pageTable id = some i ↔ id ≠ kInvalidPageId ∧ (u.pool.frame i).page.id = id
  cached : ∀ i, (u.pool.frame i).page.id ≠ kInvalidPageId →
    u.pages (u.pool.frame i).page.id = some (u.pool.frame i).page.body
  pinned : ∀ i, (u.pool.frame i).pinCount = pins u.guards i
  guarded : ∀ guard, some guard ∈ u.guards → u.pool.pageTable guard.pageId = some guard.frame

end PoolUse

namespace BufferPool

variable {pool : BufferPool} {i j : Nat} {f : Frame}

@[simp] theorem disk_setFrame : (pool.setFrame i f).disk = pool.disk := rfl

@[simp] theorem disk_setTable (id : UInt32) (found : Option Nat) : (pool.setTable id found).disk = pool.disk := rfl

theorem frame_setFrame_self (h : i < pool.frames.length) : (pool.setFrame i f).frame i = f := by
  rw [frame, setFrame, List.getD_eq_getElem?_getD, List.getElem?_set_self h, Option.getD_some]

theorem frame_setFrame_of_ne (h : j ≠ i) : (pool.setFrame i f).frame j = pool.frame j := by
  rw [frame, setFrame, frame, List.getD_eq_getElem?_getD, List.getD_eq_getElem?_getD, List.getElem?_set_ne h.symm]

theorem frame_of_length_le (h : pool.frames.length ≤ i) : pool.frame i = {} := by
  rw [frame, List.getD_eq_getElem?_getD, List.getElem?_eq_none h, Option.getD_none]

theorem lt_length_of_id (h : (pool.frame i).page.id ≠ kInvalidPageId) : i < pool.frames.length := by
  by_contra hLe
  rw [frame_of_length_le (Nat.not_lt.mp hLe)] at h
  exact h rfl

theorem lt_length_of_pinCount (h : (pool.frame i).pinCount ≠ 0) : i < pool.frames.length := by
  by_contra hLe
  rw [frame_of_length_le (Nat.not_lt.mp hLe)] at h
  exact h rfl

/-! ## Victims -/

/-- The loop keeps what it found or finds a frame that is not pinned. -/
theorem foldl_olderFrame (frames : List (Frame × Nat)) (found : Option Nat × UInt64) :
    (frames.foldl olderFrame found).1 = found.1 ∨
      ∃ entry ∈ frames, entry.1.pinCount = 0 ∧ (frames.foldl olderFrame found).1 = some entry.2 := by
  induction frames generalizing found with
  | nil => exact Or.inl rfl
  | cons first frames ih =>
    rw [List.foldl_cons]
    obtain hSame | ⟨entry, hMem, hPins, hFound⟩ := ih (olderFrame found first)
    · rw [hSame, olderFrame]
      split_ifs with hTake
      · exact Or.inr ⟨first, List.mem_cons_self, hTake.1, rfl⟩
      · exact Or.inl rfl
    · exact Or.inr ⟨entry, List.mem_cons_of_mem _ hMem, hPins, hFound⟩

/-- Empty frames are passed over. -/
theorem foldl_olderFrame_empty {frames : List (Frame × Nat)} (h : ∀ entry ∈ frames, entry.1.page.id = kInvalidPageId)
    (found : Option Nat × UInt64) : frames.foldl olderFrame found = found := by
  induction frames with
  | nil => rfl
  | cons first frames ih =>
    have hFirst := h first List.mem_cons_self
    rw [List.foldl_cons, olderFrame, if_neg (fun hTake => hTake.2.1 hFirst)]
    exact ih fun entry hEntry => h entry (List.mem_cons_of_mem _ hEntry)

theorem frame_eq_of_getElem? (h : pool.frames[i]? = some f) : pool.frame i = f := by
  rw [frame, List.getD_eq_getElem?_getD, h, Option.getD_some]

/-- A victim is a frame that is not pinned. -/
theorem victim_unpinned (h : pool.victimLocked = some i) : i < pool.frames.length ∧ (pool.frame i).pinCount = 0 := by
  rw [victimLocked] at h
  split at h
  · rename_i found hFound
    cases h
    obtain hNone | ⟨entry, hMem, hPins, hSome⟩ := foldl_olderFrame pool.frames.zipIdx (none, 0xFFFFFFFFFFFFFFFF)
    · exact absurd (hFound.symm.trans hNone) (Option.some_ne_none _)
    · obtain rfl : entry.2 = i := Option.some.inj (hSome.symm.trans hFound)
      have hGet := List.mem_zipIdx_iff_getElem?.mp hMem
      exact ⟨(List.getElem?_eq_some_iff.mp hGet).1, (frame_eq_of_getElem? hGet) ▸ hPins⟩
  · obtain ⟨hLt, hPins, -⟩ := List.findIdx?_eq_some_iff_getElem.mp h
    have hGet := frame_eq_of_getElem? (List.getElem?_eq_getElem hLt)
    exact ⟨hLt, hGet ▸ of_decide_eq_true hPins⟩

/-- There is no victim when every frame is pinned. -/
theorem no_victim (h : ∀ f ∈ pool.frames, f.pinCount ≠ 0) : pool.victimLocked = none := by
  cases hVictim : pool.victimLocked with
  | none => rfl
  | some i =>
    obtain ⟨hLt, hPins⟩ := victim_unpinned hVictim
    have hGet := frame_eq_of_getElem? (List.getElem?_eq_getElem hLt)
    exact absurd (hGet ▸ hPins) (h _ (List.getElem_mem hLt))

end BufferPool

end TupleStone
