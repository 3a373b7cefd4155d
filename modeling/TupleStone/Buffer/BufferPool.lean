import TupleStone.Disk.DiskManager

/-! # The buffer pool

Frames hold pages of the disk. A guard pins the page it was fetched for; a page that was fetched for writing is dirty
when its guard is dropped.
-/

set_option autoImplicit false

namespace TupleStone

structure Frame where
  page : Page := .reset
  pinCount : Nat := 0
  dirty : Bool := false
  age : UInt64 := 0

/-- A guard that is not empty: its page is that of a frame. -/
structure PageGuard where
  pageId : UInt32
  frame : Nat
  writable : Bool
  deriving DecidableEq, Repr

structure BufferPool where
  disk : Disk
  frames : List Frame
  pageTable : UInt32 → Option Nat
  clock : UInt64

namespace BufferPool

def ofSize (poolSize : Nat) (disk : Disk) : BufferPool := ⟨disk, List.replicate poolSize {}, fun _ => none, 0⟩

def frame (pool : BufferPool) (i : Nat) : Frame := pool.frames.getD i {}

def setFrame (pool : BufferPool) (i : Nat) (frame : Frame) : BufferPool := { pool with frames := pool.frames.set i frame }

def setTable (pool : BufferPool) (pageId : UInt32) (i : Option Nat) : BufferPool :=
  { pool with pageTable := Function.update pool.pageTable pageId i }

/-! ## Victims -/

/-- One turn of the loop over the frames: the victim and its age so far. -/
def olderFrame (found : Option Nat × UInt64) (entry : Frame × Nat) : Option Nat × UInt64 :=
  if entry.1.pinCount = 0 ∧ entry.1.page.id ≠ kInvalidPageId ∧ entry.1.age < found.2 then (some entry.2, entry.1.age) else found

/-- The first of the oldest frames that hold a page and are not pinned. -/
def oldestFrame (pool : BufferPool) : Option Nat := (pool.frames.zipIdx.foldl olderFrame (none, 0xFFFFFFFFFFFFFFFF)).1

def victimLocked (pool : BufferPool) : Option Nat :=
  match pool.oldestFrame with
  | some i => some i
  | none => pool.frames.findIdx? (fun frame => frame.pinCount = 0)

/-! ## Fetching -/

/-- Writes the page of the victim if it is dirty and takes it out of the table and the frame. -/
def evict (pool : BufferPool) (i : Nat) : Status × BufferPool :=
  let frame := pool.frame i
  if frame.page.id ≠ kInvalidPageId then
    if frame.dirty then
      match pool.disk.writePage frame.page.id frame.page with
      | (.ok, disk) =>
        (.ok, ({ pool with disk := disk }.setTable frame.page.id none).setFrame i { frame with page := .reset })
      | (status, disk) => (status, { pool with disk := disk })
    else (.ok, (pool.setTable frame.page.id none).setFrame i { frame with page := .reset })
  else (.ok, pool.setFrame i { frame with page := .reset })

/-- Reads the page into the frame of the victim and pins it. -/
def load (pool : BufferPool) (i : Nat) (pageId : UInt32) (writable : Bool) : Except Status PageGuard × BufferPool :=
  match pool.disk.readPage pageId (some (pool.frame i).page) with
  | (.ok, page) =>
    let loaded : Page := page.getD .reset
    (.ok ⟨pageId, i, writable⟩,
      ({ pool with clock := pool.clock + 1 }.setFrame i ⟨{ loaded with id := pageId }, 1, false, pool.clock + 1⟩).setTable
        pageId (some i))
  | (status, _) => (.error status, pool)

def fetchPage (pool : BufferPool) (pageId : UInt32) (writable : Bool) : Except Status PageGuard × BufferPool :=
  match pool.pageTable pageId with
  | some i =>
    let frame := pool.frame i
    (.ok ⟨pageId, i, writable⟩,
      { pool with clock := pool.clock + 1 }.setFrame i { frame with pinCount := frame.pinCount + 1, age := pool.clock + 1 })
  | none =>
    match pool.victimLocked with
    | none => (.error (.outOfMemory (ascii "all buffer pages are pinned")), pool)
    | some i =>
      match pool.evict i with
      | (.ok, pool) => pool.load i pageId writable
      | (status, pool) => (.error status, pool)

def newPage (pool : BufferPool) : Except Status (PageGuard × UInt32) × BufferPool :=
  match pool.disk.allocatePage with
  | (.error status, disk) => (.error status, { pool with disk := disk })
  | (.ok allocated, disk) =>
    match { pool with disk := disk }.fetchPage allocated true with
    | (.error status, pool) => (.error status, { pool with disk := (pool.disk.freePage allocated).2 })
    | (.ok guard, pool) => (.ok (guard, allocated), pool)

/-! ## Releasing, flushing and deleting -/

def release (pool : BufferPool) (pageId : UInt32) (dirty : Bool) : BufferPool :=
  match pool.pageTable pageId with
  | none => pool
  | some i =>
    let frame := pool.frame i
    pool.setFrame i { frame with pinCount := frame.pinCount - 1, dirty := frame.dirty || dirty }

/-- Writes the page of a frame, which is then clean. -/
def writeBack (pool : BufferPool) (i : Nat) (pageId : UInt32) : Status × BufferPool :=
  match pool.disk.writePage pageId (pool.frame i).page with
  | (.ok, disk) => (.ok, { pool with disk := disk }.setFrame i { pool.frame i with dirty := false })
  | (status, disk) => (status, { pool with disk := disk })

def flushPage (pool : BufferPool) (pageId : UInt32) : Status × BufferPool :=
  match pool.pageTable pageId with
  | none => (.notFound (ascii "page is not cached"), pool)
  | some i => pool.writeBack i pageId

def flushFrames (pool : BufferPool) : List Nat → Status × BufferPool
  | [] => (.ok, pool)
  | i :: rest =>
    if (pool.frame i).page.id ≠ kInvalidPageId ∧ (pool.frame i).dirty then
      match pool.writeBack i (pool.frame i).page.id with
      | (.ok, pool) => pool.flushFrames rest
      | (status, pool) => (status, pool)
    else pool.flushFrames rest

def flushAllPages (pool : BufferPool) : Status × BufferPool := pool.flushFrames (List.range pool.frames.length)

def deletePage (pool : BufferPool) (pageId : UInt32) : Status × BufferPool :=
  let freed (pool : BufferPool) : Status × BufferPool :=
    ((pool.disk.freePage pageId).1, { pool with disk := (pool.disk.freePage pageId).2 })
  match pool.pageTable pageId with
  | none => freed pool
  | some i =>
    if (pool.frame i).pinCount ≠ 0 then (.invalidArgument (ascii "cannot delete a pinned page"), pool)
    else freed ((pool.setFrame i { pool.frame i with page := .reset, dirty := false }).setTable pageId none)

end BufferPool

/-! ## Guards -/

/-- A guard that goes out of scope or is dropped. -/
def PageGuard.drop (guard : PageGuard) (pool : BufferPool) : BufferPool := pool.release guard.pageId guard.writable

end TupleStone
