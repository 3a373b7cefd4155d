import TupleStone.Common.Status
import TupleStone.Disk.Page

/-! # The disk manager

Page 0 is the header, which holds the number of pages and the head of the list of free pages. The manager keeps the
fields of the header and writes it whenever one of them changes.
-/

set_option autoImplicit false

namespace TupleStone

open RandomAccess

def kFormatVersion : UInt8 := 1

def kMagic : Bytes := ascii "TSTONE01"

def pageOffset (pageId : UInt32) : Nat := pageId.toNat * kPageSize

def ioFailure (operation : String) (path : Bytes) : Status := .ioError (ascii operation ++ ascii " failed for " ++ path)

structure DiskManager where
  isOpen : Bool := false
  path : Bytes := []
  pageCount : UInt32 := 0
  freeListHead : UInt32 := kInvalidPageId
  nextTxnId : UInt64 := 1
  checkpointLsn : UInt64 := 0
  nextTableId : UInt32 := 1
  nextIndexId : UInt32 := 1
  catalogRoots : UInt32 × UInt32 × UInt32 := (kInvalidPageId, kInvalidPageId, kInvalidPageId)
  deriving DecidableEq, Repr

namespace DiskManager

/-- The first 4092 bytes of the header; the page count is at offset 12, and zeros follow the catalog roots at 44. -/
def headerFields (disk : DiskManager) : Bytes :=
  kMagic ++ ([kFormatVersion, kPageSizeLog2, 0, 0] ++ (storeU32LE disk.pageCount ++ (storeU32LE disk.freeListHead ++
    (storeU64LE disk.nextTxnId ++ (storeU64LE disk.checkpointLsn ++ (storeU32LE disk.nextTableId ++
      (storeU32LE disk.nextIndexId ++ (storeU32LE disk.catalogRoots.1 ++ (storeU32LE disk.catalogRoots.2.1 ++
        (storeU32LE disk.catalogRoots.2.2 ++ List.replicate 4036 0))))))))))

def header (disk : DiskManager) : Bytes := disk.headerFields ++ storeU32LE (crc32c disk.headerFields)

end DiskManager

/-- A manager, and the file at its path. -/
structure Disk extends DiskManager where
  file : Option Bytes := none
  deriving DecidableEq, Repr

namespace Disk

def bytes (s : Disk) : Bytes := s.file.getD []

/-! ## The stream -/

def read (s : Disk) (offset count : Nat) : Option Bytes :=
  if s.isOpen then readAt s.bytes offset count else none

def write (s : Disk) (offset : Nat) (bytes : Bytes) : Option Disk :=
  if s.isOpen then some { s with file := some (writeAt 0 s.bytes offset bytes) } else none

/-! ## The header -/

def readHeaderLocked (s : Disk) : Status × Disk :=
  match s.read 0 kPageSize with
  | none => (ioFailure "read header" s.path, s)
  | some bytes =>
    if bytes.take 8 ≠ kMagic then (.incompatible (ascii "not a tuplestone database"), s)
    else if bytes[8]? ≠ some kFormatVersion ∨ bytes[9]? ≠ some kPageSizeLog2 then
      (.incompatible (ascii "unsupported database format"), s)
    else if loadU32LE (bytes.drop 4092) ≠ crc32c (bytes.take 4092) then
      (.corruption (ascii "header checksum mismatch"), s)
    else
      (.ok, { s with
        pageCount := loadU32LE (bytes.drop 12)
        freeListHead := loadU32LE (bytes.drop 16)
        nextTxnId := loadU64LE (bytes.drop 20)
        checkpointLsn := loadU64LE (bytes.drop 28)
        nextTableId := loadU32LE (bytes.drop 36)
        nextIndexId := loadU32LE (bytes.drop 40)
        catalogRoots := (loadU32LE (bytes.drop 44), loadU32LE (bytes.drop 48), loadU32LE (bytes.drop 52)) })

def writeHeaderLocked (s : Disk) : Status × Disk :=
  if s.isOpen then
    match s.write 0 s.header with
    | none => (ioFailure "write header" s.path, s)
    | some s => (.ok, s)
  else (.ioError (ascii "database is not open"), s)

/-! ## Opening and closing -/

/-- The rest of `Open` once the stream is open. -/
def openStream (s : Disk) : Status × Disk :=
  if s.bytes.length = 0 then
    let (status, s) := { s with
      pageCount := 1
      freeListHead := kInvalidPageId
      nextTxnId := 1
      nextTableId := 1
      nextIndexId := 1 : Disk }.writeHeaderLocked
    if status = .ok then (.ok, s) else (status, { s with isOpen := false })
  else if s.bytes.length < kPageSize ∨ s.bytes.length % kPageSize ≠ 0 then
    (.corruption (ascii "database file has an invalid size"), { s with isOpen := false })
  else s.readHeaderLocked

def openPath (s : Disk) (path : Bytes) (createIfMissing : Bool) : Status × Disk :=
  if s.isOpen then (.alreadyExists (ascii "database is already open"), s)
  else if s.file.isSome || createIfMissing then { s with path := path, isOpen := true, file := some s.bytes : Disk }.openStream
  else (ioFailure "open" path, { s with path := path })

def close (s : Disk) : Status × Disk :=
  if s.isOpen then
    let (status, s) := s.writeHeaderLocked
    (status, { s with isOpen := false })
  else (.ok, s)

/-- A new manager and the file that the destructor of the old one leaves. -/
def restarted (s : Disk) : Disk := { file := s.close.2.file }

/-! ## Pages -/

def ensurePageLocked (s : Disk) (pageId : UInt32) : Status :=
  if pageId = kInvalidPageId ∨ s.pageCount ≤ pageId then .outOfRange (ascii "page id is out of range") else .ok

def writePageLocked (s : Disk) (pageId : UInt32) (page : Page) : Status × Disk :=
  match s.ensurePageLocked pageId with
  | .ok =>
    match s.write (pageOffset pageId) (if pageId = kHeaderPageId then page.data else page.body.image) with
    | none => (ioFailure "write page" s.path, s)
    | some s => (.ok, s)
  | status => (status, s)

def writePage (s : Disk) (pageId : UInt32) (page : Page) : Status × Disk := s.writePageLocked pageId page

/-- The page at the head of the list, or a new one behind the last. -/
def takePage (s : Disk) : Except Status UInt32 × Disk :=
  if s.freeListHead ≠ kInvalidPageId then
    match s.read (pageOffset s.freeListHead) kPageSize with
    | none => (.error (ioFailure "read free page" s.path), s)
    | some bytes => (.ok s.freeListHead, { s with freeListHead := loadU32LE (bytes.drop 16) })
  else (.ok s.pageCount, { s with pageCount := s.pageCount + 1 })

/-- The page allocated is written as a free page with nothing after it. -/
def allocatePage (s : Disk) : Except Status UInt32 × Disk :=
  if s.isOpen then
    match s.takePage with
    | (.error status, s) => (.error status, s)
    | (.ok result, s) =>
      match s.writePageLocked result (.free result kInvalidPageId) with
      | (.ok, s) =>
        match s.writeHeaderLocked with
        | (.ok, s) => (.ok result, s)
        | (status, s) => (.error status, s)
      | (status, s) => (.error status, s)
  else (.error (.ioError (ascii "database is not open")), s)

/-- The page read replaces what `page` points to. -/
def readPage (s : Disk) (pageId : UInt32) (page : Option Page) : Status × Option Page :=
  match page with
  | none => (.invalidArgument (ascii "page output is null"), none)
  | some page =>
    match s.ensurePageLocked pageId with
    | .ok =>
      match h : s.read (pageOffset pageId) kPageSize with
      | none => (ioFailure "read page" s.path, some page)
      | some bytes =>
        if pageId ≠ kHeaderPageId ∧ loadU32LE bytes ≠ crc32c (bytes.drop 4) then
          (.corruption (ascii "page checksum mismatch"), some page)
        else
          (.ok, some ⟨pageId, bytes, by
            rw [read] at h
            split at h
            · exact length_of_readAt h
            · cases h⟩)
    | status => (status, some page)

def freePage (s : Disk) (pageId : UInt32) : Status × Disk :=
  match s.ensurePageLocked pageId with
  | .ok =>
    if pageId = kHeaderPageId then (.invalidArgument (ascii "cannot free header page"), s)
    else
      match s.writePageLocked pageId (.free pageId s.freeListHead) with
      | (.ok, s) => { s with freeListHead := pageId : Disk }.writeHeaderLocked
      | (status, s) => (status, s)
  | status => (status, s)

end Disk

end TupleStone
