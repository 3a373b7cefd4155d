import TupleStone.Common.Crc32c
import TupleStone.Common.Endian
import TupleStone.Lib.RandomAccess

/-! # Pages

A page on disk begins with the checksum of the rest. A free page holds the number of the next free page at offset 16.
-/

set_option autoImplicit false

namespace TupleStone

open RandomAccess

def kInvalidPageId : UInt32 := 0xFFFFFFFF

def kPageSize : Nat := 4096

def kPageSizeLog2 : UInt8 := 12

def kHeaderPageId : UInt32 := 0

inductive PageType where
  | kFree
  | kHeap
  | kBtreeInternal
  | kBtreeLeaf
  | kOverflow
  deriving DecidableEq, Repr

def PageType.toByte : PageType → UInt8
  | kFree => 4
  | kHeap => 1
  | kBtreeInternal => 2
  | kBtreeLeaf => 3
  | kOverflow => 5

structure Page where
  id : UInt32
  data : Bytes
  size : data.length = kPageSize

/-- Bytes 4 to 4095 of a page: what the checksum covers and clients may use. -/
@[ext]
structure PageBody where
  bytes : Bytes
  size : bytes.length = kPageSize - 4

namespace PageBody

def image (body : PageBody) : Bytes := storeU32LE (crc32c body.bytes) ++ body.bytes

/-- What stands at offset 16 of the page. -/
def next (body : PageBody) : UInt32 := loadU32LE (body.bytes.drop 12)

theorem length_image (body : PageBody) : body.image.length = kPageSize := by
  rw [image, List.length_append, length_storeU32LE, body.size]
  rfl

@[simp] theorem drop_image (body : PageBody) (offset : Nat) : body.image.drop (4 + offset) = body.bytes.drop offset := by
  rw [image, ← List.drop_drop, List.drop_append_of_le_length (Nat.le_of_eq (length_storeU32LE _).symm),
    List.drop_of_length_le (Nat.le_of_eq (length_storeU32LE _)), List.nil_append]

theorem drop_four_image (body : PageBody) : body.image.drop 4 = body.bytes := drop_image body 0

theorem loadU32LE_image (body : PageBody) : loadU32LE body.image = crc32c body.bytes := by
  rw [image, loadU32LE_storeU32LE]

theorem next_image (body : PageBody) : loadU32LE (body.image.drop 16) = body.next := by
  have hDrop : body.image.drop 16 = body.bytes.drop 12 := drop_image body 12
  rw [hDrop, next]

end PageBody

namespace Page

def reset : Page := ⟨kInvalidPageId, List.replicate kPageSize 0, List.length_replicate⟩

def ofId (id : UInt32) : Page := ⟨id, reset.data, reset.size⟩

def store (page : Page) (offset : Nat) (bytes : Bytes) (h : offset + bytes.length ≤ kPageSize) : Page :=
  ⟨page.id, writeAt 0 page.data offset bytes, by rw [length_writeAt, page.size, Nat.max_eq_left h]⟩

def body (page : Page) : PageBody := ⟨page.data.drop 4, by rw [List.length_drop, page.size]⟩

theorem bytes_body (page : Page) : page.body.bytes = page.data.drop 4 := rfl

/-- What a client does to bytes 4 to 4095. -/
def setBody (page : Page) (body : PageBody) : Page :=
  ⟨page.id, page.data.take 4 ++ body.bytes, by
    rw [List.length_append, List.length_take, page.size, body.size]
    rfl⟩

@[simp] theorem id_setBody (page : Page) (body : PageBody) : (page.setBody body).id = page.id := rfl

@[simp] theorem body_setBody (page : Page) (body : PageBody) : (page.setBody body).body = body := by
  have hFour : (page.data.take 4).length = 4 := by
    rw [List.length_take, page.size]
    rfl
  apply PageBody.ext
  rw [bytes_body, setBody, List.drop_append_of_le_length (Nat.le_of_eq hFour.symm), List.drop_of_length_le (Nat.le_of_eq hFour),
    List.nil_append]

/-- The page that `AllocatePage` and `FreePage` write. -/
def free (id next : UInt32) : Page :=
  ((ofId id).store 4 [PageType.kFree.toByte] (by decide)).store 16 (storeU32LE next) (by rw [length_storeU32LE]; decide)

theorem next_free (id next : UInt32) : (free id next).body.next = next := by
  have hRead : readAt (free id next).data 16 4 = some (storeU32LE next) := by
    have hSame := readAt_writeAt_same 0 ((ofId id).store 4 [PageType.kFree.toByte] (by decide)).data (storeU32LE next) 16
    rwa [length_storeU32LE] at hSame
  obtain ⟨before, after, hData, hBefore, -⟩ := readAt_eq_some.mp hRead
  have hOffset : 4 + 12 = before.length := hBefore.symm
  rw [PageBody.next, bytes_body, List.drop_drop, hData, hOffset, List.drop_left, loadU32LE_storeU32LE]

end Page

end TupleStone
